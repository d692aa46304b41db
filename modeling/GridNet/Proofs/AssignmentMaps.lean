import GridNet.Cfg.Block
import Mathlib.Data.List.Sort

/-!
# Assignments as maps

The assignments of a block are held in ascending order of the keys, so that they are settled by the
value of each key. Inserting gives a value to a key that has none yet, and leaves all others alone.

* `Assignments.get?_insert` — the values after an insertion.
* `Assignments.ext_get?` — assignments with the same values are equal.
* `Assignments.insert_comm`, `Assignments.insert_of_assigned` — two insertions, and one
  that comes too late.
* `Assignments.insertAll_of_perm` — pairs that are inserted in any order.
-/

namespace GridNet

/-- The value of a key among some pairs. -/
def valueOf? (key : String) (pairs : List (String × String)) : Option String :=
  (pairs.find? (·.1 = key)).map (·.2)

theorem valueOf?_cons_self (key value : String) (rest : List (String × String)) :
    valueOf? key ((key, value) :: rest) = some value := by
  simp [valueOf?]

theorem valueOf?_cons_of_ne {key k : String} (h : k ≠ key) (v : String)
    (rest : List (String × String)) :
    valueOf? key ((k, v) :: rest) = valueOf? key rest := by
  simp [valueOf?, h]

/-- A key that all keys are above has no value. -/
theorem valueOf?_of_lt {key : String} {pairs : List (String × String)}
    (h : ∀ p ∈ pairs, key < p.1) :
    valueOf? key pairs = none := by
  have hnone : pairs.find? (·.1 = key) = none := by
    refine List.find?_eq_none.mpr fun p hp => ?_
    have hlt := h p hp
    rw [decide_eq_true_eq]
    rintro rfl
    exact String.lt_irrefl _ hlt
  rw [valueOf?, hnone]
  rfl

/-- A key that occurs once has the value that stands beside it. -/
theorem valueOf?_eq_some_iff {key value : String} {pairs : List (String × String)}
    (hnodup : (pairs.map (·.1)).Nodup) :
    valueOf? key pairs = some value ↔ (key, value) ∈ pairs := by
  induction pairs with
  | nil => exact ⟨fun h => (by cases h), fun h => absurd h List.not_mem_nil⟩
  | cons head rest ih =>
    obtain ⟨k, v⟩ := head
    obtain ⟨hfresh, hrest⟩ := List.nodup_cons.mp hnodup
    by_cases hk : k = key
    · subst hk
      have hmem : (k, value) ∉ rest := fun h => hfresh (List.mem_map_of_mem (f := (·.1)) h)
      rw [valueOf?_cons_self, List.mem_cons, or_iff_left hmem, Prod.mk.injEq, Option.some.injEq]
      exact ⟨fun h => ⟨rfl, h.symm⟩, fun h => h.2.symm⟩
    · have hne : (key, value) ≠ (k, v) := fun h => hk (congrArg Prod.fst h).symm
      rw [valueOf?_cons_of_ne hk, List.mem_cons, or_iff_right hne]
      exact ih hrest

/-- **One insertion** among ascending pairs. -/
theorem valueOf?_insertFirst {key value : String} {pairs : List (String × String)}
    (hascending : pairs.Pairwise (·.1 < ·.1)) (k : String) :
    valueOf? k (insertFirst key value pairs) =
      if k = key then some ((valueOf? key pairs).getD value) else valueOf? k pairs := by
  induction pairs with
  | nil =>
    by_cases hk : k = key
    · rw [hk, insertFirst, valueOf?_cons_self, if_pos rfl]
      rfl
    · rw [insertFirst, valueOf?_cons_of_ne (Ne.symm hk), if_neg hk]
  | cons head rest ih =>
    obtain ⟨k₀, v₀⟩ := head
    obtain ⟨habove, hrest⟩ := List.pairwise_cons.mp hascending
    rw [insertFirst]
    split
    · next hsame =>
      subst hsame
      by_cases hk : k = key
      · rw [hk, valueOf?_cons_self, if_pos rfl]
        rfl
      · rw [if_neg hk]
    · next hother =>
      split
      · next hbelow =>
        -- all keys are above the new one, so that it has no value yet
        have hnone : valueOf? key ((k₀, v₀) :: rest) = none := by
          refine valueOf?_of_lt fun p hp => ?_
          rcases List.mem_cons.mp hp with rfl | hp
          · exact hbelow
          · exact String.lt_trans hbelow (habove p hp)
        by_cases hk : k = key
        · rw [hk, valueOf?_cons_self, if_pos rfl, hnone]
          rfl
        · rw [valueOf?_cons_of_ne (Ne.symm hk), if_neg hk]
      · by_cases hk : k = k₀
        · rw [hk, valueOf?_cons_self, if_neg (Ne.symm hother), valueOf?_cons_self]
        · rw [valueOf?_cons_of_ne (Ne.symm hk), ih hrest, valueOf?_cons_of_ne (Ne.symm hother),
            valueOf?_cons_of_ne (Ne.symm hk)]

namespace Assignments

variable {a b : Assignments} {key value : String}

@[simp] theorem get?_empty (key : String) : empty.get? key = none := rfl

/-- **An insertion** gives a key a value unless it has one. -/
theorem get?_insert (a : Assignments) (key value k : String) :
    (a.insert key value).get? k = if k = key then some ((a.get? key).getD value) else a.get? k :=
  valueOf?_insertFirst a.ascending k

/-- No key has two values. -/
theorem nodup_keys (a : Assignments) : (a.pairs.map (·.1)).Nodup := by
  refine List.pairwise_map.mpr (a.ascending.imp fun hlt => ?_)
  exact fun heq => String.lt_irrefl _ (heq ▸ hlt)

/-- The pairs are the keys with their values. -/
theorem get?_eq_some_iff : a.get? key = some value ↔ (key, value) ∈ a.pairs :=
  valueOf?_eq_some_iff a.nodup_keys

/-- **Assignments are settled by the values** of the keys. -/
theorem ext_get? (h : ∀ key, a.get? key = b.get? key) : a = b := by
  have hpairs : a.pairs = b.pairs :=
    a.ascending.eq_of_mem_iff b.ascending fun p => by
      obtain ⟨key, value⟩ := p
      rw [← get?_eq_some_iff, ← get?_eq_some_iff, h]
  obtain ⟨pairs, _⟩ := a
  obtain ⟨pairs', _⟩ := b
  obtain rfl : pairs = pairs' := hpairs
  rfl

/-- Two keys may be assigned in either order. -/
theorem insert_comm {key' : String} (hne : key ≠ key') (a : Assignments) (value value' : String) :
    (a.insert key value).insert key' value' = (a.insert key' value').insert key value := by
  refine ext_get? fun k => ?_
  simp only [get?_insert, if_neg hne, if_neg (Ne.symm hne)]
  by_cases hk : k = key
  · subst hk
    rw [if_neg hne, if_pos rfl, if_pos rfl]
  · rw [if_neg hk, if_neg hk]

/-- A key that has a value keeps it. -/
theorem insert_of_assigned (h : (a.get? key).isSome = true) (value : String) :
    a.insert key value = a := by
  obtain ⟨old, hold⟩ := Option.isSome_iff_exists.mp h
  refine ext_get? fun k => ?_
  rw [get?_insert]
  split
  · next hk => rw [hk, hold, Option.getD_some]
  · rfl

/-- A key that is assigned stays assigned. -/
theorem isSome_get?_insert (h : (a.get? key).isSome = true) (key' value' : String) :
    ((a.insert key' value').get? key).isSome = true := by
  rw [get?_insert]
  split
  · rfl
  · exact h

/-- Inserts pairs one after the other. -/
def insertAll (a : Assignments) (pairs : List (String × String)) : Assignments :=
  pairs.foldl (fun a p => a.insert p.1 p.2) a

/-- A key keeps the value that it has, or gets that of the first pair. -/
theorem get?_insertAll (pairs : List (String × String)) (a : Assignments) (key : String) :
    (a.insertAll pairs).get? key = (a.get? key).or (valueOf? key pairs) := by
  induction pairs generalizing a with
  | nil => rw [insertAll, List.foldl_nil, show valueOf? key [] = none from rfl, Option.or_none]
  | cons head rest ih =>
    obtain ⟨k, v⟩ := head
    have hstep : a.insertAll ((k, v) :: rest) = (a.insert k v).insertAll rest := rfl
    rw [hstep, ih, get?_insert]
    by_cases hk : key = k
    · subst hk
      rw [if_pos rfl, valueOf?_cons_self]
      cases a.get? key <;> rfl
    · rw [if_neg hk, valueOf?_cons_of_ne (Ne.symm hk)]

/-- **Pairs inserted in any order** make up the same assignments. -/
theorem insertAll_of_perm {order : List (String × String)} (h : order.Perm a.pairs) :
    empty.insertAll order = a := by
  have hnodup : (order.map (·.1)).Nodup := (h.map _).nodup_iff.mpr a.nodup_keys
  refine ext_get? fun key => Option.ext fun value => ?_
  rw [get?_insertAll, get?_empty, Option.none_or, valueOf?_eq_some_iff hnodup,
    get?_eq_some_iff, h.mem_iff]

end Assignments

end GridNet
