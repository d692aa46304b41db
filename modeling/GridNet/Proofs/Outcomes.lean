import GridNet.Emit.Basic
import Mathlib.Data.List.Forall2
import Mathlib.Tactic.Ring

/-!
# What a success says

Inversion of the two monads in which networks are built: when a sequence of steps succeeds, each
step did, and its value went into the next one.

* `bind_eq_ok`, `bind_eq_error`, `ensure_eq_ok`, `mapM_eq_ok` — for outcomes; the first two also for
  replies with faults of other kinds.
* `Emit.bind_eq_ok`, `Emit.bind_eq_error` — for steps of construction, which also carry a draft.
-/

namespace GridNet

/-! ## Outcomes -/

namespace Outcome

variable {α β : Type}

section

variable {ε : Type}

@[simp] theorem bind_eq_ok {x : Except ε α} {f : α → Except ε β} {b : β} :
    (x >>= f) = .ok b ↔ ∃ a, x = .ok a ∧ f a = .ok b := by
  cases x <;> simp [bind, Except.bind]

theorem bind_eq_error {x : Except ε α} {f : α → Except ε β} {e : ε} :
    (x >>= f) = .error e ↔ x = .error e ∨ ∃ a, x = .ok a ∧ f a = .error e := by
  cases x <;> simp [bind, Except.bind]

@[simp] theorem pure_eq_ok {a b : α} : (pure a : Except ε α) = .ok b ↔ a = b := by
  simp [pure, Except.pure]

@[simp] theorem throw_ne_ok {e : ε} {a : α} : (throw e : Except ε α) = .ok a ↔ False := by
  simp [throw, throwThe, MonadExceptOf.throw]

/-- A failure in front of a step. -/
theorem throw_bind_ne_ok {e : ε} {f : α → Except ε β} {b : β} :
    ((throw e : Except ε α) >>= f) ≠ .ok b := by
  simp

theorem toOption_eq_some {x : Except ε α} {a : α} : x.toOption = some a ↔ x = .ok a := by
  cases x <;> simp [Except.toOption]

end

@[simp] theorem map_eq_ok {x : Outcome α} {f : α → β} {b : β} :
    x.map f = .ok b ↔ ∃ a, x = .ok a ∧ f a = b := by
  cases x <;> simp [Except.map]

@[simp] theorem inContext_eq_ok {text : String} {x : Outcome α} {a : α} :
    inContext text x = .ok a ↔ x = .ok a := by
  cases x <;> simp [inContext, Except.mapError]

@[simp] theorem ensure_eq_ok {condition : Bool} {text : String} {u : Unit} :
    ensure condition text = .ok u ↔ condition = true := by
  cases condition <;> simp [ensure]

@[simp] theorem demand_eq_ok {condition : Bool} {u : Unit} :
    demand condition = .ok u ↔ condition = true := by
  cases condition <;> simp [demand]

@[simp] theorem ok_bind {a : α} {f : α → Outcome β} : ((.ok a : Outcome α) >>= f) = f a := rfl

@[simp] theorem error_bind {e : Failure} {f : α → Outcome β} :
    ((.error e : Outcome α) >>= f) = .error e := rfl

/-- A list is worked through when each of its entries is. -/
theorem mapM_eq_ok {f : α → Outcome β} {xs : List α} {ys : List β} :
    xs.mapM f = .ok ys ↔ List.Forall₂ (fun x y => f x = .ok y) xs ys := by
  induction xs generalizing ys with
  | nil =>
    rw [List.mapM_nil, pure_eq_ok, List.forall₂_nil_left_iff]
    exact eq_comm
  | cons x xs ih =>
    rw [List.mapM_cons, bind_eq_ok, List.forall₂_cons_left_iff]
    constructor
    · rintro ⟨y, hy, h⟩
      obtain ⟨rest, hrest, h⟩ := bind_eq_ok.mp h
      exact ⟨y, rest, hy, ih.mp hrest, (pure_eq_ok.mp h).symm⟩
    · rintro ⟨y, rest, hy, hrest, rfl⟩
      exact ⟨y, hy, bind_eq_ok.mpr ⟨rest, ih.mpr hrest, rfl⟩⟩

/-- A list is worked through up to the first entry that fails. -/
theorem mapM_eq_error {f : α → Outcome β} {before after : List α} {x : α} {e : Failure}
    (hbefore : ∀ y ∈ before, ∃ z, f y = .ok z) (hx : f x = .error e) :
    (before ++ x :: after).mapM f = .error e := by
  induction before with
  | nil => rw [List.nil_append, List.mapM_cons, hx, error_bind]
  | cons y rest ih =>
    obtain ⟨z, hz⟩ := hbefore y List.mem_cons_self
    rw [List.cons_append, List.mapM_cons, hz, ok_bind,
      ih fun y hy => hbefore y (List.mem_cons_of_mem _ hy), error_bind]

/-- A fold succeeds when each of its steps does. -/
theorem foldlM_total {f : β → α → Outcome β} {xs : List α}
    (h : ∀ acc, ∀ x ∈ xs, ∃ next, f acc x = .ok next) (acc : β) :
    ∃ last, xs.foldlM f acc = .ok last := by
  induction xs generalizing acc with
  | nil => exact ⟨acc, rfl⟩
  | cons x xs ih =>
    obtain ⟨next, hnext⟩ := h acc x List.mem_cons_self
    obtain ⟨last, hlast⟩ := ih (fun acc y hy => h acc y (List.mem_cons_of_mem _ hy)) next
    exact ⟨last, by rw [List.foldlM_cons, hnext]; exact hlast⟩

end Outcome

/-! ## Steps of construction -/

namespace Emit

variable {α β : Type} {d d' : Draft}

theorem bind_eq_ok {m : Emit α} {f : α → Emit β} {y : β} :
    (m >>= f) d = .ok y d' ↔ ∃ x d₁, m d = .ok x d₁ ∧ f x d₁ = .ok y d' := by
  simp only [bind, EStateM.bind]
  rcases m d with ⟨x, d₁⟩ | ⟨e, d₁⟩
  · simp only [EStateM.Result.ok.injEq]
    exact ⟨fun h => ⟨x, d₁, ⟨rfl, rfl⟩, h⟩, fun ⟨_, _, ⟨rfl, rfl⟩, h⟩ => h⟩
  · simp

theorem bind_eq_error {m : Emit α} {f : α → Emit β} {e : Failure} :
    (m >>= f) d = .error e d' ↔
      m d = .error e d' ∨ ∃ x d₁, m d = .ok x d₁ ∧ f x d₁ = .error e d' := by
  simp only [bind, EStateM.bind]
  rcases m d with ⟨x, d₁⟩ | ⟨e, d₁⟩
  · simp only [EStateM.Result.ok.injEq, reduceCtorEq, false_or]
    exact ⟨fun h => ⟨x, d₁, ⟨rfl, rfl⟩, h⟩, fun ⟨_, _, ⟨rfl, rfl⟩, h⟩ => h⟩
  · simp

theorem pure_eq_ok {x y : α} : (pure x : Emit α) d = .ok y d' ↔ x = y ∧ d = d' := by
  simp [pure, EStateM.pure]

theorem map_eq_ok {m : Emit α} {f : α → β} {y : β} :
    (f <$> m) d = .ok y d' ↔ ∃ x, m d = .ok x d' ∧ f x = y := by
  simp only [Functor.map, EStateM.map]
  rcases m d with ⟨x, d₁⟩ | ⟨e, d₁⟩
  · simp only [EStateM.Result.ok.injEq]
    exact ⟨fun ⟨hy, hd⟩ => ⟨x, ⟨rfl, hd⟩, hy⟩, fun ⟨_, ⟨rfl, hd⟩, hy⟩ => ⟨hy, hd⟩⟩
  · simp

theorem lift_eq_ok {r : Outcome α} {x : α} : lift r d = .ok x d' ↔ r = .ok x ∧ d = d' := by
  cases r <;> simp [lift]

theorem lift_eq_error {r : Outcome α} {e : Failure} (h : r = .error e) :
    (lift r : Emit α) d = .error e d := by
  rw [h]
  rfl

/-- What a step leaves besides the draft tells that it came to its end. -/
theorem eq_ok_of_run' {m : Emit α} {x : α} (h : m.run' d = some x) : ∃ d', m d = .ok x d' := by
  delta EStateM.run' EStateM.run at h
  split at h
  · next y d' hm => exact ⟨d', hm.trans (Option.some.inj h ▸ rfl)⟩
  · cases h

theorem query_eq_ok {f : Graph → Outcome α} {x : α} :
    query f d = .ok x d' ↔ f d.graph = .ok x ∧ d = d' := by
  unfold query
  cases f d.graph <;> simp

theorem record_eq_ok {f : Graph → Outcome (Graph × α)} {x : α} :
    record f d = .ok x d' ↔ ∃ g, f d.graph = .ok (g, x) ∧ d' = { d with graph := g } := by
  unfold record
  rcases f d.graph with e | ⟨g, y⟩
  · simp
  · simp only [EStateM.Result.ok.injEq, Except.ok.injEq, Prod.mk.injEq]
    constructor
    · rintro ⟨rfl, rfl⟩
      exact ⟨g, ⟨rfl, rfl⟩, rfl⟩
    · rintro ⟨g', ⟨rfl, rfl⟩, rfl⟩
      exact ⟨rfl, rfl⟩

theorem take_eq_ok {count block : Nat} {values : Array Scalar} :
    take count block d = .ok values d' ↔
      ∃ c, d.cursor.take count block = .ok (values, c) ∧ d' = { d with cursor := c } := by
  unfold take
  rcases d.cursor.take count block with e | ⟨vs, c⟩
  · simp
  · simp only [EStateM.Result.ok.injEq, Except.ok.injEq, Prod.mk.injEq]
    constructor
    · rintro ⟨rfl, rfl⟩
      exact ⟨c, ⟨rfl, rfl⟩, rfl⟩
    · rintro ⟨c', ⟨rfl, rfl⟩, rfl⟩
      exact ⟨rfl, rfl⟩

end Emit

end GridNet
