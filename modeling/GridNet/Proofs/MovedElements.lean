import GridNet.Proofs.BatchMembers
import Mathlib.Data.List.Nodup
import Mathlib.Data.Set.Function

/-!
# Elements that are moved about

Many operations compute nothing: each element of the result is one of the operand, from another
place. What such an operation does is said by a function that gives for the coordinates in the
result those in the operand. If this function matches up the coordinates within an image one by one,
nothing is lost and nothing is repeated.

* `Inside`, `coordinates` — the coordinates inside a list of extents, and all of them in order.
* `Tensor.get_tabulate`, `Tensor.ext_get` — a tensor by its elements.
* `Tensor.get_slice`, `Tensor.get_transpose`, `Tensor.pick_of_extent` — single operations.
* `Tensor.Moved`, `Tensor.Moved.perm` — images whose elements are the same in another order.
-/

namespace GridNet

/-! ## Coordinates -/

/-- Coordinates **inside** a list of extents. -/
def Inside (dims ks : List Nat) : Prop := List.Forall₂ (· < ·) ks dims

theorem inside_cons {d k : Nat} {dims ks : List Nat} :
    Inside (d :: dims) (k :: ks) ↔ k < d ∧ Inside dims ks :=
  List.forall₂_cons

theorem inside_three {d₁ d₂ d₃ k₁ k₂ k₃ : Nat} :
    Inside [d₁, d₂, d₃] [k₁, k₂, k₃] ↔ k₁ < d₁ ∧ k₂ < d₂ ∧ k₃ < d₃ := by
  simp [Inside]

/-- Coordinates inside three axes are three. -/
theorem Inside.exists_three {d₁ d₂ d₃ : Nat} {ks : List Nat} (h : Inside [d₁, d₂, d₃] ks) :
    ∃ k₁ k₂ k₃, ks = [k₁, k₂, k₃] ∧ k₁ < d₁ ∧ k₂ < d₂ ∧ k₃ < d₃ := by
  obtain _ | ⟨h₁, _ | ⟨h₂, _ | ⟨h₃, ⟨⟩⟩⟩⟩ := h
  exact ⟨_, _, _, rfl, h₁, h₂, h₃⟩

theorem inside_unravel {dims : List Nat} {i : Nat} (h : i < volume dims) :
    Inside dims (unravel dims i) := by
  induction dims generalizing i with
  | nil => exact .nil
  | cons d rest ih =>
    rw [volume] at h
    have hrest : 0 < volume rest := Nat.pos_of_ne_zero fun hzero => by simp [hzero] at h
    exact .cons (Nat.div_lt_of_lt_mul (by rwa [Nat.mul_comm])) (ih (Nat.mod_lt i hrest))

/-- Coordinates inside have a position. -/
theorem Inside.ravel {dims ks : List Nat} (h : Inside dims ks) : ∃ i, ravel dims ks = some i := by
  induction h with
  | nil => exact ⟨0, rfl⟩
  | cons hk _ ih =>
    obtain ⟨i, hi⟩ := ih
    exact ⟨_, by rw [GridNet.ravel, if_pos hk, hi]; rfl⟩

/-- Coordinates are found again from their position. -/
theorem unravel_of_ravel {dims ks : List Nat} {i : Nat} (h : ravel dims ks = some i) :
    unravel dims i = ks := by
  induction dims generalizing ks i with
  | nil =>
    cases ks with
    | nil => rfl
    | cons k ks => cases h
  | cons d dims ih =>
    cases ks with
    | nil => cases h
    | cons k ks =>
      rw [ravel] at h
      split at h
      · obtain ⟨j, hj, rfl⟩ := Option.map_eq_some_iff.mp h
        obtain ⟨hdiv, hmod⟩ := place_div_mod k (ravel_lt hj)
        rw [unravel, hdiv, hmod, ih hj]
      · cases h

/-- All coordinates inside a list of extents, in row-major order. -/
def coordinates (dims : List Nat) : List (List Nat) := (List.range (volume dims)).map (unravel dims)

theorem mem_coordinates {dims ks : List Nat} : ks ∈ coordinates dims ↔ Inside dims ks := by
  constructor
  · intro h
    obtain ⟨i, hi, rfl⟩ := List.mem_map.mp h
    exact inside_unravel (List.mem_range.mp hi)
  · intro h
    obtain ⟨i, hi⟩ := h.ravel
    exact List.mem_map.mpr ⟨i, List.mem_range.mpr (ravel_lt hi), unravel_of_ravel hi⟩

theorem nodup_coordinates (dims : List Nat) : (coordinates dims).Nodup := by
  refine List.Nodup.map_on (fun i hi j hj heq => ?_) List.nodup_range
  -- different positions have different coordinates
  have hfound := ravel_unravel (List.mem_range.mp hi)
  rw [heq, ravel_unravel (List.mem_range.mp hj)] at hfound
  exact (Option.some.inj hfound).symm

namespace Tensor

variable {t u : Tensor} {dims ks : List Nat}

/-! ## Elements -/

theorem get_of_ravel {i : Nat} (h : ravel t.dims ks = some i) : t.get ks = t.item i := by
  rw [get, h]

theorem get_tabulate {f : List Nat → Scalar} (h : Inside dims ks) :
    (tabulate dims f).get ks = f ks := by
  obtain ⟨i, hi⟩ := h.ravel
  rw [get_of_ravel (t := tabulate dims f) hi, tabulate, item_ofFn (ravel_lt hi),
    unravel_of_ravel hi]

/-- **A tensor is known by its elements.** -/
theorem ext_get (hdims : t.dims = u.dims) (h : ∀ ks, Inside t.dims ks → t.get ks = u.get ks) :
    t = u := by
  rw [← tabulate_get t, ← tabulate_get u, ← hdims]
  exact ofFn_congr fun i hi => h _ (inside_unravel hi)

theorem item_reshape {i : Nat} (h : i < volume dims) :
    (t.reshape dims).item i = t.item i := item_ofFn h

/-- An element of a window. -/
theorem get_slice {start size stride : List Nat} (h : Inside size ks) :
    (t.slice start size stride).get ks =
      t.get (List.zipWith (· + ·) start (List.zipWith (· * ·) ks stride)) :=
  get_tabulate h

/-- An element of a tensor whose axes are in another order. -/
theorem get_transpose {order : List Nat} (h : Inside (order.map t.extent) ks) :
    (t.transpose order).get ks =
      t.get ((List.range order.length).map fun axis => (ks[order.idxOf axis]?).getD 0) :=
  get_tabulate h

/-- An element of tensors laid end to end that all have the same extent along the axis. -/
theorem pick_of_extent {axis size : Nat} {parts : List Tensor}
    (hsize : ∀ p ∈ parts, p.extent axis = size)
    {i k : Nat} {part : Tensor} (hpart : parts[i]? = some part) (hk : k < size) :
    pick axis ks (i * size + k) parts = part.get (ks.set axis k) := by
  induction parts generalizing i with
  | nil => simp at hpart
  | cons p rest ih =>
    rw [pick, hsize p List.mem_cons_self]
    cases i with
    | zero =>
      obtain rfl := Option.some.inj hpart
      rw [Nat.zero_mul, Nat.zero_add, if_pos hk]
    | succ i =>
      have hbehind : ¬ (i + 1) * size + k < size := by
        rw [Nat.succ_mul]
        omega
      have hrest : (i + 1) * size + k - size = i * size + k := by
        rw [Nat.succ_mul]
        omega
      rw [if_neg hbehind, hrest]
      exact ih (fun q hq => hsize q (List.mem_cons_of_mem _ hq)) hpart

/-! ## Images -/

variable {n b : Nat} {rest : List Nat}

/-- The elements of one image. -/
theorem member_data (ht : t.dims = n :: rest) (b : Nat) :
    (t.member b).data.toList = (List.range (volume rest)).map fun i =>
      t.item (b * volume rest + i) := by
  have hvolume : volume (1 :: t.dims.tail) = volume rest := by
    rw [ht, List.tail_cons, volume, Nat.one_mul]
  refine List.ext_getElem ?_ fun i hi hi' => ?_
  · simp [member, ofFn, hvolume]
  · simp [member, ofFn, ht]

/-- The elements of one image, by their coordinates. -/
theorem member_data_eq_get (ht : t.dims = n :: rest) (hb : b < n) :
    (t.member b).data.toList = (coordinates rest).map fun ks => t.get (b :: ks) := by
  rw [member_data ht, coordinates, List.map_map]
  refine List.map_congr_left fun i hi => (get_of_ravel ?_).symm
  rw [ht, ravel, if_pos hb, ravel_unravel (List.mem_range.mp hi), Option.map_some]

/-- Other extents for the images leave their elements as they are. -/
theorem member_data_reshape (ht : t.dims = n :: rest) (hb : b < n)
    (hvolume : volume dims = volume rest) :
    ((t.reshape (n :: dims)).member b).data.toList = (t.member b).data.toList := by
  rw [member_data (t := t.reshape (n :: dims)) rfl, member_data ht, hvolume]
  refine List.map_congr_left fun i hi => item_reshape ?_
  rw [volume, hvolume]
  exact place_lt hb (List.mem_range.mp hi)

/-- The elements of `u` are those of `t`, **moved** within each image: at `ks` stands what was at
`source ks`, and each place was the source of one place. -/
structure Moved (source : List Nat → List Nat) (t u : Tensor) : Prop where
  images : u.dims.head? = t.dims.head?
  bijective : Set.BijOn source {ks | Inside u.dims.tail ks} {ks | Inside t.dims.tail ks}
  element : ∀ b ks, Inside u.dims (b :: ks) → u.get (b :: ks) = t.get (b :: source ks)

/-- **Nothing is lost and nothing is repeated**: the elements of each image are the same,
in another order. -/
theorem Moved.perm {source : List Nat → List Nat} (h : Moved source t u) (ht : t.dims = n :: rest)
    (hb : b < n) :
    ((u.member b).data.toList).Perm (t.member b).data.toList := by
  obtain ⟨rest', hu⟩ : ∃ rest', u.dims = n :: rest' := by
    have himages := h.images
    rw [ht, List.head?_cons] at himages
    exact List.head?_eq_some_iff.mp himages
  have hbijective := h.bijective
  rw [hu, ht, List.tail_cons, List.tail_cons] at hbijective
  have hmoved : ((coordinates rest').map source).Perm (coordinates rest) := by
    refine (List.perm_ext_iff_of_nodup ?_ (nodup_coordinates rest)).mpr fun ks => ?_
    · exact (nodup_coordinates rest').map_on fun ks hks ks' hks' heq =>
        hbijective.injOn (mem_coordinates.mp hks) (mem_coordinates.mp hks') heq
    · rw [mem_coordinates, List.mem_map]
      constructor
      · rintro ⟨ks', hks', rfl⟩
        exact hbijective.mapsTo (mem_coordinates.mp hks')
      · intro hks
        obtain ⟨ks', hks', rfl⟩ := hbijective.surjOn hks
        exact ⟨ks', mem_coordinates.mpr hks', rfl⟩
  rw [member_data_eq_get hu hb, member_data_eq_get ht hb]
  have helements : (coordinates rest').map (fun ks => u.get (b :: ks)) =
      ((coordinates rest').map source).map fun ks => t.get (b :: ks) := by
    rw [List.map_map]
    exact List.map_congr_left fun ks hks =>
      h.element b ks (hu ▸ inside_cons.mpr ⟨hb, mem_coordinates.mp hks⟩)
  rw [helements]
  exact hmoved.map _

end Tensor

end GridNet
