import GridNet.Proofs.Interpreter
import GridNet.Proofs.OperationSoundness

/-!
# Sizes that the recorder counts

The extents behind kernels and pooling windows are computed from a few sums, each of which has to be
a word. Where all of them are, the result is the exact one, and otherwise there is none.

* `Kernel.sums`, `PoolWindow.sums`, `HeadDecoder.sums` — the sums that a result is computed from.
* `Recording.sums` — the sums and products that the check of a call computes.
* `Graph.kernelExtent_eq_ok`, `Graph.poolExtent_eq_ok` — when there is a result, and which.
-/

namespace GridNet

namespace SliceWindow

/-- The last position of a window on an axis. -/
theorem mem_reach (w : SliceWindow) {axis start size stride : Nat}
    (hstart : w.start[axis]? = some start)
    (hsize : w.size[axis]? = some size) (hstride : w.stride[axis]? = some stride) :
    start + (size - 1) * stride ∈ w.reach :=
  List.mem_of_getElem? (i := axis) (by simp [reach, List.getElem?_zipWith, hstart, hsize, hstride])

theorem mem_reach_of_zip (w : SliceWindow) {part : Nat × Nat × Nat}
    (h : part ∈ w.start.zip (w.size.zip w.stride)) :
    part.1 + (part.2.1 - 1) * part.2.2 ∈ w.reach := by
  obtain ⟨axis, hpart⟩ := List.mem_iff_getElem?.mp h
  obtain ⟨hstart, hrest⟩ := List.getElem?_zip_eq_some.mp hpart
  obtain ⟨hsize, hstride⟩ := List.getElem?_zip_eq_some.mp hrest
  exact w.mem_reach hstart hsize hstride

end SliceWindow

/-- The sums that the extent behind a kernel is computed from. -/
def Kernel.sums (k : Kernel) (extent : Nat) : List Nat :=
  if k.transposed then [2 * k.padding, (extent - 1) * k.stride + k.size]
  else [extent + 2 * k.padding]

/-- A window fits where it has a place. -/
theorem windowCount_le {padded window stride count : Nat}
    (h : windowCount padded window stride = some count) : window ≤ padded := by
  unfold windowCount at h
  split at h
  · assumption
  · cases h

/-- The padded extents that a pooling window slides over. -/
def PoolWindow.sums (p : PoolWindow) (height width : Nat) : List Nat :=
  [height + (p.before.rows + p.after.rows), width + (p.before.columns + p.after.columns)]

/-- The channels that the heads of a decode node read, and the rows of all of them. -/
def HeadDecoder.sums (d : HeadDecoder) : List Nat :=
  rowsOf d.heads :: d.heads.flatMap fun h => [5 + h.classes, h.channels]

/-- The extents of a tensor; none if there is no such tensor. -/
def Graph.extentsOf (g : Graph) (t : TensorId) : List Nat :=
  ((g.tensors[t]?).map (·.shape.dims)).getD []

theorem Graph.Spans.extentsOf_eq {g : Graph} {t : TensorId} {dims : List Nat} (h : g.Spans t dims) :
    g.extentsOf t = dims := by
  obtain ⟨s, hs, rfl⟩ := h
  obtain ⟨e, he, rfl⟩ := Option.map_eq_some_iff.mp (shapeOf_eq_ok.mp hs)
  rw [extentsOf, he]
  rfl

theorem Graph.map_extentsOf {g : Graph} {ids : List TensorId} {named : List (List Nat)}
    (h : List.Forall₂ g.Spans ids named) : ids.map g.extentsOf = named := by
  rw [← List.forall₂_eq_eq_eq, List.forall₂_map_left_iff]
  exact h.imp fun _ _ hspans => hspans.extentsOf_eq

/-- The **sums and products** that the check of a call computes, taken exactly. Calls of the other
kinds compute none that is not checked. -/
def Recording.sums (g : Graph) : Recording → List Nat
  | slice _ w => w.reach
  | pool t p =>
    match g.extentsOf t with
    | [_, _, h, w] => p.sums h w
    | _ => []
  | convolution t k =>
    match g.extentsOf t with
    | [_, c, h, w] => k.filters * (c / k.groups) * k.size ^ 2 :: (k.sums h ++ k.sums w)
    | _ => []
  | concat inputs axis => [(inputs.map fun t => ((g.extentsOf t)[axis]?).getD 0).sum]
  | decode _ d => d.sums
  | _ => []

theorem Recording.sums_concat {g : Graph} {inputs : List TensorId} {axis : Nat}
    {named : List (List Nat)} (h : List.Forall₂ g.Spans inputs named) :
    (concat inputs axis).sums g = [(named.map fun dims => (dims[axis]?).getD 0).sum] := by
  rw [sums, ← Graph.map_extentsOf h, List.map_map]
  rfl

namespace Graph

/-- The extent **behind a kernel** is the exact one, and there is one if its sums are words. -/
theorem kernelExtent_eq_ok {k : Kernel} {extent : Nat} {r : Option Nat} :
    kernelExtent k extent = .ok r ↔
      (∀ n ∈ k.sums extent, n < Word.modulus) ∧ k.extentBehind extent = r := by
  unfold kernelExtent Kernel.sums Kernel.extentBehind Kernel.gatheredExtent
  split
  · simp only [Outcome.bind_eq_ok, Outcome.pure_eq_ok, Word.add_eq_ok, Word.mul_eq_ok,
      List.mem_cons, List.not_mem_nil, or_false, forall_eq_or_imp, forall_eq]
    constructor
    · rintro ⟨_, ⟨-, rfl⟩, _, ⟨hreach, rfl⟩, _, ⟨hpadding, rfl⟩, rfl⟩
      exact ⟨⟨hpadding, hreach⟩, rfl⟩
    · rintro ⟨⟨hpadding, hreach⟩, rfl⟩
      exact ⟨_, ⟨(Nat.le_add_right _ _).trans_lt hreach, rfl⟩, _, ⟨hreach, rfl⟩, _,
        ⟨hpadding, rfl⟩, rfl⟩
  · simp only [Outcome.bind_eq_ok, Outcome.pure_eq_ok, Word.add_eq_ok, Word.mul_eq_ok,
      List.mem_singleton, forall_eq]
    constructor
    · rintro ⟨_, ⟨-, rfl⟩, _, ⟨hpadded, rfl⟩, rfl⟩
      exact ⟨hpadded, rfl⟩
    · rintro ⟨hpadded, rfl⟩
      exact ⟨_, ⟨(Nat.le_add_left _ _).trans_lt hpadded, rfl⟩, _, ⟨hpadded, rfl⟩, rfl⟩

/-- The number of places of **a pooling window** is the exact one, and there is one if the padded
extent is a word. -/
theorem poolExtent_eq_ok {extent before after window stride : Nat} {r : Option Nat} :
    poolExtent extent before after window stride = .ok r ↔
      extent + (before + after) < Word.modulus ∧
        windowCount (extent + (before + after)) window stride = r := by
  simp only [poolExtent, Outcome.bind_eq_ok, Outcome.pure_eq_ok, Word.add_eq_ok]
  constructor
  · rintro ⟨_, ⟨-, rfl⟩, _, ⟨hpadded, rfl⟩, rfl⟩
    exact ⟨hpadded, rfl⟩
  · rintro ⟨hpadded, rfl⟩
    exact ⟨_, ⟨(Nat.le_add_left _ _).trans_lt hpadded, rfl⟩, _, ⟨hpadded, rfl⟩, rfl⟩

end Graph

end GridNet
