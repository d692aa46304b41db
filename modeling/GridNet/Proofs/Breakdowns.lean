import GridNet.Proofs.CountedSizes

/-!
# Where a recorder breaks down

A call of the recorder that fails says why: each check has a text. What has none is a sum or a
product that is no word. So a call is steady, in that it succeeds or fails for a cause, if all sums
and products that its check computes are in range.

* `Outcome.Steady` — never without a cause.
* `Graph.addConvolution_steady`, `Graph.addSlice_steady`, … — the calls that count.
* `Graph.perform_steady` — every call.
-/

namespace GridNet

/-! ## Outcomes -/

namespace Outcome

variable {α β : Type}

/-- A **steady** outcome: a value, or a failure that has causes. -/
def Steady (r : Outcome α) : Prop := r ≠ .error .brokenDown

theorem steady_ok (x : α) : Steady (.ok x) := nofun

theorem steady_of_eq_ok {r : Outcome α} {x : α} (h : r = .ok x) : Steady r := h ▸ steady_ok x

theorem steady_pure (x : α) : Steady (pure x : Outcome α) := nofun

theorem steady_because (causes : List Cause) : Steady (.error (.because causes) : Outcome α) :=
  nofun

theorem steady_ensure (condition : Bool) (text : String) : Steady (ensure condition text) := by
  cases condition <;> exact nofun

/-- A step is steady if it is after the value that it is taken with. -/
theorem Steady.bind {x : Outcome α} {f : α → Outcome β} (hx : Steady x)
    (hf : ∀ a, x = .ok a → Steady (f a)) : Steady (x >>= f) := by
  rcases x with e | a
  · exact fun h => hx (congrArg Except.error (Except.error.inj h))
  · exact hf a rfl

/-- A step behind a value that is known. -/
theorem Steady.after_ok {x : Outcome α} {a : α} {f : α → Outcome β} (hx : x = .ok a)
    (hf : Steady (f a)) : Steady (x >>= f) := by
  rw [hx]
  exact hf

theorem Steady.map {x : Outcome α} (hx : Steady x) (f : α → β) : Steady (x.map f) := by
  rcases x with e | a
  · exact fun h => hx (congrArg Except.error (Except.error.inj h))
  · exact nofun

theorem Steady.inContext {x : Outcome α} (hx : Steady x) (text : String) :
    Steady (inContext text x) := by
  rcases x with (causes | _) | a
  · exact nofun
  · exact absurd rfl hx
  · exact nofun

theorem Steady.mapM {f : α → Outcome β} (hf : ∀ a, Steady (f a)) (xs : List α) :
    Steady (xs.mapM f) := by
  induction xs with
  | nil => exact steady_pure []
  | cons x rest ih =>
    rw [List.mapM_cons]
    exact (hf x).bind fun y _ => ih.bind fun ys _ => steady_pure (y :: ys)

end Outcome

open Outcome

theorem Shape.ofDims_steady (dims : List Nat) : Steady (Shape.ofDims dims) := by
  unfold Shape.ofDims
  split
  · exact steady_ok _
  · exact steady_because _

theorem Shape.nchw_steady (s : Shape) : Steady s.nchw := by
  unfold Shape.nchw
  split
  · exact steady_ok _
  · exact steady_because _

/-! ## Heads -/

namespace HeadDecoder

/-- Heads are checked if their channels can be counted. -/
theorem checkHeads_steady {batch : Option Nat} {pairs : List (Head × Shape)}
    (h : ∀ pair ∈ pairs, 5 + pair.1.classes < Word.modulus ∧ pair.1.channels < Word.modulus) :
    Steady (checkHeads batch pairs) := by
  induction pairs generalizing batch with
  | nil => exact steady_ok _
  | cons pair rest ih =>
    obtain ⟨hclasses, hchannels⟩ := h pair List.mem_cons_self
    have hcounted := Head.countChannels_eq_ok.mpr ⟨hclasses, hchannels, rfl⟩
    have hrest : ∀ batch, Steady (checkHeads batch rest) := fun batch =>
      ih fun pair hpair => h pair (List.mem_cons_of_mem _ hpair)
    refine pair.2.nchw_steady.bind fun s _ => .after_ok hcounted <|
      (steady_ensure _ _).bind fun _ _ => ?_
    cases batch with
    | none => exact hrest _
    | some b => exact (steady_ensure _ _).bind fun _ _ => hrest _

/-- The rows of heads that have been checked are counted on the grids of tensors. -/
theorem outputShapes_steady {d : HeadDecoder} {inputs : List Shape}
    (h : ∀ n ∈ d.sums, n < Word.modulus) :
    Steady (d.outputShapes inputs) := by
  obtain ⟨hrows, hheads⟩ := List.forall_mem_cons.mp h
  have hchannels : ∀ head ∈ d.heads, 5 + head.classes < Word.modulus ∧
      head.channels < Word.modulus :=
    fun head hmem => ⟨hheads _ (List.mem_flatMap.mpr ⟨head, hmem, by simp⟩),
      hheads _ (List.mem_flatMap.mpr ⟨head, hmem, by simp⟩)⟩
  refine (steady_ensure _ _).bind fun _ hlength => (steady_ensure _ _).bind fun _ _ =>
    (checkHeads_steady fun pair hpair => hchannels _ (List.of_mem_zip hpair).1).bind
      fun batch hbatch => ?_
  have hsame : inputs.length = d.heads.length := of_decide_eq_true (ensure_eq_ok.mp hlength)
  have hgrid : ∀ head ∈ d.heads, 0 < head.gridWidth ∧ 0 < head.gridHeight := by
    intro head hmem
    obtain ⟨i, hi, rfl⟩ := List.getElem_of_mem hmem
    have hpair : (d.heads[i], inputs[i]) ∈ d.heads.zip inputs :=
      List.mem_iff_getElem.mpr ⟨i, by simp [hi, hsame], by simp⟩
    have hpositive := inputs[i].positive
    rw [(checkHeads_eq_ok hbatch).2 _ hpair] at hpositive
    exact ⟨hpositive _ (by simp), hpositive _ (by simp)⟩
  exact .after_ok (countRows_of_lt hgrid hrows) <| (steady_ensure _ _).bind fun _ _ =>
    (Shape.ofDims_steady _).bind fun _ _ => (Shape.ofDims_steady _).bind fun _ _ => steady_pure _

end HeadDecoder

/-! ## The recorder -/

namespace Graph

variable (g : Graph)

theorem entry_steady (t : TensorId) : Steady (g.entry t) := by
  unfold entry
  split
  · exact steady_ok _
  · exact steady_because _

theorem shapeOf_steady (t : TensorId) : Steady (g.shapeOf t) := (g.entry_steady t).map _

theorem bothExtents_steady (misfit : String) (height width : Option Nat) :
    Steady (bothExtents misfit height width) := by
  unfold bothExtents
  split
  · exact steady_ok _
  · exact steady_because _

theorem checkBias_steady (k : Kernel) : Steady (checkBias k) := by
  unfold checkBias
  split
  · exact steady_ok _
  · exact steady_ensure _ _

/-- The extents of an image, as a call asks for them. -/
theorem extentsOf_nchw {t : TensorId} {shape : Shape} {s : Shape.Nchw}
    (hshape : g.shapeOf t = .ok shape)
    (hs : shape.nchw = .ok s) : g.extentsOf t = [s.batch, s.channels, s.height, s.width] :=
  (show g.Spans t shape.dims from ⟨shape, hshape, rfl⟩).extentsOf_eq.trans (Shape.nchw_eq_ok.mp hs)

theorem addInput_steady (name : String) (shape : Shape) : Steady (g.addInput name shape) :=
  (steady_ensure _ _).bind fun _ _ => steady_pure _

/-- **Convolutions**: the weights and the extents behind the kernel are counted. -/
theorem addConvolution_steady {input : TensorId} {k : Kernel}
    (h : ∀ n ∈ (Recording.convolution input k).sums g, n < Word.modulus) :
    Steady (g.addConvolution input k) := by
  refine (g.shapeOf_steady input).bind fun source hsource => source.nchw_steady.bind fun s hs =>
    (steady_ensure _ _).bind fun _ hsizes => (steady_ensure _ _).bind fun _ hdivides => ?_
  rw [Recording.sums, g.extentsOf_nchw hsource hs] at h
  obtain ⟨hweights, hextents⟩ := List.forall_mem_cons.mp h
  obtain ⟨hheight, hwidth⟩ := List.forall_mem_append.mp hextents
  simp only [ensure_eq_ok, Bool.and_eq_true, decide_eq_true_eq] at hsizes hdivides
  have hpositive := source.positive
  rw [Shape.nchw_eq_ok.mp hs] at hpositive
  rw [Nat.pow_two, ← Nat.mul_assoc] at hweights
  have hlength := kernelLength_of_lt hsizes.1.1.1 hsizes.1.2 (hpositive s.channels (by simp))
    hdivides.1 hweights
  exact .after_ok hlength <| (steady_ensure _ _).bind fun _ _ =>
    (checkBias_steady k).bind fun _ _ => .after_ok (kernelExtent_eq_ok.mpr ⟨hheight, rfl⟩) <|
      .after_ok (kernelExtent_eq_ok.mpr ⟨hwidth, rfl⟩) <|
        (bothExtents_steady _ _ _).bind fun _ _ => (Shape.ofDims_steady _).bind
          fun _ _ => steady_pure _

theorem addScale_steady (input : TensorId) (m : ChannelMap) : Steady (g.addScale input m) :=
  (g.shapeOf_steady input).bind fun shape _ => shape.nchw_steady.bind fun _ _ =>
    (steady_ensure _ _).bind fun _ _ => (steady_ensure _ _).bind fun _ _ =>
      (steady_ensure _ _).bind fun _ _ => steady_pure _

theorem addCombination_steady (left right : TensorId) (c : Combination) :
    Steady (g.addCombination left right c) := by
  refine (g.shapeOf_steady left).bind fun a _ => (g.shapeOf_steady right).bind fun b _ =>
    (steady_ensure _ _).bind fun _ _ => ?_
  split
  · exact (Shape.ofDims_steady _).bind fun _ _ => steady_pure _
  · exact steady_because _

theorem addActivation_steady (input : TensorId) (p : Pointwise) :
    Steady (g.addActivation input p) :=
  (g.shapeOf_steady input).bind fun _ _ => steady_pure _

theorem addConstant_steady (shape : Shape) (values : Array Scalar) :
    Steady (g.addConstant shape values) :=
  (steady_ensure _ _).bind fun _ _ => steady_pure _

/-- The extents that are behind those which have been added up are in range together with them. -/
theorem concatDims_steady {axis : Nat} {dims : List Nat} {ids : List TensorId}
    (haxis : axis < dims.length)
    (h : (dims[axis]?).getD 0 + (ids.map fun t => ((g.extentsOf t)[axis]?).getD 0).sum <
      Word.modulus) :
    Steady (concatDims g axis dims ids) := by
  induction ids generalizing dims with
  | nil => exact steady_ok _
  | cons t rest ih =>
    refine (g.shapeOf_steady t).bind fun s hs => (steady_ensure _ _).bind fun _ _ => ?_
    have hspans : g.Spans t s.dims := ⟨s, hs, rfl⟩
    rw [List.map_cons, List.sum_cons, hspans.extentsOf_eq, ← Nat.add_assoc] at h
    have hsum := Word.add_of_lt ((Nat.le_add_right _ _).trans_lt h)
    refine .after_ok hsum (ih (by rwa [List.length_set]) ?_)
    rwa [List.getElem?_set_self haxis, Option.getD_some]

/-- **Tensors laid end to end**: their extents are added up. -/
theorem addConcat_steady {inputs : List TensorId} {axis : Nat}
    (h : ∀ n ∈ (Recording.concat inputs axis).sums g, n < Word.modulus) :
    Steady (g.addConcat inputs axis) := by
  cases inputs with
  | nil => exact steady_because _
  | cons first rest =>
    refine (g.shapeOf_steady first).bind fun s hs => (steady_ensure _ _).bind fun _ haxis => ?_
    have hspans : g.Spans first s.dims := ⟨s, hs, rfl⟩
    have hsum := List.forall_mem_singleton.mp h
    rw [List.map_cons, List.sum_cons, hspans.extentsOf_eq] at hsum
    exact (g.concatDims_steady (of_decide_eq_true (ensure_eq_ok.mp haxis)) hsum).bind fun _ _ =>
      (Shape.ofDims_steady _).bind fun _ _ => steady_pure _

theorem checkSlice_steady {dims : List Nat} {axis : Nat} {parts : List (Nat × Nat × Nat × Nat)}
    (h : ∀ part ∈ parts, part.2.1 + (part.2.2.1 - 1) * part.2.2.2 < Word.modulus) :
    Steady (checkSlice dims axis parts) := by
  induction parts generalizing axis with
  | nil => exact steady_ok _
  | cons part rest ih =>
    have hlast := h part List.mem_cons_self
    have hsteps := Word.mul_of_lt ((Nat.le_add_left _ part.2.1).trans_lt hlast)
    exact (steady_ensure _ _).bind fun _ _ => .after_ok hsteps <|
      .after_ok (Word.add_of_lt hlast) <| (steady_ensure _ _).bind fun _ _ =>
        ih fun part hpart => h part (List.mem_cons_of_mem _ hpart)

/-- **Windows**: the last positions are counted. -/
theorem addSlice_steady {input : TensorId} {w : SliceWindow}
    (h : ∀ n ∈ (Recording.slice input w).sums g, n < Word.modulus) :
    Steady (g.addSlice input w) := by
  refine (g.shapeOf_steady input).bind fun source _ => (steady_ensure _ _).bind fun _ _ =>
    (checkSlice_steady fun part hpart => ?_).bind fun _ _ => (Shape.ofDims_steady _).bind
      fun _ _ => steady_pure _
  exact h _ (w.mem_reach_of_zip (List.of_mem_zip hpart).2)

theorem addResize_steady (input : TensorId) (scales : List Scalar) :
    Steady (g.addResize input scales) :=
  (g.shapeOf_steady input).bind fun _ _ => (steady_ensure _ _).bind fun _ _ =>
    ((Shape.ofDims_steady _).inContext _).bind fun _ _ => steady_pure _

/-- **Pooling windows**: the padded extents are counted. -/
theorem addPool_steady {input : TensorId} {p : PoolWindow}
    (h : ∀ n ∈ (Recording.pool input p).sums g, n < Word.modulus) : Steady (g.addPool input p) := by
  refine (g.shapeOf_steady input).bind fun source hsource => source.nchw_steady.bind fun s hs =>
    (steady_ensure _ _).bind fun _ _ => ?_
  rw [Recording.sums, g.extentsOf_nchw hsource hs] at h
  obtain ⟨hrows, hcolumns⟩ := List.forall_mem_cons.mp h
  exact .after_ok (poolExtent_eq_ok.mpr ⟨hrows, rfl⟩) <|
    .after_ok (poolExtent_eq_ok.mpr ⟨hcolumns _ (List.mem_singleton_self _), rfl⟩) <|
      (bothExtents_steady _ _ _).bind fun _ _ => (Shape.ofDims_steady _).bind
        fun _ _ => steady_pure _

theorem addReshape_steady (input : TensorId) (dims : List Nat) : Steady (g.addReshape input dims) :=
  (g.shapeOf_steady input).bind fun _ _ => (Shape.ofDims_steady _).bind fun _ _ =>
    (steady_ensure _ _).bind fun _ _ => steady_pure _

theorem addTranspose_steady (input : TensorId) (order : List Nat) :
    Steady (g.addTranspose input order) :=
  (g.shapeOf_steady input).bind fun _ _ => (steady_ensure _ _).bind fun _ _ =>
    (steady_ensure _ _).bind fun _ _ => (Shape.ofDims_steady _).bind fun _ _ => steady_pure _

/-- **Heads**: their channels and their rows are counted. -/
theorem addDecode_steady {inputs : List TensorId} {d : HeadDecoder}
    (h : ∀ n ∈ (Recording.decode inputs d).sums g, n < Word.modulus) :
    Steady (g.addDecode inputs d) :=
  (Steady.mapM g.shapeOf_steady inputs).bind fun _ _ =>
    (HeadDecoder.outputShapes_steady h).bind fun _ _ => steady_pure _

theorem markOutput_steady (t : TensorId) (name : String) : Steady (g.markOutput t name) :=
  (g.entry_steady t).bind fun _ _ => (steady_ensure _ _).bind fun _ _ => steady_pure _

/-- **A call breaks down only over a size that is no word**. -/
theorem perform_steady {call : Recording} (h : ∀ n ∈ call.sums g, n < Word.modulus) :
    Steady (g.perform call) := by
  cases call with
  | input name shape => exact (g.addInput_steady name shape).map _
  | convolution t k => exact (g.addConvolution_steady h).map _
  | scale t m => exact (g.addScale_steady t m).map _
  | combination left right c => exact (g.addCombination_steady left right c).map _
  | activation t p => exact (g.addActivation_steady t p).map _
  | constant shape values => exact (g.addConstant_steady shape values).map _
  | concat ids axis => exact (g.addConcat_steady h).map _
  | slice t w => exact (g.addSlice_steady h).map _
  | resize t scales => exact (g.addResize_steady t scales).map _
  | pool t p => exact (g.addPool_steady h).map _
  | reshape t dims => exact (g.addReshape_steady t dims).map _
  | transpose t order => exact (g.addTranspose_steady t order).map _
  | decode ids d => exact (g.addDecode_steady h).map _
  | output t name => exact g.markOutput_steady t name

end Graph

end GridNet
