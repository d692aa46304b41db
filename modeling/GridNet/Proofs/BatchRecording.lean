import GridNet.Proofs.BatchGraphs
import GridNet.Proofs.Extension

/-!
# Recording for a batch of one

A call of the recorder that succeeds on the graph for any batch succeeds on the graph for a batch of
one as well, and appends the same node but for the batch. So two constructions, one for each of the
graphs, go on side by side: they take the same weights, leave tensors of the same numbers, and their
graphs stay the ones for their batches.

* `Graph.Carries` — a call of the recorder, and the same call on the graph for a batch of one.
* `Emit.Splits` — a step of construction, and the same step for a batch of one.
* `Emit.convolution_splits`, `Emit.shortcut_splits`, … — every emitter.
-/

namespace GridNet

theorem Shape.eq_of_dims {s s' : Shape} (h : s.dims = s'.dims) : s = s' := by
  obtain ⟨dims, _, _, _⟩ := s
  obtain rfl : dims = s'.dims := h
  rfl

theorem Shape.single_of_one {s : Shape} {rest : List Nat} (h : s.dims = 1 :: rest) : s.single = s :=
  Shape.eq_of_dims (by rw [single_dims, h, List.tail_cons])

@[simp] theorem Shape.rank_single (s : Shape) : s.single.rank = s.rank := by
  obtain ⟨k, rest, h⟩ := List.exists_cons_of_ne_nil s.nonempty
  simp [rank, h]

theorem Shape.ofDims_single {k : Nat} {rest : List Nat} {s : Shape}
    (h : Shape.ofDims (k :: rest) = .ok s) :
    Shape.ofDims (1 :: rest) = .ok s.single := by
  rw [Shape.ofDims_eq_ok] at h ⊢
  rw [Shape.single_dims, h, List.tail_cons]

namespace Graph

variable {B : Nat → Prop} {g : Graph}

/-! ## Calls of the recorder -/

/-- **Two calls side by side**: what the first one makes of a graph whose tensors have the batches
`B`, the second one makes of the graph for a batch of one. -/
def Carries {α : Type} (B : Nat → Prop) (g : Graph) (f f' : Graph → Outcome (Graph × α)) : Prop :=
  ∀ r, f g = .ok r → f' g.single = .ok (r.1.single, r.2) ∧ r.1.Batched B

theorem pushOne_single (g : Graph) (op : Operation) (inputs : List TensorId) (s : Shape) :
    g.single.pushOne op.single inputs s.single =
      ((g.pushOne op inputs s).1.single, (g.pushOne op inputs s).2) := by
  rw [pushOne, size_single, ← List.map_singleton, push_single]
  rfl

/-- A node with one operand. -/
theorem Batched.pushOne (hg : g.Batched B) {op : Operation} {input : TensorId} {source s : Shape}
    (hinput : g.shapeOf input = .ok source) (hop : op.KeepsBatch [source.dims] [s.dims])
    (hs : s.dims.head? = source.dims.head?) : (g.pushOne op [input] s).1.Batched B := by
  refine hg.push (.cons ⟨source, hinput, rfl⟩ .nil) hop fun s' hs' => ?_
  obtain rfl := List.mem_singleton.mp hs'
  obtain ⟨k, rest, hd, -, hk⟩ := hg.shapeOf hinput
  rw [hd, List.head?_cons, List.head?_eq_some_iff] at hs
  obtain ⟨others, hothers⟩ := hs
  exact ⟨k, others, hothers, hk⟩

theorem addActivation_single (hg : g.Batched B) (input : TensorId) (p : Pointwise) :
    g.Carries B (·.addActivation input p) (·.addActivation input p) := by
  intro r h
  simp only [addActivation, Outcome.bind_eq_ok, Outcome.pure_eq_ok] at h ⊢
  obtain ⟨shape, hshape, rfl⟩ := h
  exact ⟨⟨_, shapeOf_single hshape, pushOne_single g (.activation p) _ _⟩,
    hg.pushOne hshape trivial rfl⟩

theorem addScale_single (hg : g.Batched B) (input : TensorId) (m : ChannelMap) :
    g.Carries B (·.addScale input m) (·.addScale input m) := by
  intro r h
  simp only [addScale, Outcome.bind_eq_ok, Outcome.pure_eq_ok] at h ⊢
  obtain ⟨shape, hshape, s, hs, _, hshift, _, hscale, _, hpower, rfl⟩ := h
  exact ⟨⟨_, shapeOf_single hshape, _, Shape.nchw_single hs, _, hshift, _, hscale, _, hpower,
    pushOne_single g (.scale m) _ _⟩, hg.pushOne hshape trivial rfl⟩

theorem addConvolution_single (hg : g.Batched B) (input : TensorId) (k : Kernel) :
    g.Carries B (·.addConvolution input k) (·.addConvolution input k) := by
  intro r h
  simp only [addConvolution, Outcome.bind_eq_ok, Outcome.pure_eq_ok] at h ⊢
  obtain ⟨source, hsource, s, hs, _, hpositive, _, hgroups, _, hlength, _, hweights, _, hbias, _,
    hheight, _, hwidth, both, hboth, shape, hshape, rfl⟩ := h
  refine ⟨⟨_, shapeOf_single hsource, _, Shape.nchw_single hs, _, hpositive, _, hgroups, _, hlength,
    _, hweights, _, hbias, _, hheight, _, hwidth, both, hboth, _, Shape.ofDims_single hshape,
    pushOne_single g (.convolution k) _ _⟩, hg.pushOne hsource trivial ?_⟩
  rw [Shape.ofDims_eq_ok.mp hshape, Shape.nchw_eq_ok.mp hs]
  rfl

theorem broadcastExtent_mem {j k m : Nat} (h : broadcastExtent j k = some m) : m = j ∨ m = k := by
  unfold broadcastExtent at h
  split at h
  · exact .inl (Option.some.inj h).symm
  · split at h
    · exact .inr (Option.some.inj h).symm
    · split at h
      · exact .inl (Option.some.inj h).symm
      · cases h

theorem addCombination_single (hg : g.Batched B) (left right : TensorId) (c : Combination) :
    g.Carries B (·.addCombination left right c) (·.addCombination left right c) := by
  intro r h
  simp only [addCombination, Outcome.bind_eq_ok, Outcome.ensure_eq_ok, decide_eq_true_eq] at h ⊢
  obtain ⟨a, ha, b, hb, _, hrank, h⟩ := h
  obtain ⟨j, front, hj, -, hbatch⟩ := hg.shapeOf ha
  obtain ⟨k, rest, hk, -, hbatch'⟩ := hg.shapeOf hb
  rw [hj, hk] at hrank h
  split at h
  · next whole hwhole =>
    obtain ⟨m, common, rfl, hm, hsingle⟩ := broadcastDims_cons hwhole
    obtain ⟨shape, hshape, h⟩ := Outcome.bind_eq_ok.mp h
    obtain rfl := Outcome.pure_eq_ok.mp h
    refine ⟨⟨_, shapeOf_single ha, _, shapeOf_single hb, (), ?_, ?_⟩, ?_⟩
    · rw [Shape.single_dims, Shape.single_dims, hj, hk]
      exact hrank
    · rw [Shape.single_dims, Shape.single_dims, hj, hk, List.tail_cons, List.tail_cons, hsingle]
      exact Outcome.bind_eq_ok.mpr
        ⟨_, Shape.ofDims_single hshape, congrArg Except.ok (pushOne_single g (.combine c) _ _)⟩
    · refine hg.push (.cons ⟨a, ha, rfl⟩ (.cons ⟨b, hb, rfl⟩ .nil)) trivial fun s hs => ?_
      obtain rfl := List.mem_singleton.mp hs
      refine ⟨m, common, Shape.ofDims_eq_ok.mp hshape, ?_⟩
      rcases broadcastExtent_mem hm with rfl | rfl
      · exact hbatch
      · exact hbatch'
  · cases h

/-- A constant has a batch of one. -/
theorem addConstant_single (hg : g.Batched B) (hone : B 1) {shape : Shape} {rest : List Nat}
    (hshape : shape.dims = 1 :: rest) (values : Array Scalar) :
    g.Carries B (·.addConstant shape values) (·.addConstant shape values) := by
  intro r h
  simp only [addConstant, Outcome.bind_eq_ok, Outcome.pure_eq_ok] at h ⊢
  obtain ⟨_, hsize, rfl⟩ := h
  refine ⟨⟨_, hsize, ?_⟩, hg.push .nil ⟨rest, congrArg (fun d => [d]) hshape⟩ fun s hs => ?_⟩
  · have hpush := pushOne_single g (.constant values) [] shape
    rwa [Shape.single_of_one hshape] at hpush
  · obtain rfl := List.mem_singleton.mp hs
    exact ⟨1, rest, hshape, hone⟩

theorem addPool_single (hg : g.Batched B) (input : TensorId) (p : PoolWindow) :
    g.Carries B (·.addPool input p) (·.addPool input p) := by
  intro r h
  simp only [addPool, Outcome.bind_eq_ok, Outcome.pure_eq_ok] at h ⊢
  obtain ⟨source, hsource, s, hs, _, hpositive, _, hheight, _, hwidth, both, hboth, shape,
    hshape, rfl⟩ := h
  refine ⟨⟨_, shapeOf_single hsource, _, Shape.nchw_single hs, _, hpositive, _, hheight, _, hwidth,
    both, hboth, _,
    Shape.ofDims_single hshape, pushOne_single g (.pool p) _ _⟩, hg.pushOne hsource trivial ?_⟩
  rw [Shape.ofDims_eq_ok.mp hshape, Shape.nchw_eq_ok.mp hs]
  rfl

theorem addReshape_single (hg : g.Batched B) {input : TensorId} {source : Shape} {k : Nat}
    {rest dims : List Nat} (hsource : g.shapeOf input = .ok source) (hk : source.dims = k :: rest) :
    g.Carries B (·.addReshape input (k :: dims)) (·.addReshape input (1 :: dims)) := by
  intro r h
  simp only [addReshape, hsource, Outcome.bind_eq_ok, Outcome.ensure_eq_ok, Outcome.pure_eq_ok,
    decide_eq_true_eq, Except.ok.injEq, exists_eq_left'] at h ⊢
  obtain ⟨shape, hshape, _, helements, rfl⟩ := h
  have hdims := Shape.ofDims_eq_ok.mp hshape
  refine ⟨⟨_, shapeOf_single hsource, _, Shape.ofDims_single hshape, (), ?_,
    pushOne_single g (.reshape (k :: dims)) _ _⟩, ?_⟩
  · have hpos : 0 < k := source.positive k (hk ▸ List.mem_cons_self)
    simp only [Shape.elements, Shape.single_dims, hdims, hk, List.tail_cons, volume, Nat.one_mul]
      at helements ⊢
    exact Nat.eq_of_mul_eq_mul_left hpos helements
  · exact hg.pushOne hsource ⟨k, rest, dims, congrArg (fun d => [d]) hk, rfl⟩
      (by rw [hdims, hk]; rfl)

theorem addTranspose_single (hg : g.Batched B) (input : TensorId) (order : List Nat) :
    g.Carries B (·.addTranspose input (0 :: order)) (·.addTranspose input (0 :: order)) := by
  intro r h
  simp only [addTranspose, Outcome.bind_eq_ok, Outcome.ensure_eq_ok, Outcome.pure_eq_ok,
    decide_eq_true_eq] at h ⊢
  obtain ⟨source, hsource, _, hrank, _, horder, shape, hshape, rfl⟩ := h
  obtain ⟨k, rest, hk, -, -⟩ := hg.shapeOf hsource
  rw [hk] at hrank horder hshape
  have hzero : 0 ∉ order := by
    rw [isOrder, Bool.and_eq_true] at horder
    exact isOrder_not_mem horder.2 0 List.mem_cons_self
  -- no axis but the first one is that of the images
  have hmoved : order.map (fun axis => ((1 :: rest)[axis]?).getD 0) =
      order.map fun axis => ((k :: rest)[axis]?).getD 0 := by
    refine List.map_congr_left fun axis haxis => ?_
    cases axis with
    | zero => exact absurd haxis hzero
    | succ axis => rfl
  refine ⟨⟨_, shapeOf_single hsource, (), ?_, (), ?_, _, ?_,
    pushOne_single g (.transpose (0 :: order)) _ _⟩, hg.pushOne hsource ⟨order, rfl⟩ ?_⟩
  · rw [Shape.single_dims, hk]
    exact hrank
  · rw [Shape.single_dims, hk]
    exact horder
  · rw [Shape.single_dims, hk, List.tail_cons, List.map_cons, hmoved]
    exact Shape.ofDims_single hshape
  · rw [Shape.ofDims_eq_ok.mp hshape, hk]
    rfl

theorem addResize_single (hg : g.Batched B) (hB : ∀ k, B k → k ≤ 0x1000000) (input : TensorId)
    (scales : List Scalar) :
    g.Carries B (·.addResize input (.one :: scales)) (·.addResize input (.one :: scales)) := by
  intro r h
  simp only [addResize, Outcome.bind_eq_ok, Outcome.ensure_eq_ok, Outcome.inContext_eq_ok,
    Outcome.pure_eq_ok, decide_eq_true_eq] at h ⊢
  obtain ⟨source, hsource, _, hscales, shape, hshape, rfl⟩ := h
  obtain ⟨k, rest, hk, -, hbatch⟩ := hg.shapeOf hsource
  have hexact := hB k hbatch
  rw [hk, List.zipWith_cons_cons, scaledExtent_one hexact] at hshape
  refine ⟨⟨_, shapeOf_single hsource, (), ?_, _, ?_,
    pushOne_single g (.resize (.one :: scales)) _ _⟩, ?_⟩
  · rw [hscales, Shape.single_dims, hk]
    rfl
  · rw [Shape.single_dims, hk, List.tail_cons, List.zipWith_cons_cons, scaledExtent_one (by decide)]
    exact Shape.ofDims_single hshape
  · have hdims := Shape.ofDims_eq_ok.mp hshape
    exact hg.pushOne hsource ⟨k, rest, scales, _, congrArg (fun d => [d]) hk, rfl,
      congrArg (fun d => [d]) hdims, hexact⟩ (by rw [hdims, hk]; rfl)

/-- Tensors laid end to end behind the axis of images. -/
theorem concatDims_single (hg : g.Batched B) {axis k : Nat} {dims whole : List Nat}
    {ids : List TensorId} (h : concatDims g (axis + 1) (k :: dims) ids = .ok whole) :
    ∃ rest, whole = k :: rest ∧ concatDims g.single (axis + 1)
      (1 :: dims) ids = .ok (1 :: rest) := by
  induction ids generalizing dims with
  | nil =>
    obtain rfl := Except.ok.inj h
    exact ⟨dims, rfl, rfl⟩
  | cons t ids ih =>
    simp only [concatDims, Outcome.bind_eq_ok, Outcome.ensure_eq_ok] at h
    obtain ⟨s, hs, _, hagree, sum, hsum, h⟩ := h
    obtain ⟨j, others, hj, -, -⟩ := hg.shapeOf hs
    rw [hj] at hagree hsum
    obtain ⟨rfl, hothers⟩ := agreeExcept_cons.mp hagree
    obtain ⟨rest, rfl, hrest⟩ := ih h
    refine ⟨rest, rfl, ?_⟩
    simp only [concatDims, Outcome.bind_eq_ok, Outcome.ensure_eq_ok]
    refine ⟨_, shapeOf_single hs, (), ?_, sum, ?_, hrest⟩
    · rw [Shape.single_dims, hj]
      exact agreeExcept_cons.mpr ⟨rfl, hothers⟩
    · rw [Shape.single_dims, hj]
      exact hsum

theorem addConcat_single (hg : g.Batched B) (inputs : List TensorId) {axis : Nat}
    (haxis : 0 < axis) :
    g.Carries B (·.addConcat inputs axis) (·.addConcat inputs axis) := by
  obtain ⟨axis, rfl⟩ := Nat.exists_eq_succ_of_ne_zero haxis.ne'
  intro r h
  cases inputs with
  | nil => cases h
  | cons first ids =>
    simp only [addConcat, Outcome.bind_eq_ok, Outcome.ensure_eq_ok, Outcome.pure_eq_ok,
      decide_eq_true_eq] at h ⊢
    obtain ⟨source, hsource, _, hrank, whole, hwhole, shape, hshape, rfl⟩ := h
    obtain ⟨k, rest, hk, -, hbatch⟩ := hg.shapeOf hsource
    obtain ⟨operands, hoperands⟩ := spans_of_concatDims hwhole
    rw [hk] at hrank hwhole
    obtain ⟨dims, rfl, hsingle⟩ := concatDims_single hg hwhole
    refine ⟨⟨_, shapeOf_single hsource, (), ?_, _, ?_, _, Shape.ofDims_single hshape,
      pushOne_single g (.concat (axis + 1)) _ _⟩, ?_⟩
    · rw [Shape.single_dims, hk]
      exact hrank
    · rw [Shape.single_dims, hk]
      exact hsingle
    · refine hg.push (.cons ⟨source, hsource, rfl⟩ hoperands) haxis fun s hs => ?_
      obtain rfl := List.mem_singleton.mp hs
      exact ⟨k, dims, Shape.ofDims_eq_ok.mp hshape, hbatch⟩

theorem checkSlice_text {dims dims' : List Nat} {axis axis' : Nat}
    {parts : List (Nat × Nat × Nat × Nat)}
    (h : checkSlice dims axis parts = .ok ()) : checkSlice dims' axis' parts = .ok () := by
  induction parts generalizing axis axis' with
  | nil => rfl
  | cons part rest ih =>
    obtain ⟨extent, start, size, stride⟩ := part
    simp only [checkSlice, Outcome.bind_eq_ok, Outcome.ensure_eq_ok] at h ⊢
    obtain ⟨_, hpositive, _, hstep, last, hlast, _, hinside, h⟩ := h
    exact ⟨(), hpositive, _, hstep, last, hlast, (), hinside, ih h⟩

/-- A window over all images. -/
theorem addSlice_single (hg : g.Batched B) {input : TensorId} {source : Shape} {k : Nat}
    {rest start size stride : List Nat} (hsource : g.shapeOf input = .ok source)
    (hk : source.dims = k :: rest) :
    g.Carries B (·.addSlice input ⟨0 :: start, k :: size, 1 :: stride⟩)
      (·.addSlice input ⟨0 :: start, 1 :: size, 1 :: stride⟩) := by
  intro r h
  simp only [addSlice, hsource, hk, Outcome.bind_eq_ok, Outcome.ensure_eq_ok, Outcome.pure_eq_ok,
    Except.ok.injEq, exists_eq_left'] at h ⊢
  obtain ⟨_, hrank, ⟨⟩, hcheck, shape, hshape, rfl⟩ := h
  simp only [List.zip_cons_cons, checkSlice, Outcome.bind_eq_ok] at hcheck
  obtain ⟨_, -, _, -, _, -, _, -, hcheck⟩ := hcheck
  refine ⟨⟨_, shapeOf_single hsource, (), ?_, (), ?_, _, Shape.ofDims_single hshape,
    pushOne_single g (.slice ⟨0 :: start, k :: size, 1 :: stride⟩) _ _⟩, ?_⟩
  · rw [Shape.single_dims, hk]
    exact hrank
  · rw [Shape.single_dims, hk]
    simp only [List.tail_cons, List.zip_cons_cons, checkSlice, Outcome.bind_eq_ok]
    exact ⟨(), rfl, _, rfl, _, rfl, (), rfl, checkSlice_text hcheck⟩
  · exact hg.pushOne hsource ⟨k, rest, start, size, stride, congrArg (fun d => [d]) hk, rfl⟩
      (by rw [Shape.ofDims_eq_ok.mp hshape, hk]; rfl)

theorem addDecode_single (hg : g.Batched B) (inputs : List TensorId) (d : HeadDecoder) :
    g.Carries B (·.addDecode inputs d) (·.addDecode inputs d) := by
  intro r h
  simp only [addDecode, Outcome.bind_eq_ok, Outcome.pure_eq_ok] at h ⊢
  obtain ⟨sources, hsources, shapes, hshapes, rfl⟩ := h
  have hread := Outcome.mapM_eq_ok.mp hsources
  refine ⟨⟨sources.map Shape.single, ?_, shapes.map Shape.single,
    HeadDecoder.outputShapes_single hshapes, push_single g (.decode d) inputs shapes⟩, ?_⟩
  · exact Outcome.mapM_eq_ok.mpr
      (List.forall₂_map_right_iff.mpr (hread.imp fun _ _ => shapeOf_single))
  · have hspans : List.Forall₂ g.Spans inputs (sources.map (·.dims)) :=
      List.forall₂_map_right_iff.mpr (hread.imp fun _ s hs => ⟨s, hs, rfl⟩)
    obtain ⟨hlength, hne, -, batch, boxes, scores, rfl, hboxes, hscores, hheads⟩ :=
      HeadDecoder.outputShapes_eq_ok hshapes
    -- the batch is that of the first head
    have hbatch : B batch := by
      cases hread with
      | nil => exact absurd rfl hne
      | @cons t s inputs sources hs _ =>
        obtain ⟨k, rest, hk, -, hbatch⟩ := hg.shapeOf hs
        cases hh : d.heads with
        | nil =>
          rw [hh] at hlength
          cases hlength
        | cons head heads =>
          have hdims := hheads (head, s) (by simp [hh])
          rw [hk] at hdims
          exact (List.cons.inj hdims).1 ▸ hbatch
    refine hg.push hspans trivial fun s hs => ?_
    simp only [List.mem_cons, List.not_mem_nil, or_false] at hs
    rcases hs with rfl | rfl | rfl
    · exact ⟨batch, _, hboxes, hbatch⟩
    · exact ⟨batch, _, hscores, hbatch⟩
    · exact ⟨batch, _, hscores, hbatch⟩

theorem addInput_single (hg : g.Batched B) (name : String) {shape : Shape} {k : Nat}
    {rest : List Nat} (hshape : shape.dims = k :: rest) (hk : B k) :
    g.Carries B (·.addInput name shape) (·.addInput name shape.single) := by
  intro r h
  simp only [addInput, Outcome.bind_eq_ok, Outcome.pure_eq_ok] at h ⊢
  obtain ⟨_, hfresh, rfl⟩ := h
  refine ⟨⟨_, hfresh, ?_⟩, ?_⟩
  · have hpush : g.single.pushOne (.input name) [] shape.single = _ :=
      pushOne_single g (.input name) [] shape
    rw [hpush]
    rfl
  · have hpushed : (g.push (.input name) [] [shape]).1.Batched B := by
      refine hg.push .nil trivial fun s hs => ?_
      obtain rfl := List.mem_singleton.mp hs
      exact ⟨k, rest, hshape, hk⟩
    exact ⟨hpushed.extents, hpushed.nodes⟩

theorem markOutput_single (hg : g.Batched B) (t : TensorId) (name : String) :
    g.Carries B (fun g => (g.markOutput t name).map (·, ()))
    (fun g => (g.markOutput t name).map (·, ())) := by
  intro r h
  obtain ⟨g', hg', rfl⟩ := Outcome.map_eq_ok.mp h
  simp only [markOutput, Outcome.bind_eq_ok, Outcome.pure_eq_ok] at hg'
  obtain ⟨e, he, _, hfresh, rfl⟩ := hg'
  refine ⟨?_, hg.extents, hg.nodes⟩
  simp only [markOutput, entry_single he, Outcome.ok_bind]
  rw [show g.single.outputs = g.outputs from rfl, hfresh]
  rfl

end Graph

theorem Graph.Records.shapeOf {g : Graph} {op : Operation} {inputs : List TensorId}
    {r : Graph.Recorded} (h : g.Records op inputs r) :
    ∃ shape, g.Accepts op inputs [shape] ∧ r.1.shapeOf r.2 = .ok shape := by
  obtain ⟨shape, haccepts, rfl⟩ := h
  exact ⟨shape, haccepts, Graph.shapeOf_pushed g op inputs shape⟩

/-! ## Steps of construction -/

/-- The draft for a **batch of one**. -/
def Draft.single (d : Draft) : Draft := { d with graph := d.graph.single }

namespace Emit

variable {B : Nat → Prop} {d : Draft} {α β γ δ : Type}

/-- **Two steps side by side**: where the first one leads from `d`, the second one leads from the
draft for a batch of one, and leaves what `f` says. -/
def Splits (B : Nat → Prop) (d : Draft) (f : α → β) (m : Emit α) (m' : Emit β) : Prop :=
  ∀ x d', m d = .ok x d' → m' d.single = .ok (f x) d'.single ∧ d'.graph.Batched B

theorem Splits.pure (hd : d.graph.Batched B) {f : α → β} (x : α) :
    Splits B d f (Pure.pure x) (Pure.pure (f x)) := by
  intro y d' h
  obtain ⟨rfl, rfl⟩ := pure_eq_ok.mp h
  exact ⟨rfl, hd⟩

theorem Splits.bind {f : α → β} {g : γ → δ} {m : Emit α} {m' : Emit β} {k : α → Emit γ}
    {k' : β → Emit δ} (hm : Splits B d f m m')
    (h : ∀ x d₁, m d = .ok x d₁ → d₁.graph.Batched B → Splits B d₁ g (k x) (k' (f x))) :
    Splits B d g (m >>= k) (m' >>= k') := by
  intro y d' hy
  obtain ⟨x, d₁, hx, hy⟩ := bind_eq_ok.mp hy
  obtain ⟨hx', hd₁⟩ := hm x d₁ hx
  obtain ⟨hy', hd'⟩ := h x d₁ hx hd₁ y d' hy
  exact ⟨bind_eq_ok.mpr ⟨_, _, hx', hy'⟩, hd'⟩

theorem Splits.lift (hd : d.graph.Batched B) {f : α → β} {r : Outcome α} {r' : Outcome β}
    (h : ∀ x, r = .ok x → r' = .ok (f x)) : Splits B d f (lift r) (lift r') := by
  intro x d' hx
  obtain ⟨hr, rfl⟩ := lift_eq_ok.mp hx
  exact ⟨lift_eq_ok.mpr ⟨h x hr, rfl⟩, hd⟩

/-- A check that does not look at the batch. -/
theorem Splits.check (hd : d.graph.Batched B) (r : Outcome α) :
    Splits B d id (Emit.lift r) (Emit.lift r) :=
  .lift hd fun _ h => h

theorem Splits.record {f f' : Graph → Outcome (Graph × α)} (h : d.graph.Carries B f f') :
    Splits B d id (record f) (record f') := by
  intro x d' hx
  obtain ⟨g, hg, rfl⟩ := record_eq_ok.mp hx
  obtain ⟨hg', hbatched⟩ := h _ hg
  exact ⟨record_eq_ok.mpr ⟨_, hg', rfl⟩, hbatched⟩

theorem Splits.shapeOf (hd : d.graph.Batched B) (t : TensorId) :
    Splits B d Shape.single (shapeOf t) (shapeOf t) := by
  intro s d' h
  obtain ⟨hs, rfl⟩ := query_eq_ok.mp h
  exact ⟨query_eq_ok.mpr ⟨Graph.shapeOf_single hs, rfl⟩, hd⟩

theorem Splits.nchw (hd : d.graph.Batched B) (t : TensorId) :
    Splits B d (fun s => { s with batch := 1 }) (nchw t) (nchw t) :=
  .bind (.shapeOf hd t) fun _ _ _ hd₁ => .lift hd₁ fun _ hx => Shape.nchw_single hx

theorem Splits.divides (hd : d.graph.Batched B) (a b : Nat) :
    Splits B d id (divides a b) (divides a b) := .check hd _

theorem Splits.take (hd : d.graph.Batched B) (count block : Nat) :
    Splits B d id (take count block) (take count block) := by
  intro values d' h
  obtain ⟨c, hc, rfl⟩ := take_eq_ok.mp h
  exact ⟨take_eq_ok.mpr ⟨c, hc, rfl⟩, hd⟩

/-- Steps for each entry of a list, which keep what has been recorded in front of them. -/
theorem Splits.mapM {f f' : α → Emit β} (hf : ∀ a, Extends (f a)) (hd : d.graph.Batched B)
    (h : ∀ a d₁, d₁.graph.Batched B → d.graph.Within d₁.graph → Splits B d₁ id (f a) (f' a))
    (as : List α) : Splits B d id (as.mapM f) (as.mapM f') := by
  induction as generalizing d with
  | nil => exact .pure hd []
  | cons a rest ih =>
    rw [List.mapM_cons, List.mapM_cons]
    refine .bind (h a d hd (.refl _)) fun x d₁ hx hd₁ => ?_
    have hfront := (hf a d x d₁ hx).within
    exact .bind (ih hd₁ fun a d₂ hd₂ hbehind => h a d₂ hd₂ (hfront.trans hbehind)) fun _ _ _ hd₂ =>
      .pure hd₂ _

/-! ## Emitters -/

/-- The axis of a route is never that of the images. -/
theorem routeAxis_pos {axis : Int} {rank block resolved : Nat}
    (h : routeAxis axis rank block = .ok resolved) : 0 < resolved := by
  simp only [routeAxis, Outcome.bind_eq_ok, Outcome.demand_eq_ok, Outcome.ensure_eq_ok,
    Outcome.pure_eq_ok, Bool.and_eq_true, decide_eq_true_eq] at h
  obtain ⟨-, -, -, ⟨hlow, -⟩, rfl⟩ := h
  omega

section Activations

variable (hd : d.graph.Batched B)

include hd

theorem pointwise_splits (input : TensorId) (p : Pointwise) :
    Splits B d id (pointwise input p) (pointwise input p) :=
  .record (Graph.addActivation_single hd input p)

theorem product_splits (left right : TensorId) :
    Splits B d id (product left right) (product left right) :=
  .record (Graph.addCombination_single hd left right .product)

theorem sum_splits (left right : TensorId) : Splits B d id (sum left right) (sum left right) :=
  .record (Graph.addCombination_single hd left right .sum)

theorem activation_splits (input : TensorId) (a : Activation) :
    Splits B d id (activation input a) (activation input a) := by
  cases a with
  | linear => exact .pure hd input
  | relu | logistic | tanh | softplus | leaky | hardSigmoid => exact pointwise_splits hd input _
  | mish =>
    exact .bind (pointwise_splits hd _ _) fun _ _ _ hd₁ => .bind (pointwise_splits hd₁ _ _)
      fun _ _ _ hd₂ => product_splits hd₂ _ _
  | silu | hardSwish =>
    exact .bind (pointwise_splits hd _ _) fun _ _ _ hd₁ => product_splits hd₁ _ _

theorem sam_splits (input attention : TensorId) (a : Activation) :
    Splits B d id (sam input attention a) (sam input attention a) :=
  .bind (product_splits hd _ _) fun t _ _ hd₁ => activation_splits hd₁ t a

/-- A sum with a layer whose tensor has the same batch. -/
theorem shortcut_splits {input source : TensorId} (a : Activation)
    (hbatch : ∀ current other, d.graph.shapeOf input = .ok current →
      d.graph.shapeOf source = .ok other →
      current.dims.head? = other.dims.head?) :
    Splits B d id (shortcut input source a) (shortcut input source a) := by
  have hafter : ∀ cropped d₁, d₁.graph.Batched B → Splits B d₁ id
      (sum cropped input >>= (activation · a)) (sum cropped input >>= (activation · a)) :=
    fun _ _ hd₁ => .bind (sum_splits hd₁ _ _) fun t _ _ hd₂ => activation_splits hd₂ t a
  refine .bind (.shapeOf hd input) fun current d₁ hread hd₁ => .bind (.shapeOf hd₁ source)
    fun other d₂ hread' hd₂ => ?_
  obtain ⟨hcurrent, rfl⟩ := query_eq_ok.mp hread
  obtain ⟨hother, rfl⟩ := query_eq_ok.mp hread'
  dsimp only
  by_cases heq : current = other
  · rw [if_pos heq, if_pos (congrArg Shape.single heq)]
    exact .bind (.pure hd source) fun t _ _ hd₁ => hafter t _ hd₁
  · -- the batch is the same, so the shapes for a batch of one differ as well
    obtain ⟨k, rest, hk, -, -⟩ := hd.shapeOf hcurrent
    obtain ⟨j, others, hj, -, -⟩ := hd.shapeOf hother
    obtain rfl : k = j := by simpa [hk, hj] using hbatch current other hcurrent hother
    have hne : current.single ≠ other.single := by
      intro hsingle
      have htails : rest = others := by
        simpa [hk, hj] using congrArg Shape.dims hsingle
      exact heq (Shape.eq_of_dims (by rw [hk, hj, htails]))
    rw [if_neg heq, if_neg hne]
    refine .bind (.record ?_) fun t _ _ hd₁ => hafter t _ hd₁
    have hslice : d.graph.Carries B
        (·.addSlice source
          ⟨0 :: List.replicate rest.length 0, k :: rest, 1 :: List.replicate rest.length 1⟩) _ :=
      Graph.addSlice_single hd hother hj
    simpa [Shape.rank, hk, List.replicate_succ] using hslice

/-- A part of the channels. -/
theorem channelPart_splits (routed : TensorId) (g : ChannelGroup) (block : Nat) :
    Splits B d id (channelPart routed g block) (channelPart routed g block) := by
  refine .bind (.nchw hd routed) fun s d₁ hs hd₁ => .bind (.divides hd₁ _ _) fun b d₂ hb hd₂ =>
    .bind (.check hd₂ _) fun _ d₃ hc hd₃ =>
      .bind (.check hd₃ _) fun start d₄ hstart hd₄ => .record ?_
  obtain ⟨⟨shape, hshape, hdims⟩, rfl⟩ := nchw_eq_ok.mp hs
  obtain ⟨-, rfl⟩ := lift_eq_ok.mp hb
  obtain ⟨-, rfl⟩ := lift_eq_ok.mp hc
  obtain ⟨-, rfl⟩ := lift_eq_ok.mp hstart
  exact Graph.addSlice_single hd hshape hdims

/-- Sources laid end to end, and what is made of them. -/
theorem routed_splits (sources : List TensorId) (first : TensorId) (axis : Int) (block : Nat)
    {f : TensorId → Emit TensorId} (hf : ∀ t d, d.graph.Batched B → Splits B d id (f t) (f t)) :
    let m : Emit TensorId := do
      let rank := (← shapeOf first).rank
      let resolved ← lift (routeAxis axis rank block)
      let t ← record (·.addConcat sources resolved)
      f t
    Splits B d id m m := by
  refine .bind (.shapeOf hd first) fun s d₁ _ hd₁ => ?_
  dsimp only
  rw [Shape.rank_single]
  refine .bind (.check hd₁ _) fun resolved d₂ haxis hd₂ => ?_
  obtain ⟨haxis, -⟩ := lift_eq_ok.mp haxis
  exact .bind (.record (Graph.addConcat_single hd₂ sources (routeAxis_pos haxis))) fun t _ _ hd₃ =>
    hf t _ hd₃

theorem route_splits (sources : List TensorId) (axis : Int) (group : Option ChannelGroup)
    (block : Nat) :
    Splits B d id (route sources axis group block) (route sources axis group block) := by
  unfold route
  cases sources with
  | nil => exact .check hd _
  | cons first rest =>
    dsimp only
    cases group with
    | none =>
      split
      · exact .bind (.pure hd first) fun t _ _ hd₁ => .pure hd₁ t
      · exact routed_splits hd _ first axis block fun t _ hd₁ => .pure hd₁ t
    | some g =>
      split
      · exact .bind (.pure hd first) fun t _ _ hd₁ => channelPart_splits hd₁ t g block
      · exact routed_splits hd _ first axis block fun t _ hd₁ => channelPart_splits hd₁ t g block

theorem upsample_splits (hB : ∀ k, B k → k ≤ 0x1000000) (input : TensorId) (stride : Nat) :
    Splits B d id (upsample input stride) (upsample input stride) :=
  .record (Graph.addResize_single hd hB input _)

theorem maxPool_splits (input : TensorId) (size stride : Nat) :
    Splits B d id (maxPool input size stride) (maxPool input size stride) :=
  .bind (.check hd _) fun _ _ _ hd₁ => .record (Graph.addPool_single hd₁ input _)

theorem averagePool_splits (input : TensorId) :
    Splits B d id (averagePool input) (averagePool input) :=
  .bind (.nchw hd input) fun _ _ _ hd₁ => .record (Graph.addPool_single hd₁ input _)

/-- The phases of a grid, for all images. -/
theorem reorg3d_splits (input : TensorId) (block : Nat) :
    Splits B d id (reorg3d input block) (reorg3d input block) := by
  refine .bind (.nchw hd input) fun s d₁ hs hd₁ => .bind (.check hd₁ _) fun _ d₂ hc hd₂ =>
    .bind (.mapM (fun _ => extends_closed.record (Graph.addSlice_plain input _)) hd₂
      (fun phase d₃ hd₃ hfront => .record ?_) phases) fun parts _ _ hd₄ =>
        .record (Graph.addConcat_single hd₄ parts Nat.one_pos)
  obtain ⟨⟨shape, hshape, hdims⟩, rfl⟩ := nchw_eq_ok.mp hs
  obtain ⟨-, rfl⟩ := lift_eq_ok.mp hc
  exact Graph.addSlice_single hd₃ (hfront.shapeOf hshape) hdims

/-- Blocks of positions turned into channels, image by image. -/
theorem reorg_splits (input : TensorId) (stride block : Nat) :
    Splits B d id (reorg input stride block) (reorg input stride block) := by
  refine .bind (.nchw hd input) fun s d₁ hs hd₁ => .bind (.check hd₁ _) fun area d₂ harea hd₂ =>
    .bind (.divides hd₂ _ _) fun b d₃ hb hd₃ => .bind (.check hd₃ _) fun _ d₄ hc hd₄ => ?_
  obtain ⟨⟨shape, hshape, hdims⟩, rfl⟩ := nchw_eq_ok.mp hs
  obtain ⟨-, rfl⟩ := lift_eq_ok.mp harea
  obtain ⟨-, rfl⟩ := lift_eq_ok.mp hb
  obtain ⟨-, rfl⟩ := lift_eq_ok.mp hc
  refine .bind (.record (Graph.addReshape_single hd hshape hdims)) fun viewed d₅ hviewed hd₅ =>
    .bind (.record (Graph.addTranspose_single hd₅ viewed _)) fun moved d₆ hmoved hd₆ =>
      .bind (.check hd₆ _) fun channels d₇ hchannels hd₇ => ?_
  obtain ⟨g₅, hreshape, rfl⟩ := record_eq_ok.mp hviewed
  obtain ⟨g₆, htranspose, rfl⟩ := record_eq_ok.mp hmoved
  obtain ⟨-, rfl⟩ := lift_eq_ok.mp hchannels
  obtain ⟨view, haccepts, hview⟩ := (Graph.addReshape_eq_ok hreshape).shapeOf
  obtain ⟨move, haccepts', hmove⟩ := (Graph.addTranspose_eq_ok htranspose).shapeOf
  -- both keep the batch of the input
  have hmoves : ∃ rest, move.dims = s.batch :: rest := by
    cases haccepts with
    | reshape _ hdims _ =>
      cases haccepts' with
      | transpose hsource _ _ hdims' =>
        rw [hview] at hsource
        cases hsource
        rw [hdims, List.map_cons] at hdims'
        exact ⟨_, hdims'⟩
  obtain ⟨rest, hrest⟩ := hmoves
  exact .record (Graph.addReshape_single hd₇ hmove hrest)

theorem takeNormalization_splits (channels block : Nat) :
    Splits B d id (takeNormalization channels block) (takeNormalization channels block) :=
  .bind (.take hd _ _) fun _ _ _ hd₁ => .bind (.take hd₁ _ _) fun _ _ _ hd₂ =>
    .bind (.take hd₂ _ _) fun _ _ _ hd₃ => .bind (.take hd₃ _ _) fun _ _ _ hd₄ => .pure hd₄ _

theorem normalization_splits (input : TensorId) (a : Activation) (block : Nat) :
    Splits B d id (normalization input a block) (normalization input a block) :=
  .bind (.nchw hd input) fun _ _ _ hd₁ => .bind (takeNormalization_splits hd₁ _ _) fun m _ _ hd₂ =>
    .bind (.record (Graph.addScale_single hd₂ input m)) fun t _ _ hd₃ => activation_splits hd₃ t a

theorem implicit_splits (hone : B 1) (filters block : Nat) :
    Splits B d id (implicit filters block) (implicit filters block) := by
  refine .bind (.take hd _ _) fun values d₁ _ hd₁ => .bind (.check hd₁ _) fun s d₂ hs hd₂ =>
    .record ?_
  obtain ⟨hs, -⟩ := lift_eq_ok.mp hs
  exact Graph.addConstant_single hd₂ hone (Shape.ofDims_eq_ok.mp hs) values

theorem takeIf_splits {present : Bool} {m : Emit α} (hm : Splits B d id m m) :
    Splits B d id (takeIf present m) (takeIf present m) := by
  cases present with
  | false => exact .pure hd none
  | true =>
    intro x d' h
    obtain ⟨y, hy, rfl⟩ := map_eq_ok.mp h
    obtain ⟨hy', hd'⟩ := hm y d' hy
    exact ⟨map_eq_ok.mpr ⟨y, hy', rfl⟩, hd'⟩

theorem convolution_splits (input : TensorId) (c : Convolution) (transposed : Bool) (block : Nat) :
    Splits B d id (convolution input c transposed block)
    (convolution input c transposed block) := by
  refine .bind (.nchw hd input) fun s _ _ hd₁ => .bind (.divides hd₁ _ _) fun _ _ _ hd₂ =>
    .bind (.check hd₂ _) fun _ _ _ hd₃ => .bind (.check hd₃ _) fun _ _ _ hd₄ =>
      .bind (takeIf_splits hd₄ (takeNormalization_splits hd₄ _ _)) fun normalization _ _ hd₅ =>
        .bind (takeIf_splits hd₅ (.take hd₅ _ _)) fun bias _ _ hd₆ =>
          .bind (.take hd₆ _ _) fun weights _ _ hd₇ =>
            .bind (.record (Graph.addConvolution_single hd₇ input _)) fun t _ _ hd₈ => ?_
  cases normalization with
  | none => exact .bind (.pure hd₈ t) fun u _ _ hd₉ => activation_splits hd₉ u c.activation
  | some m =>
    exact .bind (.record (Graph.addScale_single hd₈ t m)) fun u _ _ hd₉ =>
      activation_splits hd₉ u c.activation

end Activations

end Emit

end GridNet
