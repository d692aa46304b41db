import GridNet.Detection.Candidate
import GridNet.Proofs.BatchIndependence
import GridNet.Proofs.RecordedGraphs

/-!
# How many images a run serves

The decode node has the batch size of the head tensors, and the head tensors are compared with each
other, not with the batch size of the network. Where a head reads a constant, which holds for all
images, they differ: then the outputs of a run have one row of boxes for the whole batch, and only
the first image of it is found in them.

* `RawRow.ofOutputs_eq_ok_iff` — the images that are found in outputs of known extents.
* `Build.finish_extents` — what a decode node makes, under its names.
* `Model.outputExtents_of_heads` — what is recorded for the outputs of a network with heads.
* `Model.Serves`, `Model.serves_of_outputExtents` — the images that are found in the
  outputs of a run.
* `Blueprint.serves_batch` — without constants these are the images of the batch.
* `Blueprint.constantHead_not_served` — with a constant they may be fewer.
-/

namespace GridNet

/-! ## Images in outputs -/

namespace RawRow

variable {boxes scores classes : Tensor} {images rows index : Nat}

theorem rowCount_of_dims {t : Tensor} {width : Nat}
    (hd : t.dims = [images, rows, width]) (index : Nat)
    (name : String) : rowCount t index width name =
      if index < images then .ok rows else .error (rowCount.mismatch index width name t) := by
  simp [rowCount, hd]

/-- **The images of a batch** are found in its outputs, and no others. -/
theorem ofOutputs_eq_ok_iff (hboxes : boxes.dims = [images, rows, 4])
    (hscores : scores.dims = [images, rows, 1]) (hclasses : classes.dims = [images, rows, 1]) :
    (∃ raw, ofOutputs boxes scores classes index = .ok raw) ↔ index < images := by
  unfold ofOutputs
  rw [rowCount_of_dims hboxes, rowCount_of_dims hscores, rowCount_of_dims hclasses]
  by_cases hindex : index < images
  · simp [hindex, ensure]
  · simp [hindex]

end RawRow

/-! ## Recorded extents -/

namespace Graph

variable {g : Graph}

/-- The recorded extents of an output are those of a tensor of the graph. -/
theorem mem_outputExtents {dims : List Nat} (h : dims ∈ g.outputExtents) :
    ∃ e ∈ g.tensors.toList, e.shape.dims = dims := by
  obtain ⟨output, hmem, rfl⟩ := List.mem_map.mp h
  obtain ⟨⟨name, t⟩, -, hfound⟩ := List.mem_filterMap.mp (List.mem_mergeSort.mp hmem)
  obtain ⟨e, he, rfl⟩ := Option.map_eq_some_iff.mp hfound
  exact ⟨e, List.mem_of_getElem? (Array.getElem?_toList.trans he), rfl⟩

/-- The batch size of an output is one of those that tensors may have. -/
theorem Batched.outputExtents {B : Nat → Prop} (h : g.Batched B) {images : Nat} {rest : List Nat}
    (hmem : (images :: rest) ∈ g.outputExtents) : B images := by
  obtain ⟨e, he, hdims⟩ := mem_outputExtents hmem
  obtain ⟨k, others, hk, hbatch⟩ := h.extents e he
  rw [hdims] at hk
  exact (List.cons.inj hk).1 ▸ hbatch

/-- The extents of the results of a decode node, which are named in the order of the node
and sorted. -/
theorem outputExtents_decoded (hnone : g.outputs = []) (op : Operation) (inputs : List TensorId)
    (boxes scores classes : Shape) :
    ((g.push op inputs [boxes, scores, classes]).1.named
        (decodedNames.zip (g.push op inputs [boxes, scores, classes]).2)).outputExtents =
      [boxes.dims, classes.dims, scores.dims] := by
  have hids : (g.push op inputs [boxes, scores, classes]).2 =
      [g.tensors.size, g.tensors.size + 1, g.tensors.size + 2] := rfl
  have hfirst : (g.push op inputs [boxes, scores, classes]).1.outputs = [] := hnone
  simp [outputExtents, named, hids, hfirst, push_tensors_getElem?, decodedNames, List.mergeSort,
    List.MergeSort.Internal.splitInTwo]

end Graph

/-- **After the pass** over a network with heads, the recorded outputs are boxes, classes and scores
of one batch size, which is that of the head tensors. -/
theorem Build.finish_extents {b : Blueprint} {p : Progress} {d d' : Draft}
    {outputs : NetworkOutputs}
    (h : finish b p d = .ok outputs d') (hnone : d.graph.outputs = [])
    (hheads : p.headTensors ≠ []) :
    ∃ images rows, 0 < images ∧
      d'.graph.outputExtents = [[images, rows, 4], [images, rows, 1], [images, rows, 1]] := by
  rcases finish_eq_ok h with ⟨hempty, -⟩ | ⟨-, shapes, -, haccepts, -, rfl⟩
  · exact absurd hempty hheads
  · cases haccepts with
    | decode _ hshapes =>
      obtain ⟨-, -, -, images, boxes, scores, rfl, hboxes, hscores, -⟩ :=
        HeadDecoder.outputShapes_eq_ok hshapes
      refine ⟨images, (decoderOf b p).rows, boxes.positive images (hboxes ▸ List.mem_cons_self), ?_⟩
      rw [← hboxes, ← hscores]
      exact Graph.outputExtents_decoded hnone _ _ boxes scores scores

/-! ## Images in the outputs of a run -/

namespace Model

variable {b : Blueprint} {weights : WeightBuffer} {m : Model} {images rows : Nat}

/-- The recorded outputs of a network with heads are boxes, classes and scores of **one
batch size**. -/
theorem outputExtents_of_heads (h : compile b weights = .ok m) (hheads : b.headLayerCount ≠ 0) :
    ∃ images rows, 0 < images ∧
      m.graph.outputExtents = [[images, rows, 4], [images, rows, 1], [images, rows, 1]] := by
  unfold compile at h
  split at h
  · next built dend hnetwork =>
    obtain rfl := (Except.ok.inj h).symm
    obtain ⟨input, p, dpass, hbody, -, hclose⟩ := Build.network_eq_ok.mp hnetwork
    obtain ⟨shape, d₀, -, hdeclared, hpass⟩ := Build.body_eq_ok.mp hbody
    obtain ⟨rfl, rfl⟩ := Build.start_eq_ok hdeclared
    obtain ⟨marked, hfinish, -⟩ := Build.close_eq_ok hclose
    have hnone := (Build.pass_extends _ _ _ _ _ hpass).named.2
    have hcount : p.headTensors.length = b.headLayerCount := by
      rw [(Build.pass_counts hpass).2, List.length_nil, Nat.zero_add]
      rfl
    refine Build.finish_extents hfinish hnone fun hempty => hheads ?_
    rw [← hcount, hempty, List.length_nil]
  · cases h

/-- A run of a model with heads returns boxes, classes and scores, in which exactly the images below
`count` are found. -/
def Serves (m : Model) (count : Nat) : Prop :=
  ∀ x : Tensor, x.dims = m.inputDims → ∃ boxes scores classes,
    (m.run x).outputs = .ok [("boxes", boxes), ("classes", classes), ("scores", scores)] ∧
      ∀ index, (∃ raw, RawRow.ofOutputs boxes scores classes index = .ok raw) ↔ index < count

/-- The outputs of a run have the recorded extents. -/
theorem run_extents (hb : b.Checked) (h : compile b weights = .ok m) (hsizes : m.graph.WithinSizes)
    {x : Tensor} (hx : x.dims = m.inputDims) {outputs : List (String × Tensor)}
    (hrun : (m.run x).outputs = .ok outputs) : outputs.map (·.2.dims) = m.graph.outputExtents := by
  obtain ⟨vs, hg, hinputs, hv⟩ := valued_of_checked hb h hsizes hx
  rw [run, if_pos hx, Graph.run, hinputs] at hrun
  change (m.graph.runNamed [(inputName, x)]).outputs = .ok outputs at hrun
  rw [hv.runNamed hg] at hrun
  obtain rfl := Except.ok.inj hrun
  exact hv.outputExtents

/-- The images that are recorded are found in the outputs of **every run**. -/
theorem serves_of_outputExtents (hb : b.Checked) (h : compile b weights = .ok m)
    (hheads : b.headLayerCount ≠ 0) (hsizes : m.graph.WithinSizes)
    (hextents : m.graph.outputExtents = [[images, rows, 4], [images, rows, 1], [images, rows, 1]]) :
    m.Serves images := by
  intro x hx
  obtain ⟨outputs, hrun, hinterpreted⟩ := run_of_checked hb h hsizes hx
  have hnames := Interpreter.run_names hinterpreted
  rw [if_neg hheads] at hnames
  have hdims := (run_extents hb h hsizes hx hrun).trans hextents
  match outputs, hnames, hdims with
  | [(_, boxes), (_, classes), (_, scores)], hnames, hdims =>
    simp only [List.map_cons, List.map_nil, List.cons.injEq, and_true] at hnames hdims
    obtain ⟨rfl, rfl, rfl⟩ := hnames
    obtain ⟨hboxes, hclasses, hscores⟩ := hdims
    exact ⟨boxes, scores, classes, hrun, fun _ =>
      RawRow.ofOutputs_eq_ok_iff hboxes hscores hclasses⟩

end Model

namespace Blueprint

/-- **A run serves the images of its batch**, where no layer is a constant. Take a blueprint that
has been read from blocks of which some describe heads, with its own batch size or any positive one,
and weights with which it compiles, such that all sizes are in range. The recorded boxes, classes
and scores have one batch size, and in the outputs of every run the images below it are found, and
no others. This is the batch size of the blueprint if that is one or no layer is a constant; and if
no window crops the axis of images, it can otherwise only be one. Layers that scale every axis have
to leave the batch size as it is, which they do up to `2 ^ 24`. -/
theorem serves_batch {blocks : List Block} {name : String} {b b' : Blueprint} {batch : Option Nat}
    {weights : WeightBuffer} {m : Model} (hread : ofBlocks blocks name = .ok b)
    (hheads : blocks.any Block.isHead) (hbatch : b.withBatch batch = .ok b')
    (hcompiled : Model.compile b' weights = .ok m) (hsizes : m.graph.WithinSizes) :
    ∃ images rows, 0 < images ∧
      m.graph.outputExtents = [[images, rows, 4], [images, rows, 1], [images, rows, 1]] ∧
      m.Serves images ∧
      ((∀ l ∈ b'.layers, l.kind.isUpsample → b'.input.batch ≤ 2 ^ 24) →
        ((∀ l ∈ b'.layers, l.kind.isImplicit → b'.input.batch = 1) → images = b'.input.batch) ∧
        (m.graph.Uncropped → images = b'.input.batch ∨ images = 1)) := by
  have hchecked := (checked_of_ofBlocks hread).withBatch hbatch
  have hsome := fun hzero => (headLayerCount_eq_zero_iff hread).mp hzero hheads
  have hcount : b'.headLayerCount ≠ 0 := by
    obtain ⟨n, rfl⟩ := withBatch_eq_ok hbatch
    exact hsome
  obtain ⟨images, rows, hpos, hextents⟩ := Model.outputExtents_of_heads hcompiled hcount
  have hmem : [images, rows, 4] ∈ m.graph.outputExtents := by
    rw [hextents]
    exact List.mem_cons_self
  refine ⟨images, rows, hpos, hextents,
    Model.serves_of_outputExtents hchecked hcompiled hcount hsizes hextents, fun hexact => ⟨?_, ?_⟩⟩
  · intro hconstant
    have hB : Build.Batches (· = b'.input.batch) b'.layers :=
      ⟨fun l hl hscales k hk => hk ▸ hexact l hl hscales, fun l hl h => (hconstant l hl h).symm⟩
    -- there is one batch size only, so nothing can be cropped
    have hwhole : Build.Whole (· = b'.input.batch) m.graph := .inl fun _ _ hj hk => hj.trans hk.symm
    obtain ⟨-, hbatched⟩ := Model.compile_single hB rfl hcompiled hwhole
    exact hbatched.outputExtents hmem
  · intro hcrop
    have hB : Build.Batches (fun k => k = b'.input.batch ∨ k = 1) b'.layers := by
      refine ⟨fun l hl hscales k hk => ?_, fun _ _ _ => .inr rfl⟩
      rcases hk with rfl | rfl
      · exact hexact l hl hscales
      · decide
    obtain ⟨-, hbatched⟩ := Model.compile_single hB (.inl rfl) hcompiled (.inr hcrop)
    exact hbatched.outputExtents hmem

theorem serves_batch_spotBlueprint :
    ∃ m, Model.compile (spotBlueprint 2) #[] = .ok m ∧ m.Serves 2 := by
  obtain ⟨m, hcompiled, -, hsizes, -⟩ := compile_spotBlueprint
  obtain ⟨images, rows, -, -, hserves, hsame⟩ :=
    serves_batch ofBlocks_spotBlocks (by decide) withBatch_spotBlueprint hcompiled hsizes
  obtain rfl : images = 2 := (hsame (by decide)).1 (by decide)
  exact ⟨m, hcompiled, hserves⟩

/-- A description of a head that reads a constant, for batches of two images. -/
def constantHeadBlocks : List Block :=
  [{ kind := "net", line := 1
     assignments := ⟨[("batch", "2"), ("channels", "6"), ("height", "1"),
       ("width", "1")], by decide⟩ },
    { kind := "implicit", line := 6, assignments := ⟨[("filters", "6")], by decide⟩ },
    { kind := "yolo", line := 8
      assignments := ⟨[("anchors", "1,1"), ("classes", "1"), ("new_coords", "1"),
        ("num", "1")], by decide⟩ }]

/-- The blueprint that is read from it. -/
def constantHeadBlueprint : Blueprint where
  name := "constant"
  input := { width := 1, height := 1, channels := 6, batch := 2 }
  layers := [⟨0, .implicit 6⟩, ⟨1, .head .yolo 0⟩]
  heads := [{ spotHead with name := "yolo_1" }]
  classes := 1
  activatedHeads := true

/-- **A batch that is not served**: the head reads a constant, and in the outputs of every run the
second image of the batch is not found. -/
theorem constantHead_not_served :
    ∃ m, ofBlocks constantHeadBlocks "constant" = .ok constantHeadBlueprint ∧
      constantHeadBlueprint.input.batch = 2 ∧
      Model.compile constantHeadBlueprint (Array.replicate 6 .half) = .ok m ∧
      m.graph.outputExtents = [[1, 1, 4], [1, 1, 1], [1, 1, 1]] ∧
      ∀ x : Tensor, x.dims = [2, 6, 1, 1] → ∃ boxes scores classes,
        (m.run x).outputs = .ok [("boxes", boxes), ("classes", classes), ("scores", scores)] ∧
          ∀ raw, RawRow.ofOutputs boxes scores classes 1 ≠ .ok raw := by
  have hread : ofBlocks constantHeadBlocks "constant" = .ok constantHeadBlueprint :=
    Outcome.toOption_eq_some.mp (by decide +kernel)
  have hgraph : (Model.compile constantHeadBlueprint (Array.replicate 6 .half)).toOption.map
      (fun m =>
      (m.inputDims, m.graph.tensors.toList.map (·.shape.dims), m.graph.nodes.toList)) =
      some ([2, 6, 1, 1], [[2, 6, 1, 1], [1, 6, 1, 1], [1, 1, 4], [1, 1, 1], [1, 1, 1]],
        [⟨.input "data", [], [0]⟩, ⟨.constant (Array.replicate 6 .half), [], [1]⟩,
          ⟨.decode ⟨1, 1, 1, true,
            [{ spotHead with name := "yolo_1", gridWidth := 1, gridHeight := 1 }], 1⟩,
            [1], [2, 3, 4]⟩]) := by
    decide +kernel
  obtain ⟨m, hm, hfound⟩ := Option.map_eq_some_iff.mp hgraph
  obtain ⟨hdims, hfound⟩ := Prod.mk.inj hfound
  obtain ⟨htensors, hnodes⟩ := Prod.mk.inj hfound
  have hcompiled := Outcome.toOption_eq_some.mp hm
  have hsizes : m.graph.WithinSizes := by
    refine .of_eq htensors hnodes (by decide) fun node hnode operands _ => ?_
    simp only [List.mem_cons, List.not_mem_nil, or_false] at hnode
    rcases hnode with rfl | rfl | rfl
    · trivial
    · trivial
    · exact ⟨by decide, by decide⟩
  have hcount : constantHeadBlueprint.headLayerCount ≠ 0 := by decide
  obtain ⟨images, rows, -, hextents⟩ := Model.outputExtents_of_heads hcompiled hcount
  -- only one tensor of the graph has rows of four
  obtain ⟨rfl, rfl⟩ : images = 1 ∧ rows = 1 := by
    obtain ⟨e, he, hboxes⟩ := Graph.mem_outputExtents (hextents ▸ List.mem_cons_self)
    have hmem := List.mem_map_of_mem (f := (·.shape.dims)) he
    rw [htensors, hboxes] at hmem
    simpa using hmem
  refine ⟨m, hread, rfl, hcompiled, hextents, fun x hx => ?_⟩
  obtain ⟨boxes, scores, classes, hrun, hfound⟩ :=
    Model.serves_of_outputExtents (checked_of_ofBlocks hread)
    hcompiled hcount hsizes hextents x (hx.trans hdims.symm)
  exact ⟨boxes, scores, classes, hrun, fun raw hraw =>
    absurd ((hfound 1).mp ⟨raw, hraw⟩) (by decide)⟩

end Blueprint

end GridNet
