import GridNet.Model.Load
import GridNet.Proofs.Compilation

/-!
# What compiles can be run

Reading a description, building its network and evaluating the graph each check some things and take
others for granted. Here it is shown that nothing is taken for granted that has not been checked: a
model that has been compiled returns its outputs on every input of its extents, and two of the
checks in building can never fail.

* `Model.compile_values`, `Model.run_of_checked` — a run of a compiled model succeeds.
* `Interpreter.run_names` — which outputs there are.
* `Build.HeadsInPlace` — every head layer finds its head, and no head is left over.
* `Blueprint.serves` — all of this, for the blocks of a description and any batch size.
-/

namespace GridNet

/-! ## Heads among blocks and layers -/

/-- The block describes a detection head. -/
def Block.isHead (b : Block) : Bool := b.kind = HeadKind.yolo.name || b.kind = HeadKind.region.name

/-- The number of head layers. -/
def headLayers (layers : List Layer) : Nat := (layers.filter (·.kind.isHead)).length

theorem headLayers_cons (l : Layer) (rest : List Layer) :
    headLayers (l :: rest) = (if l.kind.isHead then 1 else 0) + headLayers rest := by
  unfold headLayers
  rw [List.filter_cons]
  split
  · rw [List.length_cons, Nat.add_comm]
  · rw [Nat.zero_add]

namespace Blueprint

/-- What is read from a block is a head, or a layer that is no head, as the block says. -/
def Reading.Matches (block : Block) : Reading → Prop
  | layer kind => kind.isHead = false ∧ block.isHead = false
  | head _ _ => block.isHead = true

theorem readRoute_isHead {s : Section} {kind : LayerKind} (h : readRoute s = .ok kind) :
    kind.isHead = false := by
  unfold readRoute at h
  obtain ⟨sources, -, h⟩ := Outcome.bind_eq_ok.mp h
  dsimp only at h
  split at h
  · exact absurd h Outcome.throw_bind_ne_ok
  obtain ⟨groups, -, h⟩ := Outcome.bind_eq_ok.mp h
  obtain ⟨part, -, h⟩ := Outcome.bind_eq_ok.mp h
  split at h
  · exact absurd h Outcome.throw_bind_ne_ok
  obtain ⟨axis, -, h⟩ := Outcome.bind_eq_ok.mp h
  obtain rfl := Outcome.pure_eq_ok.mp h
  rfl

/-- **One block** is read as what it describes. -/
theorem readLayer_matches {s : Section} {index : Nat} {r : Reading}
    (h : readLayer s index = .ok r) : r.Matches s.block := by
  -- the match on the kind of the block decides both sides
  have hplain : s.block.kind ≠ "yolo" → s.block.kind ≠ "region" → s.block.isHead = false :=
    fun hyolo hregion => by simp [Block.isHead, HeadKind.name, hyolo, hregion]
  unfold readLayer at h
  split at h
  case h_11 hkind =>
    obtain ⟨kind, hroute, rfl⟩ := Outcome.map_eq_ok.mp h
    exact ⟨readRoute_isHead hroute, hplain (by simp [hkind]) (by simp [hkind])⟩
  case h_19 hkind | h_20 hkind =>
    obtain ⟨activated, -, h⟩ := Outcome.bind_eq_ok.mp h
    obtain ⟨head, -, h⟩ := Outcome.bind_eq_ok.mp h
    obtain rfl := Outcome.pure_eq_ok.mp h
    simp [Reading.Matches, Block.isHead, hkind, HeadKind.name]
  case h_9 hkind | h_10 hkind | h_13 hkind | h_14 hkind =>
    obtain ⟨_, -, h⟩ := Outcome.bind_eq_ok.mp h
    obtain ⟨_, -, h⟩ := Outcome.bind_eq_ok.mp h
    obtain rfl := Outcome.pure_eq_ok.mp h
    exact ⟨rfl, hplain (by simp [hkind]) (by simp [hkind])⟩
  case h_15 hkind | h_16 hkind | h_17 hkind | h_21 hkind =>
    obtain rfl := Except.ok.inj h
    exact ⟨rfl, hplain (by simp [hkind]) (by simp [hkind])⟩
  case h_22 => cases h
  all_goals
    next hkind =>
    obtain ⟨_, -, rfl⟩ := Outcome.map_eq_ok.mp h
    exact ⟨rfl, hplain (by simp [hkind]) (by simp [hkind])⟩

theorem readLayers_matches {index : Nat} {blocks : List Block} {readings : List Reading}
    (h : readLayers index blocks = .ok readings) :
    List.Forall₂ Reading.Matches blocks readings := by
  induction blocks generalizing index readings with
  | nil =>
    cases h
    exact .nil
  | cons block rest ih =>
    simp only [readLayers, Outcome.bind_eq_ok, Outcome.pure_eq_ok] at h
    obtain ⟨r, hr, others, hothers, rfl⟩ := h
    exact .cons (readLayer_matches hr) (ih hothers)

/-- There are as many head layers as blocks that describe heads. -/
theorem layersOf_isHead {blocks : List Block} {readings : List Reading}
    (h : List.Forall₂ Reading.Matches blocks readings) (index place : Nat) :
    headLayers (layersOf index place readings) = (blocks.filter Block.isHead).length := by
  induction h generalizing index place with
  | nil => rfl
  | @cons block r rest readings hr _ ih =>
    cases r with
    | layer kind =>
      obtain ⟨hkind, hblock⟩ := hr
      rw [layersOf, headLayers_cons, ih, List.filter_cons_of_neg (by simp [hblock])]
      simp [hkind]
    | head h activated =>
      rw [layersOf, headLayers_cons, ih, List.filter_cons_of_pos hr, List.length_cons]
      simp [LayerKind.isHead, Nat.add_comm]

/-- A head layer has the **number of a head**. -/
theorem layersOf_place {blocks : List Block} {readings : List Reading}
    (h : List.Forall₂ Reading.Matches blocks readings) (index place block : Nat) :
    ∀ l ∈ layersOf index place readings, ∀ kind i, l.kind = .head kind i →
      i < place + (headsOf block readings).length := by
  induction h generalizing index place block with
  | nil => exact fun _ hl => absurd hl List.not_mem_nil
  | @cons _ r rest readings hr _ ih =>
    intro l hl kind i hkind
    cases r with
    | layer k =>
      rcases List.mem_cons.mp hl with rfl | hl
      · obtain rfl : k = .head kind i := hkind
        cases hr.1
      · exact ih _ _ _ l hl kind i hkind
    | head h activated =>
      rw [headsOf, List.length_cons]
      rcases List.mem_cons.mp hl with rfl | hl
      · -- the head in front has the first number that is free
        obtain ⟨-, rfl⟩ := LayerKind.head.inj hkind
        omega
      · have := ih _ _ (block + 1) l hl kind i hkind
        omega

/-- A blueprint whose **heads are numbered**: every head layer has the number of a head. -/
def Numbered (b : Blueprint) : Prop :=
  ∀ l ∈ b.layers, ∀ kind i, l.kind = .head kind i → i < b.heads.length

/-- What the blocks say about the heads of a blueprint that has been read from them. -/
theorem heads_of_ofBlocks {blocks : List Block} {name : String} {b : Blueprint}
    (h : ofBlocks blocks name = .ok b) :
    b.Numbered ∧ b.headLayerCount = (blocks.filter Block.isHead).length := by
  obtain ⟨first, rest, readings, rfl, hfirst, -, hreadings, hlayers, hheads, -⟩ := ofBlocks_eq_ok h
  have hmatches := readLayers_matches hreadings
  have hnet : first.isHead = false := by
    rcases hfirst with hkind | hkind <;> simp [Block.isHead, hkind, HeadKind.name]
  constructor
  · intro l hl kind i hkind
    rw [hlayers] at hl
    have hplace := layersOf_place hmatches 0 0 1 l hl kind i hkind
    rwa [Nat.zero_add, ← List.length_map, ← hheads] at hplace
  · rw [List.filter_cons_of_neg (by simp [hnet]), headLayerCount, hlayers]
    exact layersOf_isHead hmatches 0 0

/-- There is a head layer where some block describes a head. -/
theorem headLayerCount_eq_zero_iff {blocks : List Block} {name : String} {b : Blueprint}
    (h : ofBlocks blocks name = .ok b) :
    b.headLayerCount = 0 ↔ ¬ blocks.any Block.isHead = true := by
  rw [(heads_of_ofBlocks h).2, List.length_eq_zero_iff, List.filter_eq_nil_iff, List.any_eq_true]
  simp

/-- A change of the batch size leaves everything else alone. -/
theorem withBatch_eq_ok {b b' : Blueprint} {batch : Option Nat} (h : b.withBatch batch = .ok b') :
    ∃ n, b' = { b with input.batch := n } := by
  cases batch with
  | none =>
    obtain rfl := Except.ok.inj h
    exact ⟨b.input.batch, rfl⟩
  | some n =>
    obtain ⟨_, -, h⟩ := Outcome.bind_eq_ok.mp h
    exact ⟨n, (Outcome.pure_eq_ok.mp h).symm⟩

theorem Checked.withBatch {b b' : Blueprint} {batch : Option Nat} (hb : b.Checked)
    (h : b.withBatch batch = .ok b') : b'.Checked := by
  obtain ⟨n, rfl⟩ := withBatch_eq_ok h
  exact ⟨hb.layers, hb.anchors, hb.classes⟩

end Blueprint

/-! ## Heads in building -/

namespace Build

variable {all layers : List Layer} {b : Blueprint} {p p' : Progress} {d d' : Draft}

/-- What the pass does with the heads: their number stays, and a tensor is kept for each
head layer. -/
theorem pass_counts (h : pass all p layers d = .ok p' d') :
    p'.heads.length = p.heads.length ∧
      p'.headTensors.length = p.headTensors.length + headLayers layers := by
  induction layers generalizing p d with
  | nil =>
    obtain ⟨rfl, -⟩ := Emit.pure_eq_ok.mp h
    exact ⟨rfl, rfl⟩
  | cons l rest ih =>
    obtain ⟨p₁, d₁, hstep, hrest⟩ := Emit.bind_eq_ok.mp h
    obtain ⟨hheads, htensors⟩ := ih hrest
    rw [headLayers_cons]
    obtain ⟨_, _, -, -, -, -, ⟨_, _, _, hkind, -, hplace, -, -, -, hkept⟩ |
      ⟨hkind, _, -, -, hsame, hkept⟩⟩ := step_eq_ok hstep
    · refine ⟨hheads.trans ?_, ?_⟩
      · obtain ⟨_, -, -, hset⟩ := placeHead_eq_ok hplace
        rw [hset, List.length_set]
      · rw [htensors, hkept, hkind, List.length_append, List.length_singleton]
        exact Nat.add_assoc _ _ _
    · rw [htensors, hheads, hkept, hsame, hkind]
      simp

/-- **Heads in place**, whatever the weights are: a head layer that the pass comes to finds a head
of its number, and after the pass there are as many head tensors as head layers. -/
structure HeadsInPlace (b : Blueprint) : Prop where
  found : ∀ (weights : WeightBuffer) (count : Nat) (p : Progress) (d : Draft) (l : Layer)
    (kind : HeadKind) (place : Nat), reach b count { cursor := .start weights } = .ok p d →
      b.layers[count]? = some l → l.kind = .head kind place → place < p.heads.length
  counted : ∀ (weights : WeightBuffer) (input : TensorId) (p : Progress) (d : Draft),
    body b { cursor := .start weights } = .ok (input, p) d → p.headTensors.length = b.headLayerCount

theorem headsInPlace (hb : b.Numbered) : HeadsInPlace b where
  found weights count p d l kind place hreach hl hkind := by
    obtain ⟨_, _, -, hreach⟩ := Emit.bind_eq_ok.mp hreach
    obtain ⟨_, _, -, hpass⟩ := Emit.bind_eq_ok.mp hreach
    rw [(pass_counts hpass).1]
    exact hb l (List.mem_of_getElem? hl) kind place hkind
  counted weights input p d hbody := by
    obtain ⟨_, _, -, -, hpass⟩ := body_eq_ok.mp hbody
    rw [(pass_counts hpass).2, List.length_nil, Nat.zero_add]
    rfl

end Build

/-! ## Which outputs there are -/

namespace Interpreter

variable {weights : WeightBuffer} {s s' : State}

/-- A head keeps the tensor that it reads; other layers keep none. -/
theorem step_headTensors {kind : LayerKind} (h : step weights s kind = some s') :
    s'.headTensors.length = s.headTensors.length + if kind.isHead then 1 else 0 := by
  unfold step at h
  simp only [Option.bind_eq_bind, Option.bind_eq_some_iff] at h
  obtain ⟨slice, -, y, -, h⟩ := h
  cases kind with
  | head kind place =>
    simp only [State.place, Option.bind_eq_bind, Option.bind_eq_some_iff] at h
    obtain ⟨head, -, h⟩ := h
    obtain rfl := Option.some.inj h
    simp [LayerKind.isHead]
  | _ =>
    obtain rfl := Option.some.inj h
    rfl

theorem foldlM_headTensors {layers : List Layer}
    (h : layers.foldlM (fun s l => step weights s l.kind) s = some s') :
    s'.headTensors.length = s.headTensors.length + headLayers layers := by
  induction layers generalizing s with
  | nil =>
    obtain rfl := Option.some.inj h
    rfl
  | cons l rest ih =>
    rw [List.foldlM_cons, Option.bind_eq_bind, Option.bind_eq_some_iff] at h
    obtain ⟨s₁, hstep, hrest⟩ := h
    rw [ih hrest, step_headTensors hstep, headLayers_cons, Nat.add_assoc]

/-- The names of the outputs. -/
theorem run_names {b : Blueprint} {input : Tensor} {outputs : List (String × Tensor)}
    (h : run b weights input = some outputs) :
    outputs.map (·.1) =
      if b.headLayerCount = 0 then ["output"] else ["boxes", "classes", "scores"] := by
  unfold run at h
  rw [Option.bind_eq_bind, Option.bind_eq_some_iff] at h
  obtain ⟨s, hs, h⟩ := h
  have hcount : s.headTensors.length = b.headLayerCount := by
    rw [foldlM_headTensors hs, List.length_nil, Nat.zero_add]
    rfl
  unfold Interpreter.outputs at h
  split at h
  · next hnone =>
    rw [hnone, List.length_nil] at hcount
    obtain rfl := Option.some.inj h
    rw [if_pos hcount.symm]
    rfl
  · next hsome =>
    rw [Option.bind_eq_bind, Option.bind_eq_some_iff] at h
    obtain ⟨r, -, h⟩ := h
    obtain rfl := Option.some.inj h
    rw [if_neg fun hzero => hsome (List.eq_nil_of_length_eq_zero (hcount.trans hzero))]
    rfl

end Interpreter

/-! ## Runs succeed -/

/-- On every input of its extents, **all tensors** of a compiled model have values, and those under
the names of the outputs are what the interpreter returns. -/
theorem Model.compile_values {b : Blueprint} {weights : WeightBuffer} {m : Model} {input : Tensor}
    (hb : b.Checked) (hcompiled : compile b weights = .ok m) (hsizes : m.graph.WithinSizes)
    (hinput : input.dims = m.inputDims) :
    ∃ (G : Graph) (names : List (String × TensorId)) (vs values : List Tensor),
      m.graph = G.named names ∧ G.Reachable ∧ G.inputs = [(inputName, 0)] ∧
      G.outputs = [] ∧ G.Valued [(inputName, input)] vs ∧ Reads vs (names.map (·.2)) values ∧
      Interpreter.run b weights input =
        some (((names.map (·.1)).zip values).mergeSort fun x y => x.1 ≤ y.1) := by
  obtain ⟨G, names, shape, hgraph, hdims, hstart, hreachable, hanchored, hinputs,
    houtputs, hvalue⟩ :=
    compile_outputs hb hcompiled
  have hsizes : G.WithinSizes := by
    rw [hgraph] at hsizes
    exact ⟨hsizes.elements, hsizes.exact⟩
  obtain ⟨vs, hv⟩ := hreachable.valued hsizes hanchored
    (Build.start_binds hinputs hstart (hinput.trans hdims))
  obtain ⟨values, hvalues, hinterpreted⟩ := hvalue ⟨hv, hsizes⟩
  exact ⟨G, names, vs, values, hgraph, hreachable, hinputs, houtputs, hv, hvalues, hinterpreted⟩

/-- A compiled model **runs** on every input of its extents, as the interpreter does. -/
theorem Model.run_of_checked {b : Blueprint} {weights : WeightBuffer} {m : Model} {input : Tensor}
    (hb : b.Checked) (hcompiled : compile b weights = .ok m) (hsizes : m.graph.WithinSizes)
    (hinput : input.dims = m.inputDims) :
    ∃ outputs, (m.run input).outputs = .ok outputs ∧
      Interpreter.run b weights input = some outputs := by
  obtain ⟨G, names, vs, values, hgraph, hreachable, hinputs, houtputs, hv, hvalues, hinterpreted⟩ :=
    compile_values hb hcompiled hsizes hinput
  refine ⟨_, ?_, hinterpreted⟩
  rw [run, if_pos hinput, hgraph]
  exact Build.run_named hreachable hv hinputs houtputs hvalues

namespace Blueprint

/-- **What compiles can be run.** Take a blueprint that has been read from blocks, with its own
batch size or any positive one. In building it, no head is missing and none is left over. And when
it has been compiled with some weights, such that all sizes are in range, a run on any input of the
declared extents succeeds and returns boxes, classes and scores if some block describes a head, and
one output otherwise. -/
theorem serves {blocks : List Block} {name : String} {b b' : Blueprint} {batch : Option Nat}
    (hread : ofBlocks blocks name = .ok b) (hbatch : b.withBatch batch = .ok b') :
    Build.HeadsInPlace b' ∧
      ∀ (weights : WeightBuffer) (m : Model), Model.compile b' weights = .ok m →
        m.graph.WithinSizes → ∀ input : Tensor, input.dims = m.inputDims →
          ∃ outputs, (m.run input).outputs = .ok outputs ∧
            outputs.map (·.1) =
              if blocks.any Block.isHead then ["boxes", "classes", "scores"] else ["output"] := by
  obtain ⟨hnumbered, -⟩ := heads_of_ofBlocks hread
  have hchecked := (checked_of_ofBlocks hread).withBatch hbatch
  obtain ⟨n, rfl⟩ := withBatch_eq_ok hbatch
  refine ⟨Build.headsInPlace hnumbered, fun weights m hcompiled hsizes input hinput => ?_⟩
  obtain ⟨outputs, hrun, hinterpreted⟩ := Model.run_of_checked hchecked hcompiled hsizes hinput
  refine ⟨outputs, hrun, (Interpreter.run_names hinterpreted).trans ?_⟩
  have hzero := headLayerCount_eq_zero_iff hread
  by_cases hheads : blocks.any Block.isHead = true
  · rw [if_pos hheads]
    exact if_neg fun h => hzero.mp h hheads
  · rw [if_neg hheads]
    exact if_pos (hzero.mpr hheads)

/-- A description of one head on an image of one position. -/
def spotBlocks : List Block :=
  [{ kind := "net", line := 1
     assignments := ⟨[("channels", "6"), ("height", "1"), ("width", "1")], by decide⟩ },
    { kind := "yolo", line := 5
      assignments := ⟨[("anchors", "1,1"), ("classes", "1"), ("num", "1")], by decide⟩ }]

/-- The head that it describes. -/
def spotHead : Head where
  name := "yolo_0"
  kind := .yolo
  boxes := 1
  classes := 1
  anchors := [.one, .one]
  mask := []
  centreScale := .one

/-- The blueprint that is read from it, with the given batch size. -/
def spotBlueprint (batch : Nat) : Blueprint where
  name := "spot"
  input := { width := 1, height := 1, channels := 6, batch }
  layers := [⟨0, .head .yolo 0⟩]
  heads := [spotHead]
  classes := 1
  activatedHeads := false

theorem ofBlocks_spotBlocks : ofBlocks spotBlocks "spot" = .ok (spotBlueprint 1) :=
  Outcome.toOption_eq_some.mp (by decide +kernel)

theorem withBatch_spotBlueprint : (spotBlueprint 1).withBatch (some 2) = .ok (spotBlueprint 2) :=
  Outcome.toOption_eq_some.mp (by decide +kernel)

/-- On batches of two images it compiles to the input and the decode node, and its sizes
are in range. -/
theorem compile_spotBlueprint :
    ∃ m, Model.compile (spotBlueprint 2) #[] = .ok m ∧ m.inputDims = [2, 6, 1, 1] ∧
      m.graph.WithinSizes ∧ m.graph.nodes.toList = [⟨.input "data", [], [0]⟩,
        ⟨.decode ⟨1, 1, 1, false, [{ spotHead with gridWidth := 1, gridHeight := 1 }], 1⟩,
          [0], [1, 2, 3]⟩] := by
  have hgraph : (Model.compile (spotBlueprint 2) #[]).toOption.map (fun m =>
      (m.inputDims, m.graph.tensors.toList.map (·.shape.dims), m.graph.nodes.toList)) =
      some ([2, 6, 1, 1], [[2, 6, 1, 1], [2, 1, 4], [2, 1, 1], [2, 1, 1]],
        [⟨.input "data", [], [0]⟩,
          ⟨.decode ⟨1, 1, 1, false, [{ spotHead with gridWidth := 1, gridHeight := 1 }], 1⟩,
            [0], [1, 2, 3]⟩]) := by
    decide +kernel
  obtain ⟨m, hm, hfound⟩ := Option.map_eq_some_iff.mp hgraph
  obtain ⟨hdims, hfound⟩ := Prod.mk.inj hfound
  obtain ⟨htensors, hnodes⟩ := Prod.mk.inj hfound
  have hsizes : m.graph.WithinSizes := by
    refine .of_eq htensors hnodes (by decide) fun node hnode operands _ => ?_
    rcases List.mem_pair.mp hnode with rfl | rfl
    · trivial
    · exact ⟨by decide, by decide⟩
  exact ⟨m, Outcome.toOption_eq_some.mp hm, hdims, hsizes, hnodes⟩

theorem serves_spotBlueprint :
    ∃ m outputs, Model.compile (spotBlueprint 2) #[] = .ok m ∧
      (m.run (Tensor.zeros [2, 6, 1, 1])).outputs = .ok outputs ∧
      outputs.map (·.1) = ["boxes", "classes", "scores"] := by
  obtain ⟨m, hcompiled, hdims, hsizes, -⟩ := compile_spotBlueprint
  obtain ⟨outputs, hrun, hnames⟩ := (serves ofBlocks_spotBlocks withBatch_spotBlueprint).2 #[] m
    hcompiled hsizes (Tensor.zeros [2, 6, 1, 1]) hdims.symm
  exact ⟨m, outputs, hcompiled, hrun, hnames⟩

end Blueprint

end GridNet
