import GridNet.Proofs.Simulation

/-!
# Compiled networks compute what their layers say

A blueprint that has been read from blocks and compiled with its weights can be run on
every input of the declared extents, and the run returns exactly the tensors that reading
the layers one by one gives.

* `Build.pass_heads` — what holds of all heads holds of them after they have been placed.
* `Build.finish_outputs` — the named outputs are those of the interpreter.
* `Model.run_eq_interpreter` — the whole network.
-/

namespace GridNet

/-! ## Named outputs -/

namespace Graph

variable {g : Graph} {feeds : Feeds} {vs : List Tensor}

/-- The graph with further named outputs. -/
def named (g : Graph) (names : List (String × TensorId)) : Graph :=
  { g with outputs := g.outputs ++ names }

theorem WellFormed.named (hg : g.WellFormed) {names : List (String × TensorId)}
    (hnames : ∀ entry ∈ names, entry.2 < g.tensors.size) : (g.named names).WellFormed where
  outputs := hg.outputs
  inputs := hg.inputs
  declared := hg.declared
  marked entry hentry := by
    rcases List.mem_append.mp hentry with hentry | hentry
    · exact hg.marked entry hentry
    · exact hnames entry hentry

theorem Valued.named (hv : g.Valued feeds vs) (names : List (String × TensorId)) :
    (g.named names).Valued feeds vs := ⟨hv.shapes, hv.small, hv.computed⟩

/-- The values under the names of tensors whose values are known. -/
theorem namedValues_eq {values : List Tensor} (h : Reads vs (g.outputs.map (·.2)) values) :
    g.namedValues vs = (g.outputs.map (·.1)).zip values := by
  unfold namedValues
  generalize g.outputs = entries at h
  induction entries generalizing values with
  | nil => rfl
  | cons entry rest ih =>
    obtain ⟨v, others, hv, hothers, rfl⟩ := List.forall₂_cons_left_iff.mp h
    simp [hv, ih hothers]

end Graph

namespace Build

variable {all : List Layer} {b : Blueprint} {p p' : Progress} {d d' : Draft}

/-! ## Heads -/

/-- What holds of all heads, wherever they are placed, holds after the pass. -/
theorem pass_heads {P : Head → Prop} {layers : List Layer}
    (hP : ∀ (h : Head) (width height : Nat), P h →
      P { h with gridWidth := width, gridHeight := height })
    (h : pass all p layers d = .ok p' d') (hheads : ∀ head ∈ p.heads, P head) :
    ∀ head ∈ p'.heads, P head := by
  induction layers generalizing p d with
  | nil =>
    obtain ⟨rfl, -⟩ := Emit.pure_eq_ok.mp h
    exact hheads
  | cons l rest ih =>
    obtain ⟨p₁, d₁, hstep, hrest⟩ := Emit.bind_eq_ok.mp h
    refine ih hrest ?_
    obtain ⟨_, _, -, -, -, -, ⟨_, _, _, -, -, hplace, -⟩ | ⟨-, _, -, -, hsame, -⟩⟩ :=
      step_eq_ok hstep
    · obtain ⟨head, hhead, -, hset⟩ := placeHead_eq_ok hplace
      rw [hset]
      intro h' hh'
      rcases List.mem_or_eq_of_mem_set hh' with hh' | rfl
      · exact hheads h' hh'
      · exact hP head _ _ (hheads head (List.mem_of_getElem? hhead))
    · rw [hsame]
      exact hheads

/-- The decoder of a checked blueprint has anchors and classes for all boxes. -/
theorem decoderOf_anchored (hb : b.Checked) {start : Progress} (hstart : start.heads = b.heads)
    (h : pass all start b.layers d = .ok p d') : (decoderOf b p).Anchored := by
  have hheads : ∀ head ∈ p.heads, head.Checked ∧ head.classes = b.classes :=
    pass_heads (fun _ _ _ hhead => hhead) h
      (hstart ▸ fun head hhead => ⟨hb.anchors head hhead, hb.classes head hhead⟩)
  exact fun head hhead => ⟨(hheads head hhead).2.ge, (hheads head hhead).1⟩

/-! ## After the pass -/

/-- The values of a decode node are what the heads decode to. -/
theorem decode_outputs {g G : Graph} {feeds : Feeds} {vs xs : List Tensor} {decoder : HeadDecoder}
    {ids : List TensorId} {shapes : List Shape} (hG : G.Finished feeds vs) (hxs : Reads vs ids xs)
    (hfront : (g.push (.decode decoder) ids shapes).1.Within G) :
    ∃ r, decoder.decode xs = .ok r ∧
      Reads vs (g.push (.decode decoder) ids shapes).2 [r.boxes, r.scores, r.classes] := by
  obtain ⟨operands, results, hoperands, hresults, -, happly⟩ := hG.valued.pushed hfront
  obtain rfl := hxs.unique hoperands
  obtain ⟨r, hr, hresult⟩ := Outcome.bind_eq_ok.mp happly
  exact ⟨r, hr, Outcome.pure_eq_ok.mp hresult ▸ hresults⟩

theorem sorted_decodedNames (boxes scores classes : Tensor) :
    (decodedNames.zip [boxes, scores, classes]).mergeSort (fun x y => x.1 ≤ y.1) =
      [("boxes", boxes), ("classes", classes), ("scores", scores)] := by
  simp [decodedNames, List.mergeSort, List.MergeSort.Internal.splitInTwo]

/-- **After the pass**, some names are added to a graph in which all values are known as soon as
those of the pass are, and the values under these names are the outputs of the interpreter. -/
theorem finish_outputs {outputs : NetworkOutputs} (h : finish b p d = .ok outputs d')
    (hg : d.graph.Reachable) (hanchored : d.graph.Anchored) (hdecoder : (decoderOf b p).Anchored) :
    ∃ G names, d'.graph = G.named names ∧ d.graph.Within G ∧ G.Reachable ∧ G.Anchored ∧
      G.inputs = d.graph.inputs ∧ G.outputs = d.graph.outputs ∧
      ∀ {feeds vs weights s}, G.Finished feeds vs → Follows weights vs p d s →
        ∃ values, Reads vs (names.map (·.2)) values ∧ Interpreter.outputs b s =
          some (((names.map (·.1)).zip values).mergeSort fun x y => x.1 ≤ y.1) := by
  rcases finish_eq_ok h with ⟨hnone, -, rfl⟩ | ⟨hsome, shapes, hthree, haccepts, -, rfl⟩
  · refine ⟨d.graph, [(featureName, p.previous)], rfl, .refl _, hg, hanchored, rfl, rfl,
      fun {_ _ _ s} _ hs => ⟨[s.current], .cons hs.current .nil, ?_⟩⟩
    have htensors := hs.headTensors
    rw [hnone] at htensors
    rw [Interpreter.outputs, List.forall₂_nil_left_iff.mp htensors]
    simp
  · refine ⟨(d.graph.push (.decode (decoderOf b p)) p.headTensors shapes).1, _, rfl,
      Graph.within_push _ _ _ _, hg.node haccepts, ?_, rfl, rfl, fun {_ _ _ s} hG hs => ?_⟩
    · intro node hnode
      rw [Graph.push_nodes] at hnode
      rcases List.mem_append.mp hnode with hnode | hnode
      · exact hanchored node hnode
      · rw [List.mem_singleton.mp hnode]
        exact hdecoder
    · obtain ⟨r, hr, hvalues⟩ := decode_outputs hG hs.headTensors (.refl _)
      have hlength := hvalues.length_eq
      refine ⟨[r.boxes, r.scores, r.classes], ?_, ?_⟩
      · rwa [List.map_snd_zip (by simp [hlength, decodedNames])]
      · rw [List.map_fst_zip (by simp [hlength, decodedNames]), sorted_decodedNames,
          Interpreter.outputs]
        split
        · next hempty =>
          have htensors := hs.headTensors
          rw [hempty] at htensors
          exact absurd (List.forall₂_nil_right_iff.mp htensors) hsome
        · rw [hs.heads, show HeadDecoder.ofHeads _ _ _ _ _ = decoderOf b p from rfl]
          dsimp only
          rw [hr]
          rfl

/-! ## Whole networks -/

/-- The graph of a network with an input and no layer. -/
def startGraph (shape : Shape) : Graph :=
  { (Graph.empty.push (.input inputName) [] [shape]).1 with inputs := [(inputName, 0)] }

theorem start_eq_ok {weights : WeightBuffer} {input : TensorId} {shape : Shape}
    (h : Emit.record (·.addInput inputName shape) { cursor := .start weights } = .ok input d) :
    input = 0 ∧ d = { graph := startGraph shape, cursor := .start weights } := by
  obtain ⟨g, hg, rfl⟩ := Emit.record_eq_ok.mp h
  obtain ⟨-, hg⟩ := Graph.addInput_eq_ok hg
  obtain ⟨rfl, rfl⟩ := Prod.mk.inj hg
  exact ⟨rfl, rfl⟩

theorem startGraph_shapeOf (shape : Shape) : (startGraph shape).shapeOf 0 = .ok shape := rfl

theorem startGraph_reachable (shape : Shape) : (startGraph shape).Reachable :=
  Graph.Reachable.empty.input fun _ h => absurd h List.not_mem_nil

theorem startGraph_anchored (shape : Shape) : (startGraph shape).Anchored := by
  intro node hnode
  obtain rfl := List.mem_singleton.mp hnode
  trivial

/-- The value of the input is what is bound to it. -/
theorem start_value {G : Graph} {vs : List Tensor} {shape : Shape} {x : Tensor}
    (hv : G.Valued [(inputName, x)] vs) (hfront : (startGraph shape).Within G) :
    vs[0]? = some x := by
  have hpushed : (Graph.empty.push (.input inputName) [] [shape]).1.Within G :=
    ⟨hfront.nodes, hfront.tensors⟩
  obtain ⟨operands, results, -, hresults, -, happly⟩ := hv.pushed hpushed
  have hbound : Feeds.value? [(inputName, x)] inputName = some x := by simp [Feeds.value?]
  simp only [Operation.apply, hbound, Outcome.pure_eq_ok] at happly
  rw [← happly] at hresults
  exact (List.forall₂_cons.mp hresults).1

/-- The input is declared with the extents of the network. -/
theorem start_binds {G : Graph} {shape : Shape} {x : Tensor} (hinputs : G.inputs = [(inputName, 0)])
    (hfront : (startGraph shape).Within G) (hx : x.dims = shape.dims) :
    G.Binds [(inputName, x)] := by
  intro name t ht
  rw [hinputs] at ht
  obtain ⟨rfl, rfl⟩ := Prod.mk.inj (List.mem_singleton.mp ht)
  exact ⟨x, by simp [Feeds.value?], shape, hfront.shapeOf (startGraph_shapeOf shape), hx⟩

/-- A run of a graph with the input of a network. -/
theorem run_named {G : Graph} {vs values : List Tensor} {x : Tensor}
    {names : List (String × TensorId)} (hg : G.Reachable) (hv : G.Valued [(inputName, x)] vs)
    (hinputs : G.inputs = [(inputName, 0)]) (houtputs : G.outputs = [])
    (hvalues : Reads vs (names.map (·.2)) values) :
    ((G.named names).run x).outputs =
      .ok (((names.map (·.1)).zip values).mergeSort fun x y => x.1 ≤ y.1) := by
  have hnames : ∀ entry ∈ names, entry.2 < G.tensors.size := by
    intro entry hentry
    obtain ⟨i, hi, hget⟩ := List.getElem_of_mem (List.mem_map_of_mem (f := (·.2)) hentry)
    have hvalue := (List.forall₂_iff_get.mp hvalues).2 i hi (hvalues.length_eq ▸ hi)
    rw [List.get_eq_getElem, hget] at hvalue
    exact hv.length_eq ▸ (List.getElem?_eq_some_iff.mp hvalue).1
  have hall : (G.named names).outputs = names := by rw [Graph.named, houtputs, List.nil_append]
  have hrun : (G.named names).run x = (G.named names).runNamed [(inputName, x)] := by
    unfold Graph.run
    rw [show (G.named names).inputs = [(inputName, 0)] from hinputs]
  rw [hrun, (hv.named names).runNamed (hg.wellFormed.named hnames),
    Graph.namedValues_eq (hall ▸ hvalues), hall]

end Build

namespace Model

variable {b : Blueprint} {weights : WeightBuffer} {m : Model}

/-- **A compiled model** is a graph with named outputs. As soon as all values of the graph are
known, those under the names are the outputs of the interpreter. -/
theorem compile_outputs (hb : b.Checked) (h : compile b weights = .ok m) :
    ∃ G names shape, m.graph = G.named names ∧ m.inputDims = shape.dims ∧
      (Build.startGraph shape).Within G ∧ G.Reachable ∧ G.Anchored ∧
      G.inputs = [(inputName, 0)] ∧ G.outputs = [] ∧
      ∀ {x vs}, G.Finished [(inputName, x)] vs →
        ∃ values, Reads vs (names.map (·.2)) values ∧ Interpreter.run b weights x =
          some (((names.map (·.1)).zip values).mergeSort fun x y => x.1 ≤ y.1) := by
  unfold compile at h
  split at h
  · next built dend hnetwork =>
    obtain rfl := (Except.ok.inj h).symm
    obtain ⟨start, p, dpass, hbody, -, hclose⟩ := Build.network_eq_ok.mp hnetwork
    obtain ⟨shape, d₀, hshape, hdeclared, hpass⟩ := Build.body_eq_ok.mp hbody
    obtain ⟨rfl, rfl⟩ := Build.start_eq_ok hdeclared
    obtain ⟨marked, hfinish, -⟩ := Build.close_eq_ok hclose
    have hgrows := Build.pass_extends _ _ _ _ _ hpass
    obtain ⟨hinputs, houtputs⟩ := hgrows.named
    obtain ⟨G, names, hgraph, hfront, hreachable, hanchored, hinputs', houtputs', hvalue⟩ :=
      Build.finish_outputs hfinish (hgrows.reachable (Build.startGraph_reachable shape))
        (hgrows.anchored (Build.startGraph_anchored shape))
        (Build.decoderOf_anchored hb rfl hpass)
    have hstart := hgrows.within.trans hfront
    refine ⟨G, names, shape, hgraph, (Shape.ofDims_eq_ok.mp hshape).symm, hstart, hreachable,
      hanchored, hinputs'.trans hinputs, houtputs'.trans houtputs, fun {x vs} hG => ?_⟩
    have hfollows : Build.Follows weights vs { previous := 0, heads := b.heads }
        { graph := Build.startGraph shape, cursor := .start weights }
        { current := x, heads := b.heads } :=
      ⟨.nil, Build.start_value hG.valued hstart, rfl, rfl, rfl, .nil⟩
    obtain ⟨s, hs, hlast⟩ := Build.pass_follows hG hfollows hpass hfront
    obtain ⟨values, hvalues, houtput⟩ := hvalue hG hlast
    refine ⟨values, hvalues, ?_⟩
    rw [Interpreter.run, hs]
    exact houtput
  · cases h

/-- **Compiler correctness.** Take a blueprint that has been read from blocks, and weights with
which it compiles, such that all sizes are in range. On every input of the declared extents, a run
of the compiled model succeeds and returns the tensors that the interpreter reads off the layers. -/
theorem run_eq_interpreter {blocks : List Block} {name : String} {input : Tensor}
    (hread : Blueprint.ofBlocks blocks name = .ok b) (hcompiled : compile b weights = .ok m)
    (hsizes : m.graph.WithinSizes) (hinput : input.dims = m.inputDims) :
    ∃ outputs, (m.run input).outputs = .ok outputs ∧
      Interpreter.run b weights input = some outputs := by
  obtain ⟨G, names, shape, hgraph, hdims, hstart, hreachable, hanchored, hinputs,
    houtputs, hvalue⟩ :=
    compile_outputs (Blueprint.checked_of_ofBlocks hread) hcompiled
  have hsizes : G.WithinSizes := by
    rw [hgraph] at hsizes
    exact ⟨hsizes.elements, hsizes.exact⟩
  obtain ⟨vs, hv⟩ := hreachable.valued hsizes hanchored
    (Build.start_binds hinputs hstart (hinput.trans hdims))
  obtain ⟨values, hvalues, hinterpreted⟩ := hvalue ⟨hv, hsizes⟩
  refine ⟨_, ?_, hinterpreted⟩
  rw [run, if_pos hinput, hgraph]
  exact Build.run_named hreachable hv hinputs houtputs hvalues

/-- A description of a convolution with a bias and one weight, and of the sum of what it makes with
itself. -/
def residualBlocks : List Block :=
  [{ kind := "net", line := 1
     assignments := ⟨[("channels", "1"), ("height", "1"), ("width", "1")], by decide⟩ },
    { kind := "convolutional", line := 5
      assignments := ⟨[("activation", "leaky"), ("filters", "1"), ("pad", "0"), ("size", "1"),
        ("stride", "1")], by decide⟩ },
    { kind := "shortcut", line := 11, assignments := ⟨[("from", "-1")], by decide⟩ }]

/-- The blueprint that is read from it. -/
def residualBlueprint : Blueprint where
  name := "residual"
  input := { width := 1, height := 1, channels := 1 }
  layers := [⟨0, .convolution ⟨1, 1, 1, 0, 1, false, true, .leaky⟩⟩, ⟨1, .shortcut (-1) .linear⟩]
  heads := []
  classes := 0
  activatedHeads := false

theorem run_eq_interpreter_residualBlueprint :
    ∃ m outputs, compile residualBlueprint #[.zero, .one] = .ok m ∧
      (m.run (Tensor.zeros [1, 1, 1, 1])).outputs = .ok outputs ∧
      Interpreter.run residualBlueprint #[.zero, .one] (Tensor.zeros [1, 1, 1, 1]) =
        some outputs := by
  have hread : Blueprint.ofBlocks residualBlocks "residual" = .ok residualBlueprint :=
    Outcome.toOption_eq_some.mp (by decide +kernel)
  have hgraph : (compile residualBlueprint #[.zero, .one]).toOption.map (fun m =>
      (m.inputDims, m.graph.tensors.toList.map (·.shape.dims), m.graph.nodes.toList)) =
      some ([1, 1, 1, 1], [[1, 1, 1, 1], [1, 1, 1, 1], [1, 1, 1, 1], [1, 1, 1, 1]],
        [⟨.input "data", [], [0]⟩,
          ⟨.convolution ⟨false, 1, 1, 1, 0, 1, #[.one], some #[.zero]⟩, [0], [1]⟩,
          ⟨.activation (.leaky Emit.leakySlope), [1], [2]⟩,
          ⟨.combine .sum, [2, 2], [3]⟩]) := by
    decide +kernel
  obtain ⟨m, hm, hfound⟩ := Option.map_eq_some_iff.mp hgraph
  obtain ⟨hdims, hfound⟩ := Prod.mk.inj hfound
  obtain ⟨htensors, hnodes⟩ := Prod.mk.inj hfound
  have hcompiled := Outcome.toOption_eq_some.mp hm
  have hpixel : ∀ e ∈ m.graph.tensors.toList, e.shape.dims = [1, 1, 1, 1] := fun e he => by
    have := List.mem_map_of_mem (f := (·.shape.dims)) he
    rw [htensors] at this
    simpa using this
  have hspans : ∀ t dims, m.graph.Spans t dims → dims = [1, 1, 1, 1] := by
    rintro t dims ⟨s, hs, rfl⟩
    obtain ⟨e, he, rfl⟩ := Option.map_eq_some_iff.mp (Graph.shapeOf_eq_ok.mp hs)
    rw [← Array.getElem?_toList] at he
    exact hpixel e (List.mem_of_getElem? he)
  have hsizes : m.graph.WithinSizes := by
    refine ⟨fun e he => ?_, fun node hnode operands hoperands => ?_⟩
    · rw [Shape.elements, hpixel e he]
      decide
    · rw [hnodes] at hnode
      simp only [List.mem_cons, List.not_mem_nil, or_false] at hnode
      rcases hnode with rfl | rfl | rfl | rfl
      · trivial
      · obtain ⟨dims, hd, rfl⟩ := forall₂_singleton_left.mp hoperands
        obtain rfl := hspans _ _ hd
        intro n c h w heq
        obtain ⟨rfl, rfl, rfl, rfl⟩ : 1 = n ∧ 1 = c ∧ 1 = h ∧ 1 = w := by simpa using heq
        decide
      · trivial
      · trivial
  have hinput : (Tensor.zeros [1, 1, 1, 1]).dims = m.inputDims := hdims.symm
  obtain ⟨outputs, hrun, hinterpreted⟩ := run_eq_interpreter hread hcompiled hsizes hinput
  exact ⟨m, outputs, hcompiled, hrun, hinterpreted⟩

end Model

end GridNet
