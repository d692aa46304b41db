import GridNet.Proofs.OperationSoundness
import GridNet.Proofs.Valuation

/-!
# Recorded graphs run

A graph that calls of the recorder have led to can be evaluated on every binding of its inputs to
tensors of the declared extents. The valuation is built along with the graph: a node that has passed
the checks of its kind finds operands of the recorded extents, so its operation succeeds, and the
values of the tensors in front of it do not change.

* `Graph.WithinSizes` — sizes and element counts that an array can have.
* `Graph.Binds` — values for all declared inputs.
* `Graph.Reachable.valued` — every reachable graph has a valuation.
* `Graph.runNamed_recorded` — its runs succeed, with results of the recorded extents.
-/

namespace GridNet

/-! ## Appending to a valuation -/

theorem Reads.append {vs : List Tensor} {ids : List TensorId} {values : List Tensor}
    (h : Reads vs ids values) (results : List Tensor) : Reads (vs ++ results) ids values :=
  h.imp fun _ _ ht => List.getElem?_append_left (List.getElem?_eq_some_iff.mp ht).1 ▸ ht

/-- The values at the end of a valuation are read by the numbers at the end. -/
theorem Reads.appended (vs results : List Tensor) :
    Reads (vs ++ results) ((List.range results.length).map (vs.length + ·)) results := by
  refine List.forall₂_iff_get.mpr ⟨by simp, fun i hi hr => ?_⟩
  simp [List.getElem?_append_right, List.getElem?_eq_getElem hr]

/-- Tensors that exist have values. -/
theorem Reads.exists_of_lt {vs : List Tensor} {ids : List TensorId}
    (h : ∀ t ∈ ids, t < vs.length) : ∃ values, Reads vs ids values := by
  induction ids with
  | nil => exact ⟨[], .nil⟩
  | cons t rest ih =>
    obtain ⟨values, hvalues⟩ := ih fun u hu => h u (List.mem_cons_of_mem _ hu)
    have ht := h t List.mem_cons_self
    exact ⟨vs[t] :: values, .cons (List.getElem?_eq_getElem ht) hvalues⟩

theorem Node.Computed.append {feeds : Feeds} {vs : List Tensor} {node : Node}
    (h : node.Computed feeds vs) (results : List Tensor) : node.Computed feeds (vs ++ results) := by
  obtain ⟨operands, values, hoperands, hvalues, happly⟩ := h
  exact ⟨operands, values, hoperands.append results, hvalues.append results, happly⟩

namespace Graph

variable {g g' : Graph} {feeds : Feeds} {vs : List Tensor}

/-- **A node with its results**: the values of the tensors in front of it stay. -/
theorem Valued.push (hv : g.Valued feeds vs) {op : Operation} {inputs : List TensorId}
    {shapes : List Shape} {operands results : List Tensor} (hreads : Reads vs inputs operands)
    (happly : op.apply feeds operands (((shapes.head?).map (·.dims)).getD []) = .ok results)
    (hdims : results.map (·.dims) = shapes.map (·.dims))
    (hsmall : ∀ s ∈ shapes, s.elements < Word.signedModulus) :
    (g.push op inputs shapes).1.Valued feeds (vs ++ results) where
  shapes := by
    rw [push_tensors, List.map_append, List.map_append, hv.shapes, hdims, List.map_map]
    rfl
  small v hmem := by
    rcases List.mem_append.mp hmem with hmem | hmem
    · exact hv.small v hmem
    · have : v.dims ∈ shapes.map (·.dims) := hdims ▸ List.mem_map_of_mem hmem
      obtain ⟨s, hs, hd⟩ := List.mem_map.mp this
      rw [v.size_eq, ← hd]
      exact hsmall s hs
  computed node hnode := by
    rw [push_nodes] at hnode
    rcases List.mem_append.mp hnode with hnode | hnode
    · exact (hv.computed node hnode).append results
    · obtain rfl := List.mem_singleton.mp hnode
      have hlength : shapes.length = results.length := by
        simpa using (congrArg List.length hdims).symm
      refine ⟨operands, results, hreads.append results, ?_, ?_⟩
      · rw [hlength, ← hv.length_eq]
        exact Reads.appended vs results
      · rwa [← List.head?_map, hdims, List.head?_map]

/-- The extents of values that are read are the recorded ones. -/
theorem Valued.spans (hv : g.Valued feeds vs) {ids : List TensorId} {values : List Tensor}
    (h : Reads vs ids values) : List.Forall₂ (g.Spans · ·.dims) ids values :=
  h.imp fun _ _ ht => hv.shapeOf ht

/-! ## Sizes, anchors and inputs of a whole graph -/

/-- **Sizes in range**: no recorded tensor has more elements than an array holds, and what the
recorder computed for each node was exact. -/
structure WithinSizes (g : Graph) : Prop where
  elements : ∀ e ∈ g.tensors.toList, e.shape.elements < Word.signedModulus
  exact : ∀ node ∈ g.nodes.toList, ∀ operands, List.Forall₂ g.Spans node.inputs operands →
    node.operation.Exact operands

/-- The extents of a tensor stand in the list of all extents. -/
theorem Spans.getElem? {g : Graph} {t : TensorId} {dims : List Nat} (h : g.Spans t dims) :
    (g.tensors.toList.map (·.shape.dims))[t]? = some dims := by
  obtain ⟨s, hs, rfl⟩ := h
  obtain ⟨e, he, rfl⟩ := Option.map_eq_some_iff.mp (shapeOf_eq_ok.mp hs)
  rw [List.getElem?_map, Array.getElem?_toList, he]
  rfl

/-- Sizes are in range where the tensors are small and the nodes are exact on them. -/
theorem WithinSizes.of_eq {g : Graph} {extents : List (List Nat)} {nodes : List Node}
    (htensors : g.tensors.toList.map (·.shape.dims) = extents) (hnodes : g.nodes.toList = nodes)
    (hsmall : ∀ dims ∈ extents, volume dims < Word.signedModulus)
    (hexact : ∀ node ∈ nodes, ∀ operands,
      List.Forall₂ (fun t dims => extents[t]? = some dims) node.inputs operands →
        node.operation.Exact operands) : g.WithinSizes where
  elements _ he := hsmall _ (htensors ▸ List.mem_map_of_mem (f := (·.shape.dims)) he)
  exact node hnode operands hoperands := hexact node (hnodes ▸ hnode) operands
    (hoperands.imp fun _ _ h => htensors ▸ h.getElem?)

/-- Every decode node has anchors and values for all its boxes. -/
def Anchored (g : Graph) : Prop := ∀ node ∈ g.nodes.toList, node.operation.Anchored

/-- Every declared input is bound to a tensor of the declared extents. -/
def Binds (g : Graph) (feeds : Feeds) : Prop :=
  ∀ name t, (name, t) ∈ g.inputs → ∃ v, feeds.value? name = some v ∧ g.Spans t v.dims

theorem Within.spans_iff (h : g.Within g') {t : TensorId} (ht : t < g.tensors.size)
    {dims : List Nat} : g'.Spans t dims ↔ g.Spans t dims := by
  simp only [Spans, h.shapeOf_eq ht]

theorem Within.spans (h : g.Within g') {t : TensorId} {dims : List Nat} (hspans : g.Spans t dims) :
    g'.Spans t dims := by
  obtain ⟨s, hs, hdims⟩ := hspans
  exact ⟨s, h.shapeOf hs, hdims⟩

section Push

variable {op : Operation} {inputs : List TensorId} {shapes : List Shape}

/-- Sizes in range stay so when the last node is taken away. -/
theorem WithinSizes.of_push (h : (g.push op inputs shapes).1.WithinSizes) : g.WithinSizes where
  elements e he := h.elements e (by simpa using .inl (by simpa using he))
  exact node hnode operands hoperands := h.exact node (by simpa using .inl (by simpa using hnode))
    operands (hoperands.imp fun _ _ => (within_push _ _ _ _).spans)

theorem WithinSizes.pushed_shapes (h : (g.push op inputs shapes).1.WithinSizes) :
    ∀ s ∈ shapes, s.elements < Word.signedModulus := fun s hs =>
  h.elements ⟨s, g.nodes.size⟩ (by
    rw [push_tensors]
    exact List.mem_append_right _ (List.mem_map.mpr ⟨s, hs, rfl⟩))

theorem mem_push_nodes : ⟨op, inputs, (List.range shapes.length).map (g.tensors.size + ·)⟩ ∈
    (g.push op inputs shapes).1.nodes.toList := by
  rw [push_nodes]
  exact List.mem_append_right _ (List.mem_singleton.mpr rfl)

theorem Anchored.of_push (h : (g.push op inputs shapes).1.Anchored) : g.Anchored :=
  fun node hnode => h node (by
    rw [push_nodes]
    exact List.mem_append_left _ hnode)

theorem Binds.of_push (hg : g.WellFormed) (h : (g.push op inputs shapes).1.Binds feeds) :
    g.Binds feeds := fun name t ht => by
  obtain ⟨v, hv, hspans⟩ := h name t ht
  exact ⟨v, hv, ((within_push _ _ _ _).spans_iff (hg.declared _ ht)).mp hspans⟩

end Push

/-- The shape of the first result of a new node. -/
theorem shapeOf_pushed (g : Graph) (op : Operation) (inputs : List TensorId) (shape : Shape)
    {rest : List Shape} :
    (g.push op inputs (shape :: rest)).1.shapeOf g.tensors.size = .ok shape := by
  rw [shapeOf_eq_ok, ← Array.getElem?_toList, push_tensors]
  simp

/-! ## Building the valuation -/

/-- A checked node has its results. -/
theorem Valued.node {op : Operation} {inputs : List TensorId} {shapes : List Shape}
    (hv : g.Valued feeds vs) (haccepts : g.Accepts op inputs shapes)
    (hsizes : (g.push op inputs shapes).1.WithinSizes)
    (hanchored : (g.push op inputs shapes).1.Anchored) :
    ∃ results, (g.push op inputs shapes).1.Valued feeds (vs ++ results) := by
  obtain ⟨operands, hreads⟩ := Reads.exists_of_lt fun t ht =>
    hv.length_eq ▸ haccepts.inputs_lt t ht
  have hspans := hv.spans hreads
  obtain ⟨results, happly, hdims⟩ := haccepts.apply_ok feeds hspans (hanchored _ mem_push_nodes)
  exact ⟨results, hv.push hreads happly hdims hsizes.pushed_shapes⟩

/-- A declared input has the value that is bound to it. -/
theorem Valued.input (hv : g.Valued feeds vs) {name : String} {shape : Shape} {v : Tensor}
    (hname : feeds.value? name = some v) (hdims : v.dims = shape.dims)
    (hsizes : (g.push (.input name) [] [shape]).1.WithinSizes) :
    (g.push (.input name) [] [shape]).1.Valued feeds (vs ++ [v]) := by
  refine hv.push .nil ?_ (by simp [hdims]) hsizes.pushed_shapes
  simp only [Operation.apply, hname]
  rfl

/-- **Every reachable graph has a valuation.** -/
theorem Reachable.valued (hg : g.Reachable) (hsizes : g.WithinSizes) (hanchored : g.Anchored)
    (hfeeds : g.Binds feeds) : ∃ vs, g.Valued feeds vs := by
  induction hg with
  | empty =>
    exact ⟨[], rfl, fun _ h => absurd h List.not_mem_nil, fun _ h => by simp [Graph.empty] at h⟩
  | @node g op inputs shapes hg haccepts ih =>
    obtain ⟨vs, hv⟩ := ih hsizes.of_push hanchored.of_push (hfeeds.of_push hg.wellFormed)
    obtain ⟨results, hresults⟩ := hv.node haccepts hsizes hanchored
    exact ⟨vs ++ results, hresults⟩
  | @input g name shape hg _ ih =>
    have hsizes : (g.push (.input name) [] [shape]).1.WithinSizes := ⟨hsizes.elements, hsizes.exact⟩
    have hold : (g.push (.input name) [] [shape]).1.Binds feeds := fun n t ht =>
      hfeeds n t (List.mem_append_left _ ht)
    obtain ⟨vs, hv⟩ := ih hsizes.of_push (Anchored.of_push hanchored) (hold.of_push hg.wellFormed)
    obtain ⟨v, hname, hspans⟩ := hfeeds name g.tensors.size (by simp)
    have hdims := (spans_iff (shapeOf_pushed g (.input name) [] shape)).mp hspans
    obtain ⟨vs', hv'⟩ : ∃ vs', (g.push (.input name) [] [shape]).1.Valued feeds vs' :=
      ⟨vs ++ [v], hv.input hname hdims hsizes⟩
    exact ⟨vs', hv'.shapes, hv'.small, hv'.computed⟩
  | output _ _ _ ih =>
    obtain ⟨vs, hv⟩ := ih ⟨hsizes.elements, hsizes.exact⟩ hanchored hfeeds
    exact ⟨vs, hv.shapes, hv.small, hv.computed⟩

/-! ## Runs -/

/-- What is observed of a node: one value for each of its outputs, of the recorded extents. -/
theorem Valued.observations (hv : g.Valued feeds vs) {node : Node} (h : node.Computed feeds vs) :
    (node.observations vs).map (fun o => (o.node, o.id)) = node.outputs.map (node, ·) ∧
      ∀ o ∈ node.observations vs, g.Spans o.id o.value.dims := by
  obtain ⟨_, results, _, hresults, -⟩ := h
  refine ⟨?_, fun o ho => ?_⟩
  · unfold Node.observations
    generalize node.outputs = outputs at hresults
    induction hresults with
    | nil => rfl
    | cons h _ ih => simp [h, ih]
  · obtain ⟨t, -, ht⟩ := List.mem_filterMap.mp ho
    obtain ⟨v, hget, rfl⟩ := Option.map_eq_some_iff.mp ht
    exact hv.shapeOf hget

/-- **Runs succeed.** Take any calls of the recorder, of which some may have failed, such that all
sizes are in range and all decode nodes have their anchors. On every binding of the declared inputs
the run returns its outputs; every node makes one tensor for each of its outputs, in order, and each
of these has the extents that were recorded for it. -/
theorem runNamed_recorded (calls : List Recording) (feeds : Feeds)
    (hsizes : (recorded calls).WithinSizes) (hanchored : (recorded calls).Anchored)
    (hfeeds : (recorded calls).Binds feeds) :
    (∃ outputs, ((recorded calls).runNamed feeds).outputs = .ok outputs) ∧
      (((recorded calls).runNamed feeds).observations.map fun o => (o.node, o.id)) =
        (recorded calls).nodes.toList.flatMap (fun node => node.outputs.map (node, ·)) ∧
      ∀ o ∈ ((recorded calls).runNamed feeds).observations,
        (recorded calls).Spans o.id o.value.dims := by
  have hg := reachable_recorded calls
  obtain ⟨vs, hv⟩ := hg.valued hsizes hanchored hfeeds
  rw [hv.runNamed hg.wellFormed]
  refine ⟨⟨_, rfl⟩, ?_, fun o ho => ?_⟩
  · rw [List.map_flatMap]
    exact List.flatMap_congr fun node hnode => (hv.observations (hv.computed node hnode)).1
  · obtain ⟨node, hnode, ho⟩ := List.mem_flatMap.mp ho
    exact (hv.observations (hv.computed node hnode)).2 o ho

/-- One pixel. -/
def pixelShape : Shape := ⟨[1, 1, 1, 1], by decide, by decide, by decide⟩

/-- An input of one pixel under a kernel of one weight; the activation of a tensor that does not
exist fails. -/
def pixelCalls : List Recording :=
  [.input "pixel" pixelShape,
    .convolution 0 ⟨false, 1, 1, 1, 0, 1, #[.one], none⟩,
    .activation 7 .relu,
    .output 1 "weighted"]

theorem runNamed_pixelCalls :
    ∃ outputs, ((recorded pixelCalls).runNamed
      [("pixel", Tensor.zeros [1, 1, 1, 1])]).outputs = .ok outputs := by
  have hshape : (recorded pixelCalls).shapeOf 0 = .ok pixelShape := by rfl
  have hnodes : (recorded pixelCalls).nodes.toList = [⟨.input "pixel", [], [0]⟩,
      ⟨.convolution ⟨false, 1, 1, 1, 0, 1, #[.one], none⟩, [0], [1]⟩] := by rfl
  have hinputs : (recorded pixelCalls).inputs = [("pixel", 0)] := by rfl
  refine (runNamed_recorded pixelCalls _ ⟨by decide, fun node hnode operands hoperands => ?_⟩
    (fun node hnode => ?_) fun name t ht => ?_).1
  · rw [hnodes] at hnode
    rcases List.mem_pair.mp hnode with rfl | rfl
    · trivial
    · obtain ⟨dims, hd, rfl⟩ := forall₂_singleton_left.mp hoperands
      obtain rfl := (spans_iff hshape).mp hd
      intro n c h w heq
      obtain ⟨rfl, rfl, rfl, rfl⟩ : 1 = n ∧ 1 = c ∧ 1 = h ∧ 1 = w := by
        simpa [pixelShape] using heq
      decide
  · rw [hnodes] at hnode
    rcases List.mem_pair.mp hnode with rfl | rfl <;> trivial
  · rw [hinputs] at ht
    obtain ⟨rfl, rfl⟩ := Prod.mk.inj (List.mem_singleton.mp ht)
    exact ⟨Tensor.zeros [1, 1, 1, 1], rfl, (spans_iff hshape).mpr rfl⟩

end Graph

end GridNet
