import GridNet.Graph.Evaluation
import GridNet.Proofs.Recording

/-!
# Values for all tensors of a graph

A valuation gives every tensor of a graph a value that fits its node: the results of each node are
what its operation makes of its operands. An evaluation goes through the nodes in their order and
finds exactly these values.

* `Graph.WellFormed` — the numbering of tensors that every call of the recorder keeps.
* `Graph.Valued` — a list of values, one for each tensor, that fits all nodes.
* `Graph.Valued.evaluate` — an evaluation succeeds and computes the valuation.
* `Graph.Valued.runNamed` — a run returns the values of the named outputs.
-/

namespace GridNet

/-- An entry of the front of a list is an entry of the list. -/
theorem getElem?_of_front {α : Type} {front whole : List α} (h : front <+: whole) {i : Nat} {x : α}
    (hx : front[i]? = some x) : whole[i]? = some x := by
  obtain ⟨rest, rfl⟩ := h
  rw [List.getElem?_append_left (List.getElem?_eq_some_iff.mp hx).1]
  exact hx

namespace Graph

variable {g g' g'' : Graph}

/-! ## The order of nodes -/

/-- The results of the nodes are numbered one after the other, and a node reads only results of
nodes in front of it. All names are those of tensors that exist. -/
structure WellFormed (g : Graph) : Prop where
  outputs : g.nodes.toList.flatMap (·.outputs) = List.range g.tensors.size
  inputs : ∀ before node after, g.nodes.toList = before ++ node :: after →
    ∀ t ∈ node.inputs, t ∈ before.flatMap (·.outputs)
  declared : ∀ entry ∈ g.inputs, entry.2 < g.tensors.size
  marked : ∀ entry ∈ g.outputs, entry.2 < g.tensors.size

@[simp] theorem push_nodes (g : Graph) (op : Operation) (inputs : List TensorId)
    (shapes : List Shape) :
    (g.push op inputs shapes).1.nodes.toList = g.nodes.toList ++
      [⟨op, inputs, (List.range shapes.length).map (g.tensors.size + ·)⟩] := by
  simp [push]

@[simp] theorem push_tensors (g : Graph) (op : Operation) (inputs : List TensorId)
    (shapes : List Shape) :
    (g.push op inputs shapes).1.tensors.toList = g.tensors.toList ++
      shapes.map (⟨·, g.nodes.size⟩) := by
  simp [push]

theorem push_tensors_size (g : Graph) (op : Operation) (inputs : List TensorId)
    (shapes : List Shape) :
    (g.push op inputs shapes).1.tensors.size = g.tensors.size + shapes.length := by
  simp [push]

theorem lt_of_shapeOf {t : TensorId} {s : Shape} (h : g.shapeOf t = .ok s) :
    t < g.tensors.size := by
  obtain ⟨e, he, -⟩ := Option.map_eq_some_iff.mp (shapeOf_eq_ok.mp h)
  exact (Array.getElem?_eq_some_iff.mp he).1

/-- The nodes and tensors of the first graph are the **front** of those of the second. -/
structure Within (g g' : Graph) : Prop where
  nodes : g.nodes.toList <+: g'.nodes.toList
  tensors : g.tensors.toList <+: g'.tensors.toList

theorem Within.refl (g : Graph) : g.Within g := ⟨List.prefix_rfl, List.prefix_rfl⟩

theorem Within.trans (h : g.Within g') (h' : g'.Within g'') : g.Within g'' :=
  ⟨h.nodes.trans h'.nodes, h.tensors.trans h'.tensors⟩

theorem within_push (g : Graph) (op : Operation) (inputs : List TensorId) (shapes : List Shape) :
    g.Within (g.push op inputs shapes).1 where
  nodes := by
    rw [push_nodes]
    exact List.prefix_append _ _
  tensors := by
    rw [push_tensors]
    exact List.prefix_append _ _

/-- A tensor of the front has the same shape in both graphs. -/
theorem Within.shapeOf_eq (h : g.Within g') {t : TensorId} (ht : t < g.tensors.size) :
    g'.shapeOf t = g.shapeOf t := by
  have hentry : g'.tensors[t]? = g.tensors[t]? := by
    rw [← Array.getElem?_toList, ← Array.getElem?_toList]
    obtain ⟨rest, hrest⟩ := h.tensors
    rw [← hrest, List.getElem?_append_left (by simpa using ht)]
  rw [shapeOf, shapeOf, entry, entry, hentry]

theorem Within.shapeOf (h : g.Within g') {t : TensorId} {s : Shape} (hs : g.shapeOf t = .ok s) :
    g'.shapeOf t = .ok s := (h.shapeOf_eq (lt_of_shapeOf hs)).trans hs

theorem lt_of_concatDims {axis : Nat} {dims whole : List Nat} {ids : List TensorId}
    (h : concatDims g axis dims ids = .ok whole) : ∀ t ∈ ids, t < g.tensors.size := by
  induction ids generalizing dims with
  | nil => exact fun _ ht => absurd ht List.not_mem_nil
  | cons id rest ih =>
    simp only [concatDims, Outcome.bind_eq_ok] at h
    obtain ⟨s, hs, -, -, _, -, h⟩ := h
    intro t ht
    rcases List.mem_cons.mp ht with rfl | ht
    · exact lt_of_shapeOf hs
    · exact ih h t ht

/-- A recorded node reads tensors that exist. -/
theorem Accepts.inputs_lt {op : Operation} {inputs : List TensorId} {shapes : List Shape}
    (h : g.Accepts op inputs shapes) : ∀ t ∈ inputs, t < g.tensors.size := by
  intro t ht
  cases h with
  | constant _ => exact absurd ht List.not_mem_nil
  | combine ha hb _ =>
    rcases List.mem_pair.mp ht with rfl | rfl
    · exact lt_of_shapeOf ha
    · exact lt_of_shapeOf hb
  | concat hfirst _ hrest =>
    rcases List.mem_cons.mp ht with rfl | ht
    · exact lt_of_shapeOf hfirst
    · exact lt_of_concatDims hrest t ht
  | decode hsources _ =>
    obtain ⟨i, hi, rfl⟩ := List.getElem_of_mem ht
    have hs := Outcome.mapM_eq_ok.mp hsources
    exact lt_of_shapeOf (List.forall₂_iff_get.mp hs |>.2 i hi (hs.length_eq ▸ hi))
  | convolution h | scale h | activation h | slice h | resize h | pool h | reshape h
  | transpose h => exact List.mem_singleton.mp ht ▸ lt_of_shapeOf h

theorem WellFormed.push (hg : g.WellFormed) (op : Operation) {inputs : List TensorId}
    (shapes : List Shape) (hinputs : ∀ t ∈ inputs, t < g.tensors.size) :
    (g.push op inputs shapes).1.WellFormed where
  outputs := by
    rw [push_nodes, push_tensors_size, List.flatMap_append, hg.outputs, List.range_add]
    simp
  inputs before node after h t ht := by
    rw [push_nodes] at h
    rcases List.eq_nil_or_concat after with rfl | ⟨after, last, rfl⟩
    · -- the node is the new one, which reads what was there before
      obtain ⟨rfl, rfl⟩ := List.append_inj' h rfl |>.imp_right List.singleton_inj.mp
      rw [hg.outputs]
      exact List.mem_range.mpr (hinputs t ht)
    · rw [List.concat_eq_append, ← List.cons_append, ← List.append_assoc] at h
      exact hg.inputs before node after (List.append_inj' h rfl).1 t ht
  declared entry h := (hg.declared entry h).trans_le (by simp [push_tensors_size])
  marked entry h := (hg.marked entry h).trans_le (by simp [push_tensors_size])

/-- **Every reachable graph is well-formed.** -/
theorem Reachable.wellFormed (hg : g.Reachable) : g.WellFormed := by
  induction hg with
  | empty =>
    exact ⟨rfl, fun before _ _ h => by simp [Graph.empty] at h,
      fun _ h => absurd h List.not_mem_nil, fun _ h => absurd h List.not_mem_nil⟩
  | node _ haccepts ih => exact ih.push _ _ haccepts.inputs_lt
  | @input g name shape _ _ ih =>
    have h := ih.push (.input name) [shape] fun t (ht : t ∈ []) => absurd ht List.not_mem_nil
    refine ⟨h.outputs, h.inputs, fun entry hentry => ?_, h.marked⟩
    rcases List.mem_append.mp hentry with hentry | hentry
    · exact h.declared entry hentry
    · obtain rfl := List.mem_singleton.mp hentry
      simp [push_tensors_size]
  | output _ ht _ ih =>
    refine ⟨ih.outputs, ih.inputs, ih.declared, fun entry hentry => ?_⟩
    rcases List.mem_append.mp hentry with hentry | hentry
    · exact ih.marked entry hentry
    · obtain rfl := List.mem_singleton.mp hentry
      exact ht

end Graph

/-! ## Valuations -/

/-- `values` are those of the tensors `ids`. -/
def Reads (vs : List Tensor) (ids : List TensorId) (values : List Tensor) : Prop :=
  List.Forall₂ (fun t v => vs[t]? = some v) ids values

/-- What is read is one of the values. -/
theorem Reads.mem {vs : List Tensor} {ids : List TensorId} {values : List Tensor}
    (h : Reads vs ids values) : ∀ v ∈ values, v ∈ vs := by
  intro v hv
  obtain ⟨i, hi, rfl⟩ := List.getElem_of_mem hv
  exact List.mem_of_getElem? ((List.forall₂_iff_get.mp h).2 i (h.length_eq ▸ hi) hi)

/-- The results of a node are what its operation makes of its operands. -/
def Node.Computed (feeds : Feeds) (vs : List Tensor) (node : Node) : Prop :=
  ∃ operands results, Reads vs node.inputs operands ∧ Reads vs node.outputs results ∧
    node.operation.apply feeds operands (((results.head?).map (·.dims)).getD []) = .ok results

/-- What is observed of a node whose results have the given values. -/
def Node.observations (vs : List Tensor) (node : Node) : List Observation :=
  node.outputs.filterMap fun t => (vs[t]?).map (⟨node, t, ·⟩)

/-- A **valuation**: a value for each tensor, of the recorded extents and no larger than an array,
such that every node is computed. -/
structure Graph.Valued (g : Graph) (feeds : Feeds) (vs : List Tensor) : Prop where
  shapes : vs.map (·.dims) = g.tensors.toList.map (·.shape.dims)
  small : ∀ v ∈ vs, v.data.size < Word.signedModulus
  computed : ∀ node ∈ g.nodes.toList, node.Computed feeds vs

/-- The evaluation has kept the values of the given tensors. -/
structure Evaluation.Agrees (e : Evaluation) (vs : List Tensor) (ids : List TensorId) : Prop where
  size : e.values.size = vs.length
  values : ∀ t ∈ ids, e.values[t]? = some vs[t]?

namespace Graph

variable {g : Graph} {feeds : Feeds} {vs : List Tensor}

theorem Valued.length_eq (hv : g.Valued feeds vs) : vs.length = g.tensors.size := by
  simpa using congrArg List.length hv.shapes

/-- A value has the extents that are recorded for its tensor. -/
theorem Valued.shapeOf (hv : g.Valued feeds vs) {t : TensorId} {v : Tensor}
    (h : vs[t]? = some v) : ∃ s, g.shapeOf t = .ok s ∧ v.dims = s.dims := by
  have hdims : (g.tensors.toList.map (·.shape.dims))[t]? = some v.dims := by
    rw [← hv.shapes, List.getElem?_map, h]
    rfl
  rw [List.getElem?_map, Array.getElem?_toList] at hdims
  obtain ⟨e, he, hd⟩ := Option.map_eq_some_iff.mp hdims
  exact ⟨e.shape, shapeOf_eq_ok.mpr (by rw [he]; rfl), hd.symm⟩

end Graph

namespace Evaluation

variable {e : Evaluation} {vs : List Tensor} {ids : List TensorId}

theorem Agrees.value (he : e.Agrees vs ids) {t : TensorId} {v : Tensor} (ht : t ∈ ids)
    (h : vs[t]? = some v) : e.value t = .ok v := by
  simp only [Evaluation.value, he.values t ht, h]

/-- Keeping the right value of a tensor adds this tensor. -/
theorem Agrees.keep (he : e.Agrees vs ids) (node : Node) {t : TensorId} {v : Tensor}
    (h : vs[t]? = some v) : (e.keep node t v).Agrees vs (t :: ids) where
  size := by simpa [Evaluation.keep] using he.size
  values u hu := by
    have ht : t < e.values.size := he.size ▸ (List.getElem?_eq_some_iff.mp h).1
    by_cases hut : t = u
    · subst hut
      simp [Evaluation.keep, ht, h]
    · rcases List.mem_cons.mp hu with rfl | hu
      · exact absurd rfl hut
      · simpa [Evaluation.keep, Array.getElem?_setIfInBounds_ne hut] using he.values u hu

theorem Agrees.mono (he : e.Agrees vs ids) {ids' : List TensorId} (h : ids' ⊆ ids) :
    e.Agrees vs ids' := ⟨he.size, fun t ht => he.values t (h ht)⟩

/-- The operands of a node can be read once the tensors it reads are kept. -/
theorem Agrees.operands (he : e.Agrees vs ids) {inputs : List TensorId} {operands : List Tensor}
    (hread : Reads vs inputs operands) (hinputs : ∀ t ∈ inputs, t ∈ ids) :
    inputs.mapM e.value = .ok operands := by
  refine Outcome.mapM_eq_ok.mpr ?_
  induction hread with
  | nil => exact .nil
  | cons h _ ih =>
    exact .cons (he.value (hinputs _ List.mem_cons_self) h)
      (ih fun t ht => hinputs t (List.mem_cons_of_mem _ ht))

end Evaluation

/-! ## Evaluation -/

namespace Graph

variable {g : Graph} {feeds : Feeds} {vs : List Tensor} {e : Evaluation}

theorem Evaluating.bind_ok {α β : Type} {m : Evaluating α} {f : α → Evaluating β} {x : α}
    {e' : Evaluation} (h : m e = .ok x e') : (m >>= f) e = f x e' := by
  simp only [bind, EStateM.bind, h]

/-- One result is checked against its shape and kept. -/
theorem keepResult_eq (hv : g.Valued feeds vs) {t : TensorId} {v : Tensor} (h : vs[t]? = some v)
    (index : Nat) (node : Node) :
    g.keepResult index node t v e = .ok () (e.keep node t v) := by
  obtain ⟨s, hs, hd⟩ := hv.shapeOf h
  have hshape : (Evaluating.lift (g.shapeOf t) : Evaluating Shape) e = .ok s e := by
    rw [hs]
    rfl
  have hchecked : (Evaluating.lift (ensure (v.dims = s.dims)
      (s!"node {index} ({node.operation.name}) produced {dimsText v.dims}, " ++
        s!"graph expects {s.text}")) : Evaluating Unit) e = .ok () e := by
    simp [Evaluating.lift, ensure, hd]
  rw [keepResult, Evaluating.bind_ok hshape, Evaluating.bind_ok hchecked]
  rfl

/-- The results of one node are kept one after the other. -/
theorem keepResults (hv : g.Valued feeds vs) (index : Nat) (node : Node) {ids : List TensorId}
    {outputs : List TensorId} {results : List Tensor} (hread : Reads vs outputs results)
    (he : e.Agrees vs ids) :
    ∃ e', ((outputs.zip results).forM (fun (t, v) => g.keepResult index node t v) :
        Evaluating Unit) e = .ok () e' ∧
      e'.Agrees vs (ids ++ outputs) ∧
      e'.seen.reverse = e.seen.reverse ++
        outputs.filterMap fun t => (vs[t]?).map (⟨node, t, ·⟩) := by
  induction hread generalizing e ids with
  | nil =>
    refine ⟨e, rfl, by simpa using he, by simp⟩
  | @cons t v outputs results h _ ih =>
    obtain ⟨e', hrun, hagrees, hseen⟩ := ih (he.keep node h)
    refine ⟨e', ?_, hagrees.mono ?_, ?_⟩
    · exact (Evaluating.bind_ok (keepResult_eq hv h index node)).trans hrun
    · intro u hu
      simpa [or_left_comm] using hu
    · rw [hseen]
      simp [Evaluation.keep, h]

/-- The results of a node on values that agree with the valuation. -/
theorem nodeResults_eq (hv : g.Valued feeds vs) {node : Node} {operands results : List Tensor}
    (hoperands : node.inputs.mapM e.value = .ok operands) (hread : Reads vs node.outputs results)
    (happly : node.operation.apply feeds operands (((results.head?).map (·.dims)).getD []) =
      .ok results) :
    g.nodeResults feeds node e = .ok results := by
  have hsmall : results.all (fun v => decide (v.data.size < Word.signedModulus)) = true :=
    List.all_eq_true.mpr fun v hmem => decide_eq_true (hv.small v (hread.mem v hmem))
  unfold nodeResults
  rw [hoperands, Outcome.ok_bind]
  generalize node.outputs = outputs at hread
  cases hread with
  | nil =>
    change (node.operation.apply feeds operands [] >>= _) = _
    rw [show node.operation.apply feeds operands [] = .ok [] from happly]
    rfl
  | @cons t v outputs results h _ =>
    obtain ⟨s, hs, hd⟩ := hv.shapeOf h
    simp only [List.head?_cons, Option.map_some, Option.getD_some] at happly
    simp only [hs, Except.map, ← hd, Outcome.ok_bind, happly, hsmall]
    rfl

/-- **One node**: its results are computed and kept. -/
theorem evaluateNode_eq (hv : g.Valued feeds vs) (index : Nat) {node : Node} {ids : List TensorId}
    (hnode : node.Computed feeds vs) (hinputs : ∀ t ∈ node.inputs, t ∈ ids)
    (he : e.Agrees vs ids) :
    ∃ e', g.evaluateNode feeds index node e = .ok () e' ∧ e'.Agrees vs (ids ++ node.outputs) ∧
      e'.seen.reverse = e.seen.reverse ++ node.observations vs := by
  obtain ⟨operands, results, hoperands, hresults, happly⟩ := hnode
  have hvalues := nodeResults_eq hv (he.operands hoperands hinputs) hresults happly
  obtain ⟨e', hrun, hagrees, hseen⟩ := keepResults hv index node hresults he
  refine ⟨e', ?_, hagrees, hseen⟩
  have hproduced : (Evaluating.lift (inContext s!"node {index} ({node.operation.name}) failed"
      (g.nodeResults feeds node e)) : Evaluating _) e = .ok results e := by
    rw [hvalues]
    rfl
  have hcount : (Evaluating.lift (ensure (results.length = node.outputs.length)
      s!"node {index} produced {results.length} tensors, expected {node.outputs.length}") :
      Evaluating _) e = .ok () e := by
    simp [Evaluating.lift, ensure, hresults.length_eq]
  have hget : (get : Evaluating Evaluation) e = .ok e e := rfl
  rw [evaluateNode, Evaluating.bind_ok hget, Evaluating.bind_ok hproduced,
    Evaluating.bind_ok hcount]
  exact hrun

/-- A run over the nodes that are left, when the values of those in front are kept. -/
theorem evaluateFrom_eq (hg : g.WellFormed) (hv : g.Valued feeds vs) (rest : List Node) :
    ∀ (before : List Node) (e : Evaluation), g.nodes.toList = before ++ rest →
      e.Agrees vs (before.flatMap (·.outputs)) →
      ∃ e', g.evaluateFrom feeds before.length rest e = .ok () e' ∧
        e'.Agrees vs ((before ++ rest).flatMap (·.outputs)) ∧
        e'.seen.reverse = e.seen.reverse ++ rest.flatMap (·.observations vs) := by
  induction rest with
  | nil =>
    intro before e _ he
    exact ⟨e, rfl, by simpa using he, by simp⟩
  | cons node rest ih =>
    intro before e hnodes he
    have hmem : node ∈ g.nodes.toList := by simp [hnodes]
    obtain ⟨e₁, hrun₁, he₁, hseen₁⟩ := evaluateNode_eq hv before.length (hv.computed node hmem)
      (hg.inputs before node rest hnodes) he
    obtain ⟨e', hrun, he', hseen⟩ := ih (before ++ [node]) e₁ (by simp [hnodes])
      (by simpa using he₁)
    refine ⟨e', ?_, by simpa using he', ?_⟩
    · rw [evaluateFrom, Evaluating.bind_ok hrun₁]
      simpa using hrun
    · rw [hseen, hseen₁]
      simp

/-- **An evaluation computes the valuation**, each value once and in the order of the nodes. -/
theorem Valued.evaluate (hg : g.WellFormed) (hv : g.Valued feeds vs) :
    ∃ e, g.evaluate feeds = .ok () e ∧ (∀ t < g.tensorCount, e.values[t]? = some vs[t]?) ∧
      e.seen.reverse = g.nodes.toList.flatMap (·.observations vs) := by
  have hstart : ({ values := Array.replicate g.tensorCount none } : Evaluation).Agrees vs [] :=
    ⟨by simp [tensorCount, hv.length_eq], fun _ ht => absurd ht List.not_mem_nil⟩
  obtain ⟨e, hrun, he, hseen⟩ := evaluateFrom_eq hg hv g.nodes.toList [] _ rfl hstart
  refine ⟨e, hrun, fun t ht => he.values t ?_, by simpa using hseen⟩
  rw [List.nil_append, hg.outputs]
  exact List.mem_range.mpr ht

/-- The values of the named outputs, in the order in which they were marked. -/
def namedValues (g : Graph) (vs : List Tensor) : List (String × Tensor) :=
  g.outputs.filterMap fun (name, t) => (vs[t]?).map (name, ·)

theorem Valued.collectOutputs (hg : g.WellFormed) (hv : g.Valued feeds vs)
    (he : ∀ t < g.tensorCount, e.values[t]? = some vs[t]?) :
    g.collectOutputs e = .ok ((g.namedValues vs).mergeSort fun a b => a.1 ≤ b.1) := by
  unfold Graph.collectOutputs namedValues
  have hmarked := hg.marked
  -- the outputs are collected one after the other
  generalize g.outputs = entries at hmarked ⊢
  refine Outcome.bind_eq_ok.mpr ⟨_, ?_, rfl⟩
  induction entries with
  | nil => rfl
  | cons entry rest ih =>
    have ht := hmarked entry List.mem_cons_self
    have hlt : entry.2 < vs.length := hv.length_eq ▸ ht
    have hget : vs[entry.2]? = some vs[entry.2] := List.getElem?_eq_getElem hlt
    have hvalue := he entry.2 ht
    rw [List.mapM_cons, ih fun x hx => hmarked x (List.mem_cons_of_mem _ hx)]
    simp only [hvalue, hget, List.filterMap_cons, Option.map_some]
    rfl

/-- **A run** observes the valuation, and returns the values of the named outputs. -/
theorem Valued.runNamed (hg : g.WellFormed) (hv : g.Valued feeds vs) :
    g.runNamed feeds =
      { observations := g.nodes.toList.flatMap (·.observations vs)
        outputs := .ok ((g.namedValues vs).mergeSort fun a b => a.1 ≤ b.1) } := by
  obtain ⟨e, hrun, hvalues, hseen⟩ := hv.evaluate hg
  rw [Graph.runNamed, hrun]
  simp only [hseen, hv.collectOutputs hg hvalues]

end Graph

end GridNet
