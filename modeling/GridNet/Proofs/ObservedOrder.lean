import GridNet.Proofs.FrontRuns
import GridNet.Proofs.ObservedRuns
import GridNet.Proofs.RecordedGraphs

/-!
# The order of observations

A run observes each tensor when it is computed, and tensors are numbered as they are computed. So a
run that comes to its end observes the numbers from zero on, each once. A run that fails does so at
one node: it has observed the results of all nodes in front of that one, and of its own results
those in front of the one that is refused.

* `Graph.Evaluating.bind_eq_error` — which of two steps has failed.
* `Graph.Reachable.runNamed_congr` — a run hangs on what is bound to the declared inputs only.
* `Graph.keepResults_eq_error` — the results of a node, up to one that has not the recorded shape.
* `Graph.Refuses`, `Graph.evaluateNode_eq_error` — what is wrong with a node when its turn comes.
* `Graph.evaluateFrom_eq_error` — the nodes up to one that is refused.
* `Graph.run_observes` — what a run observes, whether it succeeds or fails.
-/

namespace GridNet

/-! ## Bindings -/

/-- An operation reads no binding but that of its own name. -/
theorem Operation.apply_congr {op : Operation} {feeds feeds' : Feeds}
    (h : ∀ name, op = .input name → feeds'.value? name = feeds.value? name) (operands : List Tensor)
    (dims : List Nat) : op.apply feeds' operands dims = op.apply feeds operands dims := by
  cases op with
  | input name => simp only [apply, h name rfl]
  | _ => rfl

namespace Graph

variable {g : Graph} {feeds feeds' : Feeds} {e e' : Evaluation} {index : Nat} {node : Node}
  {vs : List Tensor}
  {f : Failure}

theorem evaluateFrom_congr {nodes : List Node}
    (h : ∀ n ∈ nodes, ∀ name, n.operation = .input name → feeds'.value? name = feeds.value? name) :
    g.evaluateFrom feeds' index nodes = g.evaluateFrom feeds index nodes := by
  induction nodes generalizing index with
  | nil => rfl
  | cons n rest ih =>
    have hresults : g.nodeResults feeds' n = g.nodeResults feeds n := by
      funext e
      simp only [nodeResults, Operation.apply_congr (h n List.mem_cons_self)]
    simp only [evaluateFrom, evaluateNode, hresults, ih fun m hm => h m (List.mem_cons_of_mem _ hm)]

/-- A node that stands for an input is that of a declared one. -/
theorem Reachable.declared_of_input (hg : g.Reachable) (hnode : node ∈ g.nodes.toList)
    {name : String} (hinput : node.operation = .input name) : ∃ t, (name, t) ∈ g.inputs := by
  induction hg with
  | empty => exact absurd hnode List.not_mem_nil
  | node _ haccepts ih =>
    rw [push_nodes] at hnode
    rcases List.mem_append.mp hnode with hnode | hnode
    · exact ih hnode
    · -- no check lets a node pass for an input
      obtain rfl := List.mem_singleton.mp hnode
      obtain rfl : _ = Operation.input name := hinput
      cases haccepts
  | input _ _ ih =>
    have hpushed := hnode
    rw [push_nodes] at hpushed
    rcases List.mem_append.mp hpushed with hnode | hnode
    · obtain ⟨t, ht⟩ := ih hnode
      exact ⟨t, List.mem_append_left _ ht⟩
    · obtain rfl := List.mem_singleton.mp hnode
      obtain rfl := Operation.input.inj hinput
      exact ⟨_, List.mem_append_right _ List.mem_cons_self⟩
  | output _ _ _ ih => exact ih hnode

/-- **What is bound to other names** makes no difference. -/
theorem Reachable.runNamed_congr (hg : g.Reachable)
    (h : ∀ name t, (name, t) ∈ g.inputs → feeds'.value? name = feeds.value? name) :
    g.runNamed feeds' = g.runNamed feeds := by
  have hsame : g.evaluate feeds' = g.evaluate feeds := by
    refine congrFun (evaluateFrom_congr fun node hnode name hinput => ?_) _
    obtain ⟨t, ht⟩ := hg.declared_of_input hnode hinput
    exact h name t ht
  rw [runNamed, runNamed, hsame]

/-! ## Steps that fail -/

namespace Evaluating

variable {α β : Type}

theorem bind_eq_error {m : Evaluating α} {k : α → Evaluating β} :
    (m >>= k) e = .error f e' ↔ m e = .error f e' ∨ ∃ x e₁, m e = .ok x e₁ ∧
      k x e₁ = .error f e' := by
  cases hm : m e with
  | ok x e₁ => simp [bind_ok hm]
  | error failure e₁ => simp [bind_error hm]

theorem lift_eq_error {r : Outcome α} :
    Evaluating.lift r e = .error f e' ↔ r = .error f ∧ e = e' := by
  cases r <;> simp [Evaluating.lift]

end Evaluating

/-- What is said of a result that has not the recorded shape. -/
def misshapen (index : Nat) (node : Node) (v : Tensor) (shape : Shape) : Failure :=
  .note (s!"node {index} ({node.operation.name}) produced {dimsText v.dims}, " ++
    s!"graph expects {shape.text}")

/-- A result is refused for its shape only, and then it is not observed. -/
theorem keepResult_eq_error {t : TensorId} {v : Tensor} {s : Shape} (hs : g.shapeOf t = .ok s)
    (h : g.keepResult index node t v e = .error f e') :
    v.dims ≠ s.dims ∧ f = misshapen index node v s ∧ e' = e := by
  rcases Evaluating.bind_eq_error.mp h with h | ⟨s', _, hasked, h⟩
  · rw [hs] at h
    cases h
  · obtain ⟨hs', rfl⟩ := Evaluating.lift_eq_ok.mp hasked
    obtain rfl := Except.ok.inj (hs.symm.trans hs')
    rcases Evaluating.bind_eq_error.mp h with h | ⟨_, _, -, h⟩
    · obtain ⟨hchecked, rfl⟩ := Evaluating.lift_eq_error.mp h
      by_cases hdims : v.dims = s.dims
      · simp [ensure, hdims] at hchecked
      · simp only [ensure, hdims, decide_false, Bool.false_eq_true, if_false,
          Except.error.injEq] at hchecked
        exact ⟨hdims, hchecked.symm, rfl⟩
    · cases h

/-- The results of one node that are kept are **observed in order**. -/
theorem keepResults_seen {pairs : List (TensorId × Tensor)} {u : Unit}
    (h : (pairs.forM fun (t, v) => g.keepResult index node t v : Evaluating Unit) e = .ok u e') :
    e'.seen.reverse = e.seen.reverse ++ pairs.map fun (t, v) => ⟨node, t, v⟩ := by
  induction pairs generalizing e with
  | nil =>
    cases h
    simp
  | cons pair rest ih =>
    obtain ⟨_, e₁, hfirst, hrest⟩ := Evaluating.bind_eq_ok.mp h
    obtain ⟨-, rfl⟩ := keepResult_eq_ok hfirst
    rw [ih hrest]
    simp [Evaluation.keep]

/-- **Results are kept up to one** that has not the recorded shape. -/
theorem keepResults_eq_error {pairs : List (TensorId × Tensor)}
    (hshapes : ∀ p ∈ pairs, ∃ s, g.shapeOf p.1 = .ok s)
    (h : (pairs.forM fun (t, v) => g.keepResult index node t v : Evaluating Unit) e = .error f e') :
    ∃ kept t v others s, pairs = kept ++ (t, v) :: others ∧ (∀ p ∈ kept, g.Spans p.1 p.2.dims) ∧
      g.shapeOf t = .ok s ∧ v.dims ≠ s.dims ∧ f = misshapen index node v s ∧
      e'.seen.reverse = e.seen.reverse ++ kept.map fun (t, v) => ⟨node, t, v⟩ := by
  induction pairs generalizing e with
  | nil => cases h
  | cons pair rest ih =>
    obtain ⟨t, v⟩ := pair
    obtain ⟨s, hs⟩ := hshapes _ List.mem_cons_self
    rcases Evaluating.bind_eq_error.mp h with h | ⟨_, e₁, hfirst, hrest⟩
    · obtain ⟨hdims, rfl, rfl⟩ := keepResult_eq_error hs h
      exact ⟨[], t, v, rest, s, rfl, fun p hp => absurd hp List.not_mem_nil, hs,
        hdims, rfl, by simp⟩
    · -- the first result is kept, and one of the others is refused
      obtain ⟨hspans, rfl⟩ := keepResult_eq_ok hfirst
      obtain ⟨kept, u, w, others, s', rfl, hkept, hrefused⟩ :=
        ih (fun p hp => hshapes p (List.mem_cons_of_mem _ hp)) hrest
      refine ⟨(t, v) :: kept, u, w, others, s', rfl, List.forall_mem_cons.mpr ⟨hspans, hkept⟩, ?_⟩
      simpa [Evaluation.keep] using hrefused

/-! ## Nodes that are refused -/

/-- The state that holds values of the first tensors, and nothing else. -/
def holding (vs : List Tensor) : Evaluation := { values := (vs.map some).toArray }

/-- A node is computed from the values that are held. -/
theorem nodeResults_holding {count : Nat} (he : e.Holds count vs) :
    g.nodeResults feeds node e = g.nodeResults feeds node (holding vs) := by
  have hvalues : e.values = ((holding vs).widened (count - vs.length)).values := by
    refine Array.toList_inj.mp ?_
    rw [he]
    simp [holding, Evaluation.widened]
  have hvalue : e.value = (holding vs).value := by
    funext t
    have hwide : e.value t = ((holding vs).widened (count - vs.length)).value t := by
      rw [Evaluation.value, Evaluation.value, hvalues]
    exact hwide.trans (Evaluation.value_widened _ _ t)
  simp only [nodeResults, hvalue]

/-- What is **wrong with node number `index`** when the tensors in front of it have the values `vs`:
it cannot be computed, it has too many or too few results, or one of them has not the recorded
shape. In the last case there are results in front of that one; otherwise none counts. -/
inductive Refuses (g : Graph) (feeds : Feeds) (vs : List Tensor) (index : Nat) (node : Node) :
    (preceding : List TensorId) → Failure → Prop
  | uncomputed {f : Failure} (h : g.nodeResults feeds node (holding vs) = .error f) :
      Refuses g feeds vs index node [] (f.wrap s!"node {index} ({node.operation.name}) failed")
  | miscounted {results : List Tensor} (h : g.nodeResults feeds node (holding vs) = .ok results)
      (hcount : results.length ≠ node.outputs.length) :
      Refuses g feeds vs index node []
        (.note s!"node {index} produced {results.length} tensors, expected {node.outputs.length}")
  | misshapen {preceding following : List TensorId} {t : TensorId}
      {kept others : List Tensor} {v : Tensor}
      {shape : Shape} (h : g.nodeResults feeds node (holding vs) = .ok (kept ++ v :: others))
      (houtputs : node.outputs = preceding ++ t :: following)
      (hcount : others.length = following.length)
      (hkept : List.Forall₂ (g.Spans · ·.dims) preceding kept) (hshape : g.shapeOf t = .ok shape)
      (hdims : v.dims ≠ shape.dims) :
      Refuses g feeds vs index node preceding (misshapen index node v shape)

variable {before after : List Node} {count : Nat} {u : Unit}

theorem exists_shapeOf {t : TensorId} (ht : t < g.tensors.size) : ∃ s, g.shapeOf t = .ok s :=
  ⟨g.tensors[t].shape, shapeOf_eq_ok.mpr (by simp [ht])⟩

/-- **A node that fails** is refused, and of its results those in front of the refused one
have been observed. -/
theorem evaluateNode_eq_error (hg : g.WellFormed) (hnode : node ∈ g.nodes.toList)
    (he : e.Holds count vs) (h : g.evaluateNode feeds index node e = .error f e') :
    ∃ preceding, g.Refuses feeds vs index node preceding f ∧
      e'.seen.reverse.map (·.id) = e.seen.reverse.map (·.id) ++ preceding := by
  rcases Evaluating.bind_eq_error.mp h with h | ⟨_, _, hget, h⟩
  · cases h
  cases hget
  rcases Evaluating.bind_eq_error.mp h with h | ⟨results, _, hproduced, h⟩
  · obtain ⟨hfailed, rfl⟩ := Evaluating.lift_eq_error.mp h
    rw [nodeResults_holding he] at hfailed
    cases hresults : g.nodeResults feeds node (holding vs) with
    | ok results =>
      rw [hresults] at hfailed
      cases hfailed
    | error failure =>
      rw [hresults] at hfailed
      cases hfailed
      exact ⟨[], .uncomputed hresults, (List.append_nil _).symm⟩
  obtain ⟨hresults, rfl⟩ := Evaluating.lift_eq_ok.mp hproduced
  rw [Outcome.inContext_eq_ok, nodeResults_holding he] at hresults
  rcases Evaluating.bind_eq_error.mp h with h | ⟨_, _, hpassed, h⟩
  · obtain ⟨hfailed, rfl⟩ := Evaluating.lift_eq_error.mp h
    by_cases hcount : results.length = node.outputs.length
    · simp [ensure, hcount] at hfailed
    · simp only [ensure, hcount, decide_false, Bool.false_eq_true, if_false,
        Except.error.injEq] at hfailed
      exact ⟨[], hfailed ▸ .miscounted hresults hcount, (List.append_nil _).symm⟩
  obtain ⟨hchecked, rfl⟩ := Evaluating.lift_eq_ok.mp hpassed
  have hcount := of_decide_eq_true (Outcome.ensure_eq_ok.mp hchecked)
  have hshapes : ∀ p ∈ node.outputs.zip results, ∃ s, g.shapeOf p.1 = .ok s := fun p hp =>
    exists_shapeOf (hg.result_lt hnode (List.of_mem_zip hp).1)
  obtain ⟨kept, t, v, others, s, hpairs, hkept, hshape, hdims, rfl, hseen⟩ :=
    keepResults_eq_error hshapes h
  have houtputs := congrArg (List.map Prod.fst) hpairs
  have hvalues := congrArg (List.map Prod.snd) hpairs
  rw [List.map_fst_zip hcount.ge, List.map_append, List.map_cons] at houtputs
  rw [List.map_snd_zip hcount.le, List.map_append, List.map_cons] at hvalues
  rw [hvalues] at hresults
  refine ⟨kept.map Prod.fst, .misshapen hresults houtputs (by simp) ?_ hshape hdims, ?_⟩
  · rw [List.forall₂_map_left_iff, List.forall₂_map_right_iff]
    exact List.forall₂_same.mpr hkept
  · rw [hseen]
    simp

/-- A node that succeeds has all its results observed. -/
theorem evaluateNode_seen (h : g.evaluateNode feeds index node e = .ok u e') :
    e'.seen.reverse.map (·.id) = e.seen.reverse.map (·.id) ++ node.outputs := by
  obtain ⟨_, _, hget, h⟩ := Evaluating.bind_eq_ok.mp h
  cases hget
  obtain ⟨results, _, hproduced, h⟩ := Evaluating.bind_eq_ok.mp h
  obtain ⟨-, rfl⟩ := Evaluating.lift_eq_ok.mp hproduced
  obtain ⟨_, _, hchecked, h⟩ := Evaluating.bind_eq_ok.mp h
  obtain ⟨hcount, rfl⟩ := Evaluating.lift_eq_ok.mp hchecked
  have hlength := of_decide_eq_true (Outcome.ensure_eq_ok.mp hcount)
  have hids : (node.outputs.zip results).map Prod.fst = node.outputs := List.map_fst_zip hlength.ge
  rw [keepResults_seen h, List.map_append, List.map_map]
  exact congrArg _ hids

/-- **The nodes up to one that is refused**, by induction over those that are left: all results of
the nodes that come to their turn before it are observed. -/
theorem evaluateFrom_eq_error (hg : g.WellFormed) :
    ∀ (rest before : List Node) (vs : List Tensor) (e : Evaluation), g.nodes.toList =
      before ++ rest →
      g.ValuedTo feeds before vs → e.Holds g.tensors.size vs →
      e.seen.reverse.map (·.id) = before.flatMap (·.outputs) →
      g.evaluateFrom feeds before.length rest e = .error f e' →
      ∃ front node after vs preceding, g.nodes.toList = front ++ node :: after ∧
      g.ValuedTo feeds front vs ∧
        g.Refuses feeds vs front.length node preceding f ∧
        e'.seen.reverse.map (·.id) = front.flatMap (·.outputs) ++ preceding := by
  intro rest
  induction rest with
  | nil =>
    intro before vs e _ _ _ _ h
    cases h
  | cons node rest ih =>
    intro before vs e hnodes hv he hseen h
    have hmem : node ∈ g.nodes.toList := hnodes ▸ List.mem_append_right _ List.mem_cons_self
    rcases Evaluating.bind_eq_error.mp h with h | ⟨_, e₁, hnode, hrest⟩
    · obtain ⟨preceding, hrefuses, hobserved⟩ := evaluateNode_eq_error hg hmem he h
      exact ⟨before, node, rest, vs, preceding, hnodes, hv, hrefuses, hseen ▸ hobserved⟩
    · obtain ⟨results, hv₁, he₁⟩ := evaluateNode_eq_ok hg hnodes hv he hnode
      have hsplit : g.nodes.toList = (before ++ [node]) ++ rest := by simp [hnodes]
      have hseen₁ : e₁.seen.reverse.map (·.id) = (before ++ [node]).flatMap (·.outputs) := by
        rw [evaluateNode_seen hnode, hseen]
        simp
      refine ih (before ++ [node]) _ e₁ hsplit hv₁ he₁ hseen₁ ?_
      rwa [List.length_append, List.length_singleton]

/-! ## Runs -/

/-- A run that fails does so at one node. -/
theorem runNamed_eq_error (hg : g.WellFormed) (h : (g.runNamed feeds).outputs = .error f) :
    ∃ front node after vs preceding, g.nodes.toList = front ++ node :: after ∧
      g.ValuedTo feeds front vs ∧
      g.Refuses feeds vs front.length node preceding f ∧
      (g.runNamed feeds).observations.map (·.id) = front.flatMap (·.outputs) ++ preceding := by
  cases hrun : g.evaluate feeds with
  | ok u e =>
    -- all outputs have been computed
    obtain ⟨vs, hv, -⟩ := evaluate_eq_ok hg hrun
    rw [hv.runNamed hg] at h
    cases h
  | error failure e =>
    rw [runNamed, hrun] at h ⊢
    obtain rfl := Except.error.inj h
    have hstart : ({ values := Array.replicate g.tensorCount none } : Evaluation).Holds
        g.tensors.size [] := by
      simp [Evaluation.Holds, tensorCount]
    exact evaluateFrom_eq_error hg g.nodes.toList [] [] _ rfl .start hstart rfl hrun

/-- The node that lists a tensor is the one that makes it. -/
theorem Reachable.producer?_of_mem (hg : g.Reachable) {t : TensorId} (h : (node, t) ∈ g.results) :
    g.producer? t = some node := by
  obtain ⟨hnode, ht⟩ := mem_results.mp h
  obtain ⟨k, hk⟩ := List.getElem?_of_mem hnode
  rw [Array.getElem?_toList] at hk
  obtain ⟨entry, hentry, hproducer⟩ :=
    Option.map_eq_some_iff.mp ((hg.producers t k).mpr ⟨node, hk, ht⟩)
  rw [producer?, hentry, Option.bind_some, hproducer, hk]

/-- Each tensor is a result of some node. -/
theorem WellFormed.exists_result (hg : g.WellFormed) {t : TensorId} (ht : t < g.tensors.size) :
    ∃ node, (node, t) ∈ g.results := by
  have hmem : t ∈ g.nodes.toList.flatMap (·.outputs) := hg.outputs ▸ List.mem_range.mpr ht
  obtain ⟨node, hnode, hresult⟩ := List.mem_flatMap.mp hmem
  exact ⟨node, mem_results.mpr ⟨hnode, hresult⟩⟩

/-- What is observed of some values: those of all results. -/
theorem mem_observations {o : Observation} :
    o ∈ g.nodes.toList.flatMap (·.observations vs) ↔ (o.node, o.id) ∈ g.results ∧
      vs[o.id]? = some o.value := by
  rw [mem_results, List.mem_flatMap]
  constructor
  · rintro ⟨node, hnode, ho⟩
    obtain ⟨t, ht, hvalue⟩ := List.mem_filterMap.mp ho
    obtain ⟨v, hv, rfl⟩ := Option.map_eq_some_iff.mp hvalue
    exact ⟨⟨hnode, ht⟩, hv⟩
  · rintro ⟨⟨hnode, ht⟩, hvalue⟩
    exact ⟨o.node, hnode, List.mem_filterMap.mpr ⟨o.id, ht, by rw [hvalue]; rfl⟩⟩

/-- The numbers that are observed of a valuation, in order. -/
theorem Valued.observed_ids (hv : g.Valued feeds vs) (hg : g.WellFormed) :
    (g.nodes.toList.flatMap (·.observations vs)).map (·.id) = List.range g.tensorCount := by
  rw [tensorCount, ← hg.outputs, List.map_flatMap]
  refine List.flatMap_congr fun node hnode => ?_
  have hpairs := congrArg (List.map Prod.snd) (hv.observations (hv.computed node hnode)).1
  rw [List.map_map, List.map_map] at hpairs
  exact hpairs.trans (List.map_id _)

/-- A named output has the value that is observed of its tensor. -/
theorem WellFormed.mem_namedValues (hg : g.WellFormed) {label : String} {v : Tensor} :
    (label, v) ∈ g.namedValues vs ↔
      ∃ o ∈ g.nodes.toList.flatMap (·.observations vs), (label, o.id) ∈ g.outputs ∧
        o.value = v := by
  rw [namedValues, List.mem_filterMap]
  constructor
  · rintro ⟨⟨name, t⟩, hmarked, hvalue⟩
    obtain ⟨w, hw, hpair⟩ := Option.map_eq_some_iff.mp hvalue
    obtain ⟨rfl, rfl⟩ := Prod.mk.inj hpair
    obtain ⟨node, hresult⟩ := hg.exists_result (hg.marked _ hmarked)
    exact ⟨⟨node, t, w⟩, mem_observations.mpr ⟨hresult, hw⟩, hmarked, rfl⟩
  · rintro ⟨o, ho, hmarked, rfl⟩
    refine ⟨(label, o.id), hmarked, ?_⟩
    dsimp only
    rw [(mem_observations.mp ho).2]
    rfl

/-- **What a run observes.** Take a graph that calls of the recorder have led to, with one input.
Whatever else is bound, a run in which the input has the value `x` is the run on `x`. If it
succeeds, it has observed the tensors in their order, each once, with the node that makes it and a
value of the recorded shape, and the outputs are the values that have been observed of the tensors
they name. If it fails, it does so at one node: those in front of it have values, it is refused, and
the run has observed all tensors of the nodes in front and of its own those in front of the one that
has not the recorded shape. -/
theorem run_observes (hg : g.Reachable) {name : String} {input : TensorId}
    (hinput : g.inputs = [(name, input)]) (x : Tensor) :
    (∀ feeds : Feeds, feeds.value? name = some x → g.runNamed feeds = g.run x) ∧
      (∀ outputs, (g.run x).outputs = .ok outputs →
        (g.run x).observations.map (·.id) = List.range g.tensorCount ∧
          (∀ o ∈ (g.run x).observations, g.producer? o.id = some o.node ∧
            g.Spans o.id o.value.dims) ∧
          ∀ label v, (label, v) ∈ outputs ↔
            ∃ o ∈ (g.run x).observations, (label, o.id) ∈ g.outputs ∧ o.value = v) ∧
      ∀ f, (g.run x).outputs = .error f →
        ∃ front node after vs preceding, g.nodes.toList = front ++ node :: after ∧
          g.ValuedTo [(name, x)] front vs ∧ g.Refuses [(name, x)] vs front.length node preceding f ∧
          (g.run x).observations.map (·.id) = front.flatMap (·.outputs) ++ preceding := by
  have hrun : g.run x = g.runNamed [(name, x)] := by rw [run, hinput]
  have hbound : Feeds.value? [(name, x)] name = some x := by simp [Feeds.value?]
  refine ⟨fun feeds hfeeds => ?_, fun outputs hok => ?_, fun f hfailed => ?_⟩
  · rw [hrun]
    refine hg.runNamed_congr fun n t hn => ?_
    rw [hinput] at hn
    obtain ⟨rfl, -⟩ := Prod.mk.inj (List.mem_singleton.mp hn)
    exact hfeeds.trans hbound.symm
  · rw [hrun] at hok ⊢
    obtain ⟨vs, hv⟩ := (runNamed_isOk_iff hg.wellFormed).mp ⟨outputs, hok⟩
    rw [hv.runNamed hg.wellFormed] at hok ⊢
    obtain rfl := Except.ok.inj hok
    refine ⟨?_, fun o ho => ?_, fun label v => ?_⟩
    · exact hv.observed_ids hg.wellFormed
    · obtain ⟨hresult, hvalue⟩ := mem_observations.mp ho
      exact ⟨hg.producer?_of_mem hresult, hv.shapeOf hvalue⟩
    · rw [List.mem_mergeSort]
      exact hg.wellFormed.mem_namedValues
  · rw [hrun] at hfailed ⊢
    exact runNamed_eq_error hg.wellFormed hfailed

/-- One pixel, without what is below zero. -/
def rectifiedCalls : List Recording :=
  [.input "pixel" pixelShape, .activation 0 .relu, .output 1 "positive"]

/-- On a pixel both tensors are observed. On three channels the input itself is refused. -/
theorem run_observes_rectifiedCalls :
    (recorded rectifiedCalls).inputs = [("pixel", 0)] ∧
      ((recorded rectifiedCalls).run (Tensor.zeros [1, 1, 1, 1])).observations.map (·.id) = [0, 1] ∧
      ∃ front node after vs preceding, (recorded rectifiedCalls).nodes.toList =
        front ++ node :: after ∧
        (recorded rectifiedCalls).ValuedTo [("pixel", Tensor.zeros [1, 3, 1, 1])] front vs ∧
        (recorded rectifiedCalls).Refuses [("pixel", Tensor.zeros [1, 3, 1, 1])] vs front.length
          node preceding
          (misshapen 0 ⟨.input "pixel", [], [0]⟩ (Tensor.zeros [1, 3, 1, 1]) pixelShape) ∧
        ((recorded rectifiedCalls).run (Tensor.zeros [1, 3, 1, 1])).observations.map (·.id) =
          front.flatMap (·.outputs) ++ preceding := by
  have hshape : (recorded rectifiedCalls).shapeOf 0 = .ok pixelShape := by rfl
  have hnodes : (recorded rectifiedCalls).nodes.toList =
      [⟨.input "pixel", [], [0]⟩, ⟨.activation .relu, [0], [1]⟩] := by rfl
  have hinputs : (recorded rectifiedCalls).inputs = [("pixel", 0)] := by rfl
  have hfailed : ((recorded rectifiedCalls).run (Tensor.zeros [1, 3, 1, 1])).outputs =
      .error (misshapen 0 ⟨.input "pixel", [], [0]⟩ (Tensor.zeros [1, 3, 1, 1]) pixelShape) := by
    rfl
  have hg := reachable_recorded rectifiedCalls
  -- the pixel has the declared shape, so all nodes have values
  obtain ⟨vs, hv⟩ : ∃ vs, (recorded rectifiedCalls).Valued
    [("pixel", Tensor.zeros [1, 1, 1, 1])] vs := by
    refine hg.valued ⟨by decide, fun node hnode operands _ => ?_⟩
      (fun node hnode => ?_) fun name t ht => ?_
    · rw [hnodes] at hnode
      rcases List.mem_pair.mp hnode with rfl | rfl <;> trivial
    · rw [hnodes] at hnode
      rcases List.mem_pair.mp hnode with rfl | rfl <;> trivial
    · rw [hinputs] at ht
      obtain ⟨rfl, rfl⟩ := Prod.mk.inj (List.mem_singleton.mp ht)
      exact ⟨Tensor.zeros [1, 1, 1, 1], rfl, (spans_iff hshape).mpr rfl⟩
  obtain ⟨outputs, hok⟩ := (runNamed_isOk_iff hg.wellFormed).mpr ⟨vs, hv⟩
  have hpixel := run_observes hg hinputs (Tensor.zeros [1, 1, 1, 1])
  have hchannels := run_observes hg hinputs (Tensor.zeros [1, 3, 1, 1])
  exact ⟨hinputs, (hpixel.2.1 outputs hok).1, hchannels.2.2 _ hfailed⟩

end Graph

end GridNet
