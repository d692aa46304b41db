import GridNet.Proofs.ShapeSoundness

/-!
# What a run that succeeds has computed

An evaluation goes over the nodes once and keeps every result. If it comes to the end, what it has
kept is a valuation of the graph: a value for each tensor, of the recorded extents, and each node
computed from the values that it reads.

* `Graph.ValuedTo` — a valuation of the first nodes; `Graph.ValuedTo.step` adds the next one.
* `Evaluation.Holds` — what an evaluation has kept.
* `Graph.evaluateNode_eq_ok`, `Graph.evaluateFrom_eq_ok` — one node, and the nodes that are left.
* `Graph.runNamed_isOk_iff` — a run succeeds just if there is a valuation.
-/

namespace GridNet

/-! ## Valuations of the first nodes -/

namespace Graph

variable {g : Graph} {feeds : Feeds} {before after : List Node} {node : Node} {vs : List Tensor}

/-- The results of the first nodes are the first tensors. -/
theorem WellFormed.front_eq (hg : g.WellFormed) (hnodes : g.nodes.toList = before ++ after) :
    before.flatMap (·.outputs) = List.range (before.flatMap (·.outputs)).length := by
  have hall := hg.outputs
  rw [hnodes, List.flatMap_append] at hall
  have hcount := congrArg List.length hall
  rw [List.length_append, List.length_range] at hcount
  have hfront := congrArg (List.take (before.flatMap (·.outputs)).length) hall
  rwa [List.take_left, List.take_range, Nat.min_eq_left (by omega)] at hfront

/-- The results of a node are numbered on from those of the nodes in front of it. -/
theorem WellFormed.outputs_eq (hg : g.WellFormed)
    (hnodes : g.nodes.toList = before ++ node :: after) :
    node.outputs =
      (List.range node.outputs.length).map ((before.flatMap (·.outputs)).length + ·) := by
  have hfront := hg.front_eq hnodes
  have hsplit : g.nodes.toList = (before ++ [node]) ++ after := by simp [hnodes]
  have hnext := hg.front_eq hsplit
  rw [List.flatMap_append, List.flatMap_singleton, List.length_append, List.range_add,
    ← hfront] at hnext
  exact List.append_cancel_left hnext

/-- A **valuation of the first nodes**: values for their results, of the recorded extents and no
larger than an array, such that each of these nodes is computed. -/
structure ValuedTo (g : Graph) (feeds : Feeds) (before : List Node) (vs : List Tensor) : Prop where
  count : vs.length = (before.flatMap (·.outputs)).length
  spans : ∀ t v, vs[t]? = some v → g.Spans t v.dims
  small : ∀ v ∈ vs, v.data.size < Word.signedModulus
  computed : ∀ node ∈ before, node.Computed feeds vs

theorem ValuedTo.start : g.ValuedTo feeds [] [] where
  count := rfl
  spans _ _ h := by simp at h
  small _ h := absurd h List.not_mem_nil
  computed _ h := absurd h List.not_mem_nil

/-- **The next node**, whose results have the recorded extents. -/
theorem ValuedTo.step (hv : g.ValuedTo feeds before vs) (hg : g.WellFormed)
    (hnodes : g.nodes.toList = before ++ node :: after) {operands results : List Tensor}
    (hoperands : Reads vs node.inputs operands)
    (hspans : List.Forall₂ (g.Spans · ·.dims) node.outputs results)
    (hsmall : ∀ v ∈ results, v.data.size < Word.signedModulus)
    (happly : node.operation.apply feeds operands (((results.head?).map (·.dims)).getD []) =
      .ok results) :
    g.ValuedTo feeds (before ++ [node]) (vs ++ results) := by
  have hids : node.outputs = (List.range results.length).map (vs.length + ·) := by
    rw [hv.count, ← hspans.length_eq]
    exact hg.outputs_eq hnodes
  have hresults : Reads (vs ++ results) node.outputs results := hids ▸ Reads.appended vs results
  refine ⟨?_, fun t v ht => ?_, fun v hmem => ?_, fun n hmem => ?_⟩
  · simp [hv.count, hspans.length_eq]
  · by_cases hlt : t < vs.length
    · rw [List.getElem?_append_left hlt] at ht
      exact hv.spans t v ht
    · -- a new tensor is a result of the node
      rw [List.getElem?_append_right (Nat.le_of_not_lt hlt)] at ht
      obtain ⟨hi, rfl⟩ := List.getElem?_eq_some_iff.mp ht
      have hid : node.outputs[t - vs.length]? = some t := by
        rw [hids, List.getElem?_map, List.getElem?_range hi, Option.map_some,
          Nat.add_sub_cancel' (Nat.le_of_not_lt hlt)]
      obtain ⟨hi', hid⟩ := List.getElem?_eq_some_iff.mp hid
      have hspan := (List.forall₂_iff_get.mp hspans).2 (t - vs.length) hi' hi
      rwa [List.get_eq_getElem, hid] at hspan
  · rcases List.mem_append.mp hmem with hmem | hmem
    · exact hv.small v hmem
    · exact hsmall v hmem
  · rcases List.mem_append.mp hmem with hmem | hmem
    · exact (hv.computed n hmem).append results
    · obtain rfl := List.mem_singleton.mp hmem
      exact ⟨operands, results, hoperands.append results, hresults, happly⟩

/-- All nodes together. -/
theorem ValuedTo.valued (hv : g.ValuedTo feeds g.nodes.toList vs) (hg : g.WellFormed) :
    g.Valued feeds vs := by
  have hcount : vs.length = g.tensors.size := by rw [hv.count, hg.outputs, List.length_range]
  refine ⟨List.ext_getElem (by simpa using hcount) fun t ht ht' => ?_, hv.small, hv.computed⟩
  rw [List.length_map] at ht
  obtain ⟨s, hs, hdims⟩ := hv.spans t vs[t] (List.getElem?_eq_getElem ht)
  obtain ⟨e, he, rfl⟩ := Option.map_eq_some_iff.mp (shapeOf_eq_ok.mp hs)
  obtain ⟨_, rfl⟩ := Array.getElem?_eq_some_iff.mp he
  rw [List.getElem_map, List.getElem_map, hdims, Array.getElem_toList]

end Graph

/-! ## What is kept -/

namespace Evaluation

variable {e : Evaluation} {count : Nat} {vs : List Tensor}

/-- Of `count` tensors the evaluation **holds** the values `vs` of the first ones, and
none of the others. -/
def Holds (e : Evaluation) (count : Nat) (vs : List Tensor) : Prop :=
  e.values.toList = vs.map some ++ List.replicate (count - vs.length) none

theorem Holds.value (he : e.Holds count vs) {t : TensorId} {v : Tensor} (h : e.value t = .ok v) :
    vs[t]? = some v := by
  unfold Evaluation.value at h
  split at h
  · next u hu =>
    obtain rfl := Except.ok.inj h
    rw [← Array.getElem?_toList, he] at hu
    by_cases hlt : t < vs.length
    · rw [List.getElem?_append_left (by simpa using hlt), List.getElem?_map] at hu
      obtain ⟨w, hw, hsome⟩ := Option.map_eq_some_iff.mp hu
      rw [hw, Option.some.inj hsome]
    · -- there is nothing behind the values
      rw [List.getElem?_append_right (by simpa using hlt)] at hu
      cases (List.mem_replicate.mp (List.mem_of_getElem? hu)).2
  · cases h

/-- The operands of a node are values that are held. -/
theorem Holds.operands (he : e.Holds count vs) {ids : List TensorId} {operands : List Tensor}
    (h : ids.mapM e.value = .ok operands) : Reads vs ids operands :=
  (Outcome.mapM_eq_ok.mp h).imp fun _ _ hvalue => he.value hvalue

/-- The value of the next tensor is kept. -/
theorem Holds.keep (he : e.Holds count vs) (node : Node) (v : Tensor) (hlt : vs.length < count) :
    (e.keep node vs.length v).Holds count (vs ++ [v]) := by
  have hfree : count - vs.length = count - (vs ++ [v]).length + 1 := by
    rw [List.length_append, List.length_singleton]
    omega
  unfold Holds Evaluation.keep at *
  rw [Array.toList_setIfInBounds, he, List.set_append_right _ _ (by simp), List.length_map,
    Nat.sub_self, hfree, List.replicate_succ, List.set_cons_zero, List.map_append,
    List.append_assoc]
  rfl

end Evaluation

/-! ## Evaluations -/

namespace Graph

variable {g : Graph} {feeds : Feeds} {before after : List Node} {node : Node} {vs : List Tensor}
  {e e' : Evaluation} {index : Nat}

theorem Evaluating.bind_eq_ok {α β : Type} {m : Evaluating α} {f : α → Evaluating β} {y : β} :
    (m >>= f) e = .ok y e' ↔ ∃ x e₁, m e = .ok x e₁ ∧ f x e₁ = .ok y e' := by
  simp only [bind, EStateM.bind]
  rcases m e with ⟨x, e₁⟩ | ⟨f, e₁⟩
  · simp only [EStateM.Result.ok.injEq]
    exact ⟨fun h => ⟨x, e₁, ⟨rfl, rfl⟩, h⟩, fun ⟨_, _, ⟨rfl, rfl⟩, h⟩ => h⟩
  · simp

theorem Evaluating.lift_eq_ok {α : Type} {r : Outcome α} {x : α} :
    Evaluating.lift r e = .ok x e' ↔ r = .ok x ∧ e = e' := by
  cases r <;> simp [Evaluating.lift]

/-- A result that is kept has the recorded extents. -/
theorem keepResult_eq_ok {t : TensorId} {v : Tensor} {u : Unit}
    (h : g.keepResult index node t v e = .ok u e') : g.Spans t v.dims ∧ e' = e.keep node t v := by
  obtain ⟨s, _, hshape, h⟩ := Evaluating.bind_eq_ok.mp h
  obtain ⟨hs, rfl⟩ := Evaluating.lift_eq_ok.mp hshape
  obtain ⟨_, _, hchecked, h⟩ := Evaluating.bind_eq_ok.mp h
  obtain ⟨hdims, rfl⟩ := Evaluating.lift_eq_ok.mp hchecked
  cases h
  exact ⟨⟨s, hs, of_decide_eq_true (Outcome.ensure_eq_ok.mp hdims)⟩, rfl⟩

theorem Spans.lt_size {t : TensorId} {dims : List Nat} (h : g.Spans t dims) :
    t < g.tensors.size := by
  obtain ⟨s, hs, -⟩ := h
  exact lt_of_shapeOf hs

/-- The results of a node are kept behind the values that are held. -/
theorem keepResults_eq_ok {results : List Tensor} {u : Unit} (he : e.Holds g.tensors.size vs)
    (h : (((List.range' vs.length results.length).zip results).forM
      (fun (t, v) => g.keepResult index node t v) : Evaluating Unit) e = .ok u e') :
    List.Forall₂ (g.Spans · ·.dims) (List.range' vs.length results.length) results ∧
      e'.Holds g.tensors.size (vs ++ results) := by
  induction results generalizing vs e with
  | nil =>
    cases h
    exact ⟨.nil, by rwa [List.append_nil]⟩
  | cons v rest ih =>
    obtain ⟨_, e₁, hfirst, hrest⟩ := Evaluating.bind_eq_ok.mp h
    obtain ⟨hspan, rfl⟩ := keepResult_eq_ok hfirst
    have hnext : vs.length + 1 = (vs ++ [v]).length := by simp
    rw [hnext] at hrest
    obtain ⟨hspans, hholds⟩ := ih (he.keep node v hspan.lt_size) hrest
    rw [List.append_assoc] at hholds
    exact ⟨.cons hspan (hnext ▸ hspans), hholds⟩

/-- The results of a node come from its operands and the extents that are recorded for the
first of them. -/
theorem nodeResults_eq_ok {results : List Tensor} (h : g.nodeResults feeds node e = .ok results) :
    ∃ operands dims, node.inputs.mapM e.value = .ok operands ∧
      node.operation.apply feeds operands dims = .ok results ∧
      (∀ v ∈ results, v.data.size < Word.signedModulus) ∧ (node.outputs = [] → dims = []) ∧
      ∀ t rest, node.outputs = t :: rest → g.Spans t dims := by
  unfold nodeResults at h
  cases houtputs : node.outputs with
  | nil =>
    simp only [houtputs, Outcome.bind_eq_ok, Outcome.pure_eq_ok, Outcome.demand_eq_ok,
      List.all_eq_true, decide_eq_true_eq] at h
    obtain ⟨operands, hoperands, _, rfl, _, happly, -, hsmall, rfl⟩ := h
    exact ⟨operands, [], hoperands, happly, hsmall, fun _ => rfl, fun _ _ hsome => by cases hsome⟩
  | cons t rest =>
    simp only [houtputs, Outcome.bind_eq_ok, Outcome.pure_eq_ok, Outcome.map_eq_ok,
      Outcome.demand_eq_ok, List.all_eq_true, decide_eq_true_eq] at h
    obtain ⟨operands, hoperands, _, ⟨s, hs, rfl⟩, _, happly, -, hsmall, rfl⟩ := h
    refine ⟨operands, s.dims, hoperands, happly, hsmall, fun hnone => ?_, fun _ _ hsome => ?_⟩
    · cases hnone
    · obtain ⟨rfl, -⟩ := List.cons.inj hsome
      exact ⟨s, hs, rfl⟩

theorem Spans.unique {t : TensorId} {dims dims' : List Nat} (h : g.Spans t dims)
    (h' : g.Spans t dims') : dims = dims' := by
  obtain ⟨s, hs, rfl⟩ := h
  exact ((spans_iff hs).mp h').symm

/-- **One node**: a valuation of the nodes in front of it that is held grows by its results. -/
theorem evaluateNode_eq_ok {u : Unit} (hg : g.WellFormed)
    (hnodes : g.nodes.toList = before ++ node :: after) (hv : g.ValuedTo feeds before vs)
    (he : e.Holds g.tensors.size vs) (h : g.evaluateNode feeds index node e = .ok u e') :
    ∃ results, g.ValuedTo feeds (before ++ [node]) (vs ++ results) ∧
      e'.Holds g.tensors.size (vs ++ results) := by
  obtain ⟨_, _, hget, h⟩ := Evaluating.bind_eq_ok.mp h
  cases hget
  obtain ⟨results, _, hproduced, h⟩ := Evaluating.bind_eq_ok.mp h
  obtain ⟨hresults, rfl⟩ := Evaluating.lift_eq_ok.mp hproduced
  obtain ⟨_, _, hchecked, h⟩ := Evaluating.bind_eq_ok.mp h
  obtain ⟨hcount, rfl⟩ := Evaluating.lift_eq_ok.mp hchecked
  have hlength := of_decide_eq_true (Outcome.ensure_eq_ok.mp hcount)
  obtain ⟨operands, dims, hoperands, happly, hsmall, hnone, hfirst⟩ :=
    nodeResults_eq_ok (Outcome.inContext_eq_ok.mp hresults)
  have hids : node.outputs = List.range' vs.length results.length := by
    rw [hlength, hv.count, List.range'_eq_map_range]
    exact hg.outputs_eq hnodes
  rw [hids] at h
  obtain ⟨hspans, hholds⟩ := keepResults_eq_ok he h
  rw [← hids] at hspans
  refine ⟨results, hv.step hg hnodes (he.operands hoperands) hspans hsmall ?_, hholds⟩
  -- the recorded extents are those of the first result
  have hdims : dims = ((results.head?).map (·.dims)).getD [] := by
    cases results with
    | nil => exact hnone hids
    | cons v rest =>
      obtain ⟨t, others, hspan, -, houtputs⟩ := List.forall₂_cons_right_iff.mp hspans
      exact (hfirst t others houtputs).unique hspan
  rwa [← hdims]

/-- **The nodes that are left.** -/
theorem evaluateFrom_eq_ok {u : Unit} (hg : g.WellFormed) :
    ∀ (rest before : List Node) (index : Nat) (vs : List Tensor) (e : Evaluation),
      g.nodes.toList = before ++ rest → g.ValuedTo feeds before vs → e.Holds g.tensors.size vs →
      g.evaluateFrom feeds index rest e = .ok u e' →
      ∃ vs', g.ValuedTo feeds (before ++ rest) vs' ∧ e'.Holds g.tensors.size vs' := by
  intro rest
  induction rest with
  | nil =>
    intro before index vs e _ hv he h
    cases h
    exact ⟨vs, by rwa [List.append_nil], he⟩
  | cons node rest ih =>
    intro before index vs e hnodes hv he h
    obtain ⟨_, e₁, hnode, hrest⟩ := Evaluating.bind_eq_ok.mp h
    obtain ⟨results, hv₁, he₁⟩ := evaluateNode_eq_ok hg hnodes hv he hnode
    have hsplit : before ++ node :: rest = before ++ [node] ++ rest := by simp
    rw [hsplit] at hnodes ⊢
    exact ih (before ++ [node]) (index + 1) (vs ++ results) e₁ hnodes hv₁ he₁ hrest

/-- **A run succeeds just if there is a valuation**: the values that it has kept, or those
that it finds. -/
theorem runNamed_isOk_iff (hg : g.WellFormed) :
    (∃ outputs, (g.runNamed feeds).outputs = .ok outputs) ↔ ∃ vs, g.Valued feeds vs := by
  constructor
  · rintro ⟨outputs, h⟩
    unfold runNamed at h
    split at h
    · next e hrun =>
      have hstart : ({ values := Array.replicate g.tensorCount none } : Evaluation).Holds
          g.tensors.size [] := by
        simp [Evaluation.Holds, tensorCount]
      obtain ⟨vs, hv, -⟩ := evaluateFrom_eq_ok hg g.nodes.toList [] 0 [] _ rfl .start hstart hrun
      exact ⟨vs, hv.valued hg⟩
    · cases h
  · rintro ⟨vs, hv⟩
    exact ⟨_, by rw [hv.runNamed hg]⟩

end Graph

end GridNet
