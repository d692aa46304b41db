import GridNet.Proofs.FoundValues

/-!
# Evaluations of a graph that has grown

A longer graph is evaluated node by node like the graph that is its front, until the nodes of the
front are done. What comes behind them writes only to tensors of its own. So the values of the front
are the same in both evaluations, and where one of its nodes fails, the evaluation of the longer
graph fails in the same way.

* `Graph.Evaluating.Mirrors` — a step does in a wider state what another one does.
* `Graph.Evaluating.Keeps` — a step keeps the values of the first tensors.
* `Graph.Repeats`, `Graph.Within.repeats` — the evaluation of the front inside that of the whole.
* `Graph.Finds.of_within` — what is found of a tensor stays.
-/

namespace GridNet

/-- The state that a step leaves, whether it ends or fails. -/
def finalState {ε σ α : Type} : EStateM.Result ε σ α → σ
  | .ok _ s => s
  | .error _ s => s

/-! ## Wider states -/

namespace Evaluation

variable {e : Evaluation} {t : TensorId} {extra : Nat}

/-- The state **with room for more tensors**, of which none has been computed. -/
def widened (e : Evaluation) (extra : Nat) : Evaluation :=
  { e with values := e.values ++ Array.replicate extra none }

theorem getElem?_widened (ht : t < e.values.size) : (e.widened extra).values[t]? = e.values[t]? :=
  Array.getElem?_append_left ht

/-- Behind the tensors that there were, nothing can be read. -/
theorem value_widened (e : Evaluation) (extra : Nat) (t : TensorId) :
    (e.widened extra).value t = e.value t := by
  rcases Nat.lt_or_ge t e.values.size with hlt | hge
  · rw [Evaluation.value, getElem?_widened hlt, Evaluation.value]
  · rw [Evaluation.value, Evaluation.value, widened, Array.getElem?_append_right hge,
      Array.getElem?_eq_none hge, Array.getElem?_replicate]
    by_cases hroom : t - e.values.size < extra <;> simp [hroom]

theorem keep_widened (node : Node) (v : Tensor) (ht : t < e.values.size) :
    (e.widened extra).keep node t v = (e.keep node t v).widened extra := by
  simp [keep, widened, Array.setIfInBounds_append_left, ht]

end Evaluation

namespace Graph

variable {g g' : Graph} {feeds : Feeds} {e : Evaluation} {extra index : Nat}
  {node : Node} {α β : Type}

namespace Evaluating

theorem bind_error {m : Evaluating α} {f : α → Evaluating β} {failure : Failure} {e' : Evaluation}
    (h : m e = .error failure e') : (m >>= f) e = .error failure e' := by
  simp only [bind, EStateM.bind, h]

/-- The same ending in a wider state. -/
def widenResult (extra : Nat) :
    EStateM.Result Failure Evaluation α → EStateM.Result Failure Evaluation α
  | .ok x e => .ok x (e.widened extra)
  | .error f e => .error f (e.widened extra)

/-- `m'` **mirrors** `m`: it does in the wider state what `m` does in the state `e`. The number of
tensors stays. -/
structure Mirrors (extra : Nat) (e : Evaluation) (m m' : Evaluating α) : Prop where
  size : (finalState (m e)).values.size = e.values.size
  same : m' (e.widened extra) = widenResult extra (m e)

theorem Mirrors.pure (x : α) : Mirrors extra e (Pure.pure x) (Pure.pure x) := ⟨rfl, rfl⟩

theorem Mirrors.lift (r : Outcome α) : Mirrors extra e (Evaluating.lift r) (Evaluating.lift r) := by
  cases r <;> exact ⟨rfl, rfl⟩

/-- Two steps, of which the second one is mirrored wherever the first one ends. -/
theorem Mirrors.bind {m m' : Evaluating α} {f f' : α → Evaluating β} (hm : Mirrors extra e m m')
    (hf : ∀ x e₁, e₁.values.size = e.values.size → Mirrors extra e₁ (f x) (f' x)) :
    Mirrors extra e (m >>= f) (m' >>= f') := by
  have hsize := hm.size
  have hsame := hm.same
  cases hresult : m e with
  | ok x e₁ =>
    rw [hresult] at hsize hsame
    have hnext := hf x e₁ hsize
    exact ⟨by rw [bind_ok hresult, hnext.size]; exact hsize,
      by rw [bind_ok hresult, bind_ok hsame]; exact hnext.same⟩
  | error f e₁ =>
    rw [hresult] at hsize hsame
    exact ⟨by rw [bind_error hresult]; exact hsize,
      by rw [bind_error hresult, bind_error hsame]; rfl⟩

/-- A step that asks for the state first. -/
theorem Mirrors.after_get {f f' : Evaluation → Evaluating β}
    (h : Mirrors extra e (f e) (f' (e.widened extra))) :
    Mirrors extra e (get >>= f) (get >>= f') := by
  have hget : (get : Evaluating Evaluation) e = .ok e e := rfl
  have hwide : (get : Evaluating Evaluation) (e.widened extra) = .ok (e.widened extra)
      (e.widened extra) := rfl
  exact ⟨by rw [bind_ok hget]; exact h.size, by rw [bind_ok hget, bind_ok hwide]; exact h.same⟩

/-- A step **keeps** the values of the first tensors, and all that has been seen. -/
structure Keeps (count : Nat) (e : Evaluation) (m : Evaluating α) : Prop where
  values : ∀ t < count, (finalState (m e)).values[t]? = e.values[t]?
  seen : e.seen <:+ (finalState (m e)).seen

variable {count : Nat}

theorem Keeps.pure (x : α) : Keeps count e (Pure.pure x) := ⟨fun _ _ => rfl, List.suffix_rfl⟩

theorem Keeps.lift (r : Outcome α) : Keeps count e (Evaluating.lift r) := by
  cases r <;> exact ⟨fun _ _ => rfl, List.suffix_rfl⟩

theorem Keeps.bind {m : Evaluating α} {f : α → Evaluating β} (hm : Keeps count e m)
    (hf : ∀ x e₁, Keeps count e₁ (f x)) : Keeps count e (m >>= f) := by
  obtain ⟨hvalues, hseen⟩ := hm
  cases hresult : m e with
  | ok x e₁ =>
    rw [hresult] at hvalues hseen
    have hnext := hf x e₁
    refine ⟨fun t ht => ?_, ?_⟩ <;> rw [bind_ok hresult]
    · exact (hnext.values t ht).trans (hvalues t ht)
    · exact hseen.trans hnext.seen
  | error f e₁ =>
    rw [hresult] at hvalues hseen
    refine ⟨?_, ?_⟩ <;> rw [bind_error hresult]
    · exact hvalues
    · exact hseen

end Evaluating

/-! ## Nodes of the front -/

/-- A result of the front is kept in the same way. -/
theorem keepResult_mirrors {t : TensorId} (v : Tensor) (hshape : g'.shapeOf t = g.shapeOf t)
    (ht : t < e.values.size) :
    Evaluating.Mirrors extra e (g.keepResult index node t v) (g'.keepResult index node t v) := by
  unfold keepResult
  rw [hshape]
  refine .bind (.lift _) fun s e₁ hsize => .bind (.lift _) fun _ e₂ hsize₂ => ⟨?_, ?_⟩
  · exact Array.size_setIfInBounds
  · show EStateM.Result.ok () ((e₂.widened extra).keep node t v) = _
    rw [Evaluation.keep_widened node v (ht.trans_eq (hsize₂.trans hsize).symm)]
    rfl

/-- The nodes make the same of the same values. -/
theorem nodeResults_widened (hshapes : ∀ t ∈ node.outputs, g'.shapeOf t = g.shapeOf t) :
    g'.nodeResults feeds node (e.widened extra) = g.nodeResults feeds node e := by
  unfold nodeResults
  rw [funext (Evaluation.value_widened e extra)]
  cases houtputs : node.outputs with
  | nil => rfl
  | cons t rest => simp only [hshapes t (houtputs ▸ List.mem_cons_self)]

/-- **One node** of the front. -/
theorem evaluateNode_mirrors (hshapes : ∀ t ∈ node.outputs, g'.shapeOf t = g.shapeOf t)
    (hroom : ∀ t ∈ node.outputs, t < e.values.size) :
    Evaluating.Mirrors extra e (g.evaluateNode feeds index node)
    (g'.evaluateNode feeds index node) := by
  unfold evaluateNode
  refine .after_get ?_
  rw [nodeResults_widened hshapes]
  refine .bind (.lift _) fun produced e₁ hsize₁ => .bind (.lift _) fun _ e₂ hsize₂ => ?_
  have hsize : e₂.values.size = e.values.size := hsize₂.trans hsize₁
  clear hsize₁ hsize₂
  -- the results are kept one after the other
  generalize node.outputs = outputs at hshapes hroom
  induction outputs generalizing produced e₂ with
  | nil => exact .pure ()
  | cons t rest ih =>
    cases produced with
    | nil => exact .pure ()
    | cons v others =>
      have hfirst : Evaluating.Mirrors extra e₂ (g.keepResult index node t v)
          (g'.keepResult index node t v) :=
        keepResult_mirrors v (hshapes t List.mem_cons_self) (hsize ▸ hroom t List.mem_cons_self)
      exact .bind hfirst fun _ e₃ hsize₃ => ih others e₃ (hsize₃.trans hsize)
        (fun u hu => hshapes u (List.mem_cons_of_mem _ hu)) fun u hu =>
          hroom u (List.mem_cons_of_mem _ hu)

/-- **All nodes** of the front. -/
theorem evaluateFrom_mirrors {nodes : List Node}
    (hshapes : ∀ n ∈ nodes, ∀ t ∈ n.outputs, g'.shapeOf t = g.shapeOf t)
    (hroom : ∀ n ∈ nodes, ∀ t ∈ n.outputs, t < e.values.size) :
    Evaluating.Mirrors extra e (g.evaluateFrom feeds index nodes)
    (g'.evaluateFrom feeds index nodes) := by
  induction nodes generalizing index e with
  | nil => exact .pure ()
  | cons n rest ih =>
    refine .bind (evaluateNode_mirrors (hshapes n List.mem_cons_self) (hroom n List.mem_cons_self))
      fun _ e₁ hsize => ih (fun m hm => hshapes m (List.mem_cons_of_mem _ hm)) fun m hm t ht => ?_
    exact hsize ▸ hroom m (List.mem_cons_of_mem _ hm) t ht

/-! ## Nodes behind the front -/

variable {count : Nat}

theorem keepResult_keeps {t : TensorId} (v : Tensor) (ht : count ≤ t) :
    Evaluating.Keeps count e (g.keepResult index node t v) := by
  unfold keepResult
  refine .bind (.lift _) fun s e₁ => .bind (.lift _) fun _ e₂ =>
    ⟨fun u hu => ?_, List.suffix_cons _ _⟩
  exact Array.getElem?_setIfInBounds_ne (by omega)

theorem evaluateNode_keeps (hbehind : ∀ t ∈ node.outputs, count ≤ t) :
    Evaluating.Keeps count e (g.evaluateNode feeds index node) := by
  unfold evaluateNode
  refine .bind ⟨fun _ _ => rfl, List.suffix_rfl⟩ fun state e₁ =>
    .bind (.lift _) fun produced e₂ => .bind (.lift _) fun _ e₃ => ?_
  generalize node.outputs = outputs at hbehind
  induction outputs generalizing produced e₃ with
  | nil => exact .pure ()
  | cons t rest ih =>
    cases produced with
    | nil => exact .pure ()
    | cons v others =>
      exact .bind (keepResult_keeps v (hbehind t List.mem_cons_self)) fun _ e₄ =>
        ih others e₄ fun u hu => hbehind u (List.mem_cons_of_mem _ hu)

/-- Nodes whose results are numbered behind the front leave its values alone. -/
theorem evaluateFrom_keeps {nodes : List Node} (hbehind : ∀ n ∈ nodes, ∀ t ∈ n.outputs, count ≤ t) :
    Evaluating.Keeps count e (g.evaluateFrom feeds index nodes) := by
  induction nodes generalizing index e with
  | nil => exact .pure ()
  | cons n rest ih =>
    exact .bind (evaluateNode_keeps (hbehind n List.mem_cons_self)) fun _ e₁ =>
      ih fun m hm => hbehind m (List.mem_cons_of_mem _ hm)

/-! ## Both evaluations -/

theorem evaluateFrom_append (g : Graph) (feeds : Feeds) (index : Nat) (front rest : List Node) :
    g.evaluateFrom feeds index (front ++ rest) =
      (do g.evaluateFrom feeds index front; g.evaluateFrom feeds (index + front.length) rest) := by
  induction front generalizing index with
  | nil => rfl
  | cons n front ih =>
    rw [List.cons_append, evaluateFrom, evaluateFrom, ih, List.length_cons, bind_assoc,
      Nat.add_right_comm, Nat.add_assoc]

theorem WellFormed.result_lt (hg : g.WellFormed) (hnode : node ∈ g.nodes.toList) {t : TensorId}
    (ht : t ∈ node.outputs) : t < g.tensors.size := by
  have hmem : t ∈ g.nodes.toList.flatMap (·.outputs) := List.mem_flatMap.mpr ⟨node, hnode, ht⟩
  rw [hg.outputs] at hmem
  exact List.mem_range.mp hmem

/-- The longer graph has its own tensors behind those of the front. -/
theorem Within.exists_behind (h : g.Within g') (hg : g.WellFormed) (hg' : g'.WellFormed) :
    ∃ added extra, g'.nodes.toList = g.nodes.toList ++ added ∧
      g'.tensors.size = g.tensors.size + extra ∧
      ∀ n ∈ added, ∀ t ∈ n.outputs, g.tensors.size ≤ t := by
  obtain ⟨added, hnodes⟩ := h.nodes
  obtain ⟨more, htensors⟩ := h.tensors
  have hcount : g'.tensors.size = g.tensors.size + more.length := by
    simpa using (congrArg List.length htensors).symm
  refine ⟨added, more.length, hnodes.symm, hcount, fun n hn t ht => ?_⟩
  have hall := hg'.outputs
  rw [← hnodes, List.flatMap_append, hg.outputs, hcount, List.range_add] at hall
  have hmem : t ∈ added.flatMap (·.outputs) := List.mem_flatMap.mpr ⟨n, hn, ht⟩
  rw [List.append_cancel_left hall] at hmem
  obtain ⟨i, -, rfl⟩ := List.mem_map.mp hmem
  exact Nat.le_add_right _ _

/-- The evaluation of the longer graph is that of the front, with room for more values, which then
**goes on**. -/
theorem Within.evaluate_eq (h : g.Within g') (hg : g.WellFormed) (hg' : g'.WellFormed)
    (feeds : Feeds) :
    ∃ (extra : Nat) (front behind : Evaluating Unit),
      Evaluating.Mirrors extra { values := Array.replicate g.tensors.size none }
        (g.evaluateFrom feeds 0 g.nodes.toList) front ∧
      (∀ e, Evaluating.Keeps g.tensors.size e behind) ∧
      g'.evaluate feeds = (front >>= fun _ => behind)
        (Evaluation.widened { values := Array.replicate g.tensors.size none } extra) := by
  obtain ⟨added, extra, hnodes, hcount, hbehind⟩ := h.exists_behind hg hg'
  refine ⟨extra, g'.evaluateFrom feeds 0 g.nodes.toList,
    g'.evaluateFrom feeds (0 + g.nodes.toList.length) added, ?_, fun e =>
      evaluateFrom_keeps hbehind, ?_⟩
  · exact evaluateFrom_mirrors (fun n hn t ht => h.shapeOf_eq (hg.result_lt hn ht)) fun n hn t ht =>
      (hg.result_lt hn ht).trans_eq Array.size_replicate.symm
  · have hstart : Evaluation.widened { values := Array.replicate g.tensors.size none } extra =
        { values := Array.replicate g'.tensors.size none } := by
      simp [Evaluation.widened, hcount]
    rw [hstart, ← evaluateFrom_append, ← hnodes]
    rfl

/-- The evaluation of `g'` **repeats** that of `g`: the values of all tensors of `g` are the same in
the end, whatever was seen of `g` is seen first, and a failure of a node of `g` is that of the
evaluation of `g'`. -/
structure Repeats (g g' : Graph) (feeds : Feeds) : Prop where
  values : ∀ t < g.tensorCount,
    (finalState (g'.evaluate feeds)).values[t]? = (finalState (g.evaluate feeds)).values[t]?
  seen : (finalState (g.evaluate feeds)).seen.reverse <+:
    (finalState (g'.evaluate feeds)).seen.reverse
  failure : ∀ f e, g.evaluate feeds = .error f e → ∃ e', g'.evaluate feeds = .error f e'

/-- **The evaluation of the front** is repeated by that of the whole graph, whether it
ends or fails. -/
theorem Within.repeats (h : g.Within g') (hg : g.WellFormed) (hg' : g'.WellFormed) (feeds : Feeds) :
    g.Repeats g' feeds := by
  obtain ⟨extra, front, behind, ⟨hsize, hsame⟩, hkeeps, hwhole⟩ := h.evaluate_eq hg hg' feeds
  have hfront : g.evaluate feeds =
      g.evaluateFrom feeds 0 g.nodes.toList { values := Array.replicate g.tensors.size none } := rfl
  rw [← hfront] at hsize hsame
  cases hresult : g.evaluate feeds with
  | ok u e =>
    -- the nodes behind the front go on from the values of the front
    rw [hresult] at hsize hsame
    rw [Evaluating.bind_ok hsame] at hwhole
    refine ⟨fun t ht => ?_, ?_, fun _ _ hfailed => ?_⟩
    · rw [hresult, hwhole, (hkeeps _).values t ht]
      exact Evaluation.getElem?_widened (ht.trans_eq (hsize.trans Array.size_replicate).symm)
    · rw [hresult, hwhole]
      exact List.reverse_prefix.mpr (hkeeps (e.widened extra)).seen
    · rw [hresult] at hfailed
      cases hfailed
  | error f e =>
    rw [hresult] at hsize hsame
    rw [Evaluating.bind_error hsame] at hwhole
    refine ⟨fun t ht => ?_, ?_, fun f' e₁ hfailed => ?_⟩
    · rw [hresult, hwhole]
      exact Evaluation.getElem?_widened (ht.trans_eq (hsize.trans Array.size_replicate).symm)
    · rw [hresult, hwhole]
      exact List.prefix_rfl
    · rw [hresult] at hfailed
      obtain ⟨rfl, rfl⟩ := EStateM.Result.error.inj hfailed
      exact ⟨_, hwhole⟩

/-- **What is found of a tensor stays**: in a longer graph, an evaluation that comes to its end
finds it again. -/
theorem Finds.of_within {t : TensorId} {v v' : Tensor} (hfinds : g.Finds feeds t v)
    (hfinds' : g'.Finds feeds t v')
    (h : g.Within g') (hg : g.WellFormed) (hg' : g'.WellFormed) : v' = v := by
  obtain ⟨e, hrun, hvalue⟩ := hfinds
  obtain ⟨e', hrun', hvalue'⟩ := hfinds'
  obtain ⟨vs, hv, he⟩ := evaluate_eq_ok hg hrun
  have ht : t < g.tensorCount :=
    (List.getElem?_eq_some_iff.mp (he.value hvalue)).1.trans_eq hv.length_eq
  have hsame := (h.repeats hg hg' feeds).values t ht
  rw [hrun, hrun'] at hsame
  change e'.values[t]? = e.values[t]? at hsame
  have hvalues : e'.value t = e.value t := by rw [Evaluation.value, Evaluation.value, hsame]
  exact Except.ok.inj (hvalue'.symm.trans (hvalues.trans hvalue))

end Graph

end GridNet
