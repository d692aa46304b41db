import GridNet.Proofs.InPlace
import Mathlib.Algebra.Order.BigOperators.GroupWithZero.List
import Mathlib.Data.List.Nodup

/-!
# What holds of every recorded graph

Calls of the recorder, made one after the other on one graph in memory, keep it consistent, whatever
they are and however many of them fail: tensors are numbered in the order in which nodes make them,
a node reads only what stands in front of it, and names are given once. A call that fails leaves the
graph as it was, and one that succeeds appends one node or names one output.

* `Shape.count` — the elements of a shape, counted extent by extent.
* `Graph.Consistent` — the numbering of tensors, their producers, shapes and names.
* `Recording.execute`, `Recording.Effect` — a call in place, and what its success does.
* `Recording.session_consistent` — what holds after any calls, and of one call more.
-/

namespace GridNet

/-! ## Counting elements -/

namespace Shape

/-- The count of elements taken on from extent number `index`, with a check at each extent. -/
def countFrom (dims : List Nat) : (index count : Nat) → List Nat → Outcome Nat
  | _, count, [] => .ok count
  | index, count, d :: rest => do
    ensure (0 < d) s!"dimension {index} must be greater than zero (got {dimsText dims})"
    ensure (count * d < Word.modulus)
      s!"tensor shape {dimsText dims} overflows at dimension {index}"
    countFrom dims (index + 1) (count * d) rest

/-- The **number of elements** of a list of extents, counted extent by extent. -/
def count (dims : List Nat) : Outcome Nat := do
  ensure (!dims.isEmpty) "tensor shape must have at least one dimension"
  countFrom dims 0 1 dims

theorem volume_eq_prod (dims : List Nat) : volume dims = dims.prod := by
  induction dims with
  | nil => rfl
  | cons d rest ih => rw [volume, List.prod_cons, ih]

/-- The count goes through exactly when all extents left are positive and the whole count is in
range; its failure is that of the first extent at fault. -/
theorem countFrom_eq (dims : List Nat) (index count : Nat) (rest : List Nat)
    (hcount : count < Word.modulus) :
    countFrom dims index count rest =
      if (∀ d ∈ rest, 0 < d) ∧ count * volume rest < Word.modulus then
        .ok (count * volume rest)
      else .error (.note ((faultFrom dims index count rest).getD "")) := by
  induction rest generalizing index count with
  | nil => simp [countFrom, volume, hcount]
  | cons d rest ih =>
    rw [countFrom, faultFrom]
    rcases Nat.eq_zero_or_pos d with rfl | hd
    · simp [ensure]
    rcases Nat.lt_or_ge (count * d) Word.modulus with hlt | hge
    · -- this extent passes, and the rest decides
      have hrest := ih (index + 1) (count * d) hlt
      simp only [ensure, hd, hlt, decide_true, if_true, Outcome.ok_bind, hrest, hd.ne', if_false,
        Nat.not_le.mpr hlt, volume, List.forall_mem_cons, true_and, Nat.mul_assoc]
    · -- the count only grows behind an extent at which it is too large
      have hover : ¬ ((∀ e ∈ d :: rest, 0 < e) ∧ count * volume (d :: rest) < Word.modulus) := by
        rintro ⟨hpos, hsmall⟩
        have hvolume : 1 ≤ volume rest := by
          rw [volume_eq_prod]
          exact List.prod_pos fun e he => hpos e (List.mem_cons_of_mem _ he)
        have : count * d * 1 ≤ count * d * volume rest := Nat.mul_le_mul_left _ hvolume
        rw [volume, ← Nat.mul_assoc] at hsmall
        omega
      rw [if_neg hover]
      simp [ensure, hd, hd.ne', Nat.not_lt.mpr hge, hge]

/-- **A shape has as many elements as are counted**, and is refused where the count is. -/
theorem ofDims_elements (dims : List Nat) : (ofDims dims).map elements = count dims := by
  have hone : 1 < Word.modulus := by decide
  cases dims with
  | nil => rfl
  | cons d rest =>
    have hcount : count (d :: rest) = countFrom (d :: rest) 0 1 (d :: rest) := rfl
    rw [hcount, countFrom_eq _ 0 1 _ hone, Nat.one_mul]
    unfold ofDims
    by_cases h : (∀ e ∈ d :: rest, 0 < e) ∧ volume (d :: rest) < Word.modulus
    · rw [dif_pos ⟨List.cons_ne_nil _ _, h⟩, if_pos h]
      rfl
    · rw [dif_neg fun hall => h hall.2, if_neg h]
      rfl

end Shape

namespace Graph

/-! ## Consistent graphs -/

/-- A **consistent graph**. -/
structure Consistent (g : Graph) : Prop where
  /-- the results of the nodes, read in order, are all tensors, each once -/
  numbered : g.nodes.toList.flatMap (·.outputs) = List.range g.tensorCount
  /-- the producer of a tensor is the node that lists it -/
  producers : ∀ (t : TensorId) (k : Nat), (g.tensors[t]?).map (·.producer) = some k ↔
    ∃ node : Node, g.nodes[k]? = some node ∧ t ∈ node.outputs
  /-- a node reads results of nodes in front of it -/
  ordered : ∀ (k : Nat) (node : Node), g.nodes[k]? = some node → ∀ t ∈ node.inputs,
    ∃ j < k, ∃ source : Node, g.nodes[j]? = some source ∧ t ∈ source.outputs
  /-- every shape has extents, all positive, and as many elements as their product -/
  shapes : ∀ e ∈ g.tensors.toList, e.shape.dims ≠ [] ∧ (∀ d ∈ e.shape.dims, 0 < d) ∧
    Shape.count e.shape.dims = .ok e.shape.elements ∧ e.shape.elements = e.shape.dims.prod
  inputNames : (g.inputs.map (·.1)).Nodup
  /-- the name of an input is that of the node which makes its tensor -/
  declared : ∀ name t, (name, t) ∈ g.inputs →
    ∃ node, g.producer? t = some node ∧ node.operation = .input name ∧ node.outputs = [t]
  outputNames : (g.outputs.map (·.1)).Nodup
  /-- the name of an output is that of a tensor that exists -/
  marked : ∀ name t, (name, t) ∈ g.outputs → t < g.tensorCount

variable {g g' : Graph}

theorem push_nodes_getElem? (g : Graph) (op : Operation) (inputs : List TensorId)
    (shapes : List Shape) (k : Nat) :
    (g.push op inputs shapes).1.nodes[k]? = if k = g.nodes.size then
      some ⟨op, inputs, (List.range shapes.length).map (g.tensors.size + ·)⟩ else g.nodes[k]? := by
  simp [push, Array.getElem?_push]

theorem push_tensors_getElem? (g : Graph) (op : Operation) (inputs : List TensorId)
    (shapes : List Shape) (t : TensorId) :
    (g.push op inputs shapes).1.tensors[t]? = if t < g.tensors.size then g.tensors[t]? else
      (shapes[t - g.tensors.size]?).map (⟨·, g.nodes.size⟩) := by
  rw [← Array.getElem?_toList, push_tensors, List.getElem?_append]
  simp

/-- A node with its results keeps track of who made what. -/
theorem producers_push (h : ∀ (t : TensorId) (k : Nat), (g.tensors[t]?).map (·.producer) = some k ↔
      ∃ node, g.nodes[k]? = some node ∧ t ∈ node.outputs)
    (op : Operation) (inputs : List TensorId) (shapes : List Shape) (t k : Nat) :
    ((g.push op inputs shapes).1.tensors[t]?).map (·.producer) = some k ↔
      ∃ node, (g.push op inputs shapes).1.nodes[k]? = some node ∧ t ∈ node.outputs := by
  rw [push_tensors_getElem?, push_nodes_getElem?]
  by_cases ht : t < g.tensors.size
  · -- a tensor that was there before is listed by a node that was there before
    rw [if_pos ht, h t k]
    split
    · next hk =>
      subst hk
      constructor
      · rintro ⟨node, hnode, -⟩
        simp at hnode
      · rintro ⟨node, hnode, hmem⟩
        obtain rfl := Option.some.inj hnode
        obtain ⟨i, -, rfl⟩ := List.mem_map.mp hmem
        omega
    · rfl
  · -- a new tensor is listed by the new node, and by no other
    rw [if_neg ht]
    split
    · next hk =>
      subst hk
      have hmem : t ∈ (List.range shapes.length).map (g.tensors.size + ·) ↔
          t - g.tensors.size < shapes.length := by
        simp only [List.mem_map, List.mem_range]
        constructor
        · rintro ⟨i, hi, rfl⟩
          omega
        · intro hlt
          exact ⟨t - g.tensors.size, hlt, by omega⟩
      rcases hs : shapes[t - g.tensors.size]? with _ | s
      · have := List.getElem?_eq_none_iff.mp hs
        simp [hmem, this]
      · have := (List.getElem?_eq_some_iff.mp hs).1
        simp [hmem, this]
    · next hk =>
      constructor
      · intro hmade
        obtain ⟨s, -, hs⟩ := Option.map_eq_some_iff.mp
          (by simpa only [Option.map_map] using hmade)
        exact absurd hs.symm hk
      · rintro ⟨node, hnode, hmem⟩
        obtain ⟨e, he, -⟩ := Option.map_eq_some_iff.mp ((h t k).mpr ⟨node, hnode, hmem⟩)
        exact absurd (Array.getElem?_eq_some_iff.mp he).1 ht

/-- The node that makes a tensor goes on making it. -/
theorem producer?_push {t : TensorId} {node : Node} (h : g.producer? t = some node)
    (op : Operation) (inputs : List TensorId) (shapes : List Shape) :
    (g.push op inputs shapes).1.producer? t = some node := by
  obtain ⟨e, he, hnode⟩ := Option.bind_eq_some_iff.mp h
  have ht := (Array.getElem?_eq_some_iff.mp he).1
  have hk := (Array.getElem?_eq_some_iff.mp hnode).1
  rw [producer?, push_tensors_getElem?, if_pos ht, he, Option.bind_some, push_nodes_getElem?,
    if_neg hk.ne]
  exact hnode

/-- The new node makes its first result. -/
theorem producer?_pushed (g : Graph) (op : Operation) (inputs : List TensorId) (shape : Shape) :
    (g.push op inputs [shape]).1.producer? g.tensors.size =
      some ⟨op, inputs, [g.tensors.size]⟩ := by
  rw [producer?, push_tensors_getElem?, if_neg (Nat.lt_irrefl _), Nat.sub_self,
    List.getElem?_cons_zero, Option.map_some, Option.bind_some, push_nodes_getElem?, if_pos rfl]
  simp

theorem WellFormed.ordered (hg : g.WellFormed) {k : Nat} {node : Node}
    (hnode : g.nodes[k]? = some node) : ∀ t ∈ node.inputs,
      ∃ j < k, ∃ source : Node, g.nodes[j]? = some source ∧ t ∈ source.outputs := by
  intro t ht
  rw [← Array.getElem?_toList] at hnode
  obtain ⟨hk, rfl⟩ := List.getElem?_eq_some_iff.mp hnode
  have hsplit : g.nodes.toList = g.nodes.toList.take k ++
      g.nodes.toList[k] :: g.nodes.toList.drop (k + 1) := by
    rw [List.getElem_cons_drop, List.take_append_drop]
  obtain ⟨source, hsource, hmem⟩ := List.mem_flatMap.mp (hg.inputs _ _ _ hsplit t ht)
  obtain ⟨j, hj, rfl⟩ := List.getElem_of_mem hsource
  rw [List.length_take] at hj
  refine ⟨j, by omega, _, ?_, hmem⟩
  rw [← Array.getElem?_toList, List.getElem_take, List.getElem?_eq_getElem]

theorem nodup_names {α : Type} {entries : List (String × α)} (h : (entries.map (·.1)).Nodup)
    {name : String} (hfresh : ∀ x, (name, x) ∉ entries) (x : α) :
    ((entries ++ [(name, x)]).map (·.1)).Nodup := by
  rw [List.map_append, List.nodup_append]
  refine ⟨h, List.nodup_singleton _, fun a ha b hb => ?_⟩
  obtain ⟨⟨_, y⟩, hy, rfl⟩ := List.mem_map.mp ha
  rintro rfl
  obtain rfl := List.mem_singleton.mp hb
  exact hfresh y hy

theorem Reachable.producers (hg : g.Reachable) (t : TensorId) (k : Nat) :
    (g.tensors[t]?).map (·.producer) = some k ↔
      ∃ node, g.nodes[k]? = some node ∧ t ∈ node.outputs := by
  induction hg generalizing t k with
  | empty => simp [Graph.empty]
  | node _ _ ih => exact producers_push ih _ _ _ t k
  | input _ _ ih => exact producers_push ih _ _ _ t k
  | output _ _ _ ih => exact ih t k

theorem Reachable.nodup_inputs (hg : g.Reachable) : (g.inputs.map (·.1)).Nodup := by
  induction hg with
  | empty => exact List.nodup_nil
  | node _ _ ih => exact ih
  | input _ hfresh ih => exact nodup_names ih hfresh _
  | output _ _ _ ih => exact ih

theorem Reachable.nodup_outputs (hg : g.Reachable) : (g.outputs.map (·.1)).Nodup := by
  induction hg with
  | empty => exact List.nodup_nil
  | node _ _ ih => exact ih
  | input _ _ ih => exact ih
  | output _ _ hfresh ih => exact nodup_names ih hfresh _

/-- The tensor of a declared input is made by the node that declares it. -/
theorem Reachable.declared (hg : g.Reachable) {name : String} {t : TensorId}
    (h : (name, t) ∈ g.inputs) :
    ∃ node, g.producer? t = some node ∧ node.operation = .input name ∧ node.outputs = [t] := by
  induction hg with
  | empty => exact absurd h List.not_mem_nil
  | node _ _ ih =>
    obtain ⟨node, hmade, hnode⟩ := ih h
    exact ⟨node, producer?_push hmade _ _ _, hnode⟩
  | @input g declared shape _ _ ih =>
    rcases List.mem_append.mp h with h | h
    · obtain ⟨node, hmade, hnode⟩ := ih h
      exact ⟨node, producer?_push hmade _ _ _, hnode⟩
    · obtain ⟨rfl, rfl⟩ := Prod.mk.inj (List.mem_singleton.mp h)
      exact ⟨_, producer?_pushed g _ _ shape, rfl, rfl⟩
  | output _ _ _ ih => exact ih h

/-- **Every reachable graph is consistent.** -/
theorem Reachable.consistent (hg : g.Reachable) : g.Consistent where
  numbered := hg.wellFormed.outputs
  producers := hg.producers
  ordered _ _ h := hg.wellFormed.ordered h
  shapes e _ := by
    have hcount := Shape.ofDims_elements e.shape.dims
    rw [Shape.ofDims_eq_ok.mpr rfl] at hcount
    exact ⟨e.shape.nonempty, e.shape.positive, hcount.symm, Shape.volume_eq_prod _⟩
  inputNames := hg.nodup_inputs
  declared _ _ h := hg.declared h
  outputNames := hg.nodup_outputs
  marked _ _ h := hg.wellFormed.marked _ h

end Graph

/-! ## Calls in place -/

namespace Recorder

variable {α β : Type} {f : Graph → Outcome (Graph × α)} {g g' : Graph}

theorem commit_eq_ok {x : α} : commit f g = .ok x g' ↔ f g = .ok (g', x) := by
  unfold commit
  rcases f g with e | ⟨h, y⟩
  · simp
  · simp [and_comm]

/-- A failure leaves no trace. -/
theorem commit_eq_error {e : Failure} (h : commit f g = .error e g') : g' = g := by
  unfold commit at h
  split at h
  · cases h
  · cases h
    rfl

theorem map_commit (k : α → β) :
    k <$> commit f = commit fun g => (f g).map fun r => (r.1, k r.2) := by
  funext g
  cases h : f g <;> simp [commit, Functor.map, EStateM.map, Except.map, h]

end Recorder

/-- The names that a node declares for its results. -/
def Operation.declares (op : Operation) (ids : List TensorId) : List (String × TensorId) :=
  match op with
  | input name => ids.map (name, ·)
  | _ => []

namespace Recording

/-- What a call does **in place**. It returns the numbers of the tensors that it makes. -/
def execute : Recording → Recorder (List TensorId)
  | .input name shape => List.singleton <$> Recorder.input name shape
  | convolution source k => List.singleton <$> Recorder.convolution source k
  | scale source m => List.singleton <$> Recorder.scale source m
  | combination left right c => List.singleton <$> Recorder.combination left right c
  | activation source p => List.singleton <$> Recorder.activation source p
  | constant shape values => List.singleton <$> Recorder.constant shape values
  | concat inputs axis => List.singleton <$> Recorder.concat inputs axis
  | slice source w => List.singleton <$> Recorder.slice source w
  | resize source scales => List.singleton <$> Recorder.resize source scales
  | pool source p => List.singleton <$> Recorder.pool source p
  | reshape source dims => List.singleton <$> Recorder.reshape source dims
  | transpose source order => List.singleton <$> Recorder.transpose source order
  | decode inputs d => Recorder.decode inputs d
  | output t name => (fun _ => []) <$> Recorder.output t name

/-- What a call asks for: a node with an operation and the tensors it reads, or a name for
an output. -/
def request : Recording → (Operation × List TensorId) ⊕ (String × TensorId)
  | .input name _ => .inl (.input name, [])
  | convolution source k => .inl (.convolution k, [source])
  | scale source m => .inl (.scale m, [source])
  | combination left right c => .inl (.combine c, [left, right])
  | activation source p => .inl (.activation p, [source])
  | constant _ values => .inl (.constant values, [])
  | concat inputs axis => .inl (.concat axis, inputs)
  | slice source w => .inl (.slice w, [source])
  | resize source scales => .inl (.resize scales, [source])
  | pool source p => .inl (.pool p, [source])
  | reshape source dims => .inl (.reshape dims, [source])
  | transpose source order => .inl (.transpose order, [source])
  | decode inputs d => .inl (.decode d, inputs)
  | output t name => .inr (name, t)

/-- The **effect of a success**: the node asked for is appended, with one new tensor for each of its
results, or the name is; nothing else changes. -/
def Effect (call : Recording) (g : Graph) (ids : List TensorId) (g' : Graph) : Prop :=
  match call.request with
  | .inl (operation, inputs) => ∃ shapes : List Shape,
      ids = (List.range shapes.length).map (g.tensorCount + ·) ∧
      g' = { g with
        nodes := g.nodes.push { operation, inputs, outputs := ids }
        tensors := g.tensors ++ (shapes.map fun shape => ⟨shape, g.nodes.size⟩).toArray
        inputs := g.inputs ++ operation.declares ids }
  | .inr entry => ids = [] ∧ g' = { g with outputs := g.outputs ++ [entry] }

/-- The call is a **committed** function of the graph, whose value has the effect of the call. -/
def Commits (call : Recording) : Prop :=
  ∃ f, call.execute = Recorder.commit f ∧
    ∀ g g' ids, f g = .ok (g', ids) → call.Effect g ids g' ∧ g.perform call = .ok g'

/-- A call that records a node with one result. -/
theorem commits_of_records {call : Recording} {op : Operation} {inputs : List TensorId}
    {f : Graph → Outcome Graph.Recorded} {m : Recorder TensorId} (hm : Recorder.commit f = m)
    (hexecute : call.execute = List.singleton <$> m)
    (hrequest : call.request = .inl (op, inputs)) (hdeclares : ∀ ids, op.declares ids = [])
    (hperform : ∀ g, g.perform call = (f g).map (·.1))
    (hf : ∀ g r, f g = .ok r → g.Records op inputs r) : call.Commits := by
  subst hm
  refine ⟨_, hexecute.trans (Recorder.map_commit _), fun g g' ids h => ?_⟩
  obtain ⟨r, hr, hpair⟩ := Outcome.map_eq_ok.mp h
  obtain ⟨rfl, rfl⟩ := Prod.mk.inj hpair
  rw [hperform, hr]
  obtain ⟨shape, -, rfl⟩ := hf g r hr
  refine ⟨?_, rfl⟩
  unfold Effect
  rw [hrequest]
  exact ⟨[shape], by simp [Graph.pushOne, Graph.tensorCount, List.singleton],
    by simp [hdeclares, Graph.pushOne, Graph.push, List.singleton]⟩

/-- **Every call commits.** -/
theorem commits (call : Recording) : call.Commits := by
  cases call with
  | input name shape =>
    refine ⟨_, (congrArg _ (Recorder.commit_addInput name shape).symm).trans
      (Recorder.map_commit _), fun g g' ids h => ?_⟩
    obtain ⟨r, hr, hpair⟩ := Outcome.map_eq_ok.mp h
    obtain ⟨rfl, rfl⟩ := Prod.mk.inj hpair
    refine ⟨?_, Outcome.map_eq_ok.mpr ⟨r, hr, rfl⟩⟩
    obtain ⟨-, rfl⟩ := Graph.addInput_eq_ok hr
    exact ⟨[shape], by simp [Graph.tensorCount, List.singleton],
      by simp [Operation.declares, Graph.push, List.singleton]⟩
  | decode inputs d =>
    refine ⟨_, (Recorder.commit_addDecode inputs d).symm, fun g g' ids h => ?_⟩
    refine ⟨?_, Outcome.map_eq_ok.mpr ⟨_, h, rfl⟩⟩
    obtain ⟨shapes, -, hpair⟩ := Graph.addDecode_eq_ok h
    obtain ⟨rfl, rfl⟩ := Prod.mk.inj hpair
    exact ⟨shapes, rfl, by simp [Operation.declares]⟩
  | output t name =>
    refine ⟨_, (congrArg _ (Recorder.commit_markOutput t name).symm).trans
      (Recorder.map_commit _), fun g g' ids h => ?_⟩
    obtain ⟨r, hr, hpair⟩ := Outcome.map_eq_ok.mp h
    obtain ⟨rfl, rfl⟩ := Prod.mk.inj hpair
    obtain ⟨marked, hmarked, rfl⟩ := Outcome.map_eq_ok.mp hr
    refine ⟨⟨rfl, ?_⟩, hmarked⟩
    obtain ⟨-, -, rfl⟩ := Graph.markOutput_eq_ok hmarked
    rfl
  | constant shape values =>
    refine commits_of_records (Recorder.commit_addConstant shape values) rfl rfl
      (fun _ => rfl) (fun _ => rfl) fun g r h => ?_
    obtain ⟨haccepts, rfl⟩ := Graph.addConstant_eq_ok h
    exact ⟨shape, haccepts, rfl⟩
  | convolution source k =>
    exact commits_of_records (Recorder.commit_addConvolution source k) rfl rfl
      (fun _ => rfl) (fun _ => rfl) fun _ _ => Graph.addConvolution_eq_ok
  | scale source m =>
    exact commits_of_records (Recorder.commit_addScale source m) rfl rfl
      (fun _ => rfl) (fun _ => rfl) fun _ _ => Graph.addScale_eq_ok
  | combination left right c =>
    exact commits_of_records (Recorder.commit_addCombination left right c) rfl rfl
      (fun _ => rfl) (fun _ => rfl) fun _ _ => Graph.addCombination_eq_ok
  | activation source p =>
    exact commits_of_records (Recorder.commit_addActivation source p) rfl rfl
      (fun _ => rfl) (fun _ => rfl) fun _ _ => Graph.addActivation_eq_ok
  | concat inputs axis =>
    exact commits_of_records (Recorder.commit_addConcat inputs axis) rfl rfl
      (fun _ => rfl) (fun _ => rfl) fun _ _ => Graph.addConcat_eq_ok
  | slice source w =>
    exact commits_of_records (Recorder.commit_addSlice source w) rfl rfl
      (fun _ => rfl) (fun _ => rfl) fun _ _ => Graph.addSlice_eq_ok
  | resize source scales =>
    exact commits_of_records (Recorder.commit_addResize source scales) rfl rfl
      (fun _ => rfl) (fun _ => rfl) fun _ _ => Graph.addResize_eq_ok
  | pool source p =>
    exact commits_of_records (Recorder.commit_addPool source p) rfl rfl
      (fun _ => rfl) (fun _ => rfl) fun _ _ => Graph.addPool_eq_ok
  | reshape source dims =>
    exact commits_of_records (Recorder.commit_addReshape source dims) rfl rfl
      (fun _ => rfl) (fun _ => rfl) fun _ _ => Graph.addReshape_eq_ok
  | transpose source order =>
    exact commits_of_records (Recorder.commit_addTranspose source order) rfl rfl
      (fun _ => rfl) (fun _ => rfl) fun _ _ => Graph.addTranspose_eq_ok

/-! ## Sessions -/

/-- What is in memory after a call, whether it has succeeded or not. -/
def leave (g : Graph) (call : Recording) : Graph :=
  match call.execute g with
  | .ok _ g' => g'
  | .error _ g' => g'

/-- The graph in memory after **a session**: calls one after the other, from the empty graph on. -/
def session (calls : List Recording) : Graph := calls.foldl leave .empty

/-- What a call leaves behind when it fails, and what it has done when it succeeds. -/
theorem execute_spec (call : Recording) (g : Graph) :
    match call.execute g with
    | .error _ g' => g' = g
    | .ok ids g' => call.Effect g ids g' ∧ g.perform call = .ok g' := by
  obtain ⟨f, hf, hvalue⟩ := call.commits
  rw [hf]
  cases h : Recorder.commit f g with
  | error e g' => exact Recorder.commit_eq_error h
  | ok ids g' => exact hvalue g g' ids (Recorder.commit_eq_ok.mp h)

theorem leave_reachable {g : Graph} (hg : g.Reachable) (call : Recording) :
    (leave g call).Reachable := by
  have hspec := call.execute_spec g
  unfold leave
  cases h : call.execute g with
  | error e g' =>
    rw [h] at hspec
    exact hspec ▸ hg
  | ok ids g' =>
    rw [h] at hspec
    exact hg.perform hspec.2

theorem session_reachable (calls : List Recording) : (session calls).Reachable := by
  have run : ∀ (calls : List Recording) (g : Graph), g.Reachable →
      (calls.foldl leave g).Reachable := by
    intro calls
    induction calls with
    | nil => exact fun _ hg => hg
    | cons call rest ih => exact fun g hg => ih _ (leave_reachable hg call)
  exact run calls _ .empty

/-- **Sessions are consistent, and calls are atomic.** After any calls, with any arguments and
however many of them have failed, the graph in memory is consistent. One call more leaves it as it
is when it fails; when it succeeds, it appends the one node that it asks for, or the one name, and
nothing else. -/
theorem session_consistent (calls : List Recording) :
    (session calls).Consistent ∧ ∀ call : Recording,
      match call.execute (session calls) with
      | .error _ g' => g' = session calls
      | .ok ids g' => call.Effect (session calls) ids g' := by
  refine ⟨(session_reachable calls).consistent, fun call => ?_⟩
  have hspec := call.execute_spec (session calls)
  cases h : call.execute (session calls) with
  | error e g' =>
    rw [h] at hspec
    exact hspec
  | ok ids g' =>
    rw [h] at hspec
    exact hspec.1

end Recording

end GridNet
