import GridNet.Proofs.Extension
import GridNet.Proofs.TensorAlgebra

/-!
# The values of emitted nodes

In a finished graph with values for all tensors, the value of a node's result is what its operation
makes of the values of its operands. A step of construction that records such a node therefore
computes an operator on tensors, whatever the numbers of the tensors are.

* `Graph.Valued.recorded` — the value of the result of a recorded node.
* `Emit.Yields` — what holds of the outcome of a step in every graph that goes on from there.
* `Emit.Computes` — a step leaves a tensor whose value is known.
-/

namespace GridNet

namespace Graph

variable {g G : Graph} {feeds : Feeds} {vs : List Tensor}

/-! ## Values of results -/

/-- What is read from a finished graph has the extents that were recorded in its front. -/
theorem Valued.spans_front (hv : G.Valued feeds vs) (hfront : g.Within G) {ids : List TensorId}
    {values : List Tensor} (hids : ∀ t ∈ ids, t < g.tensors.size) (h : Reads vs ids values) :
    List.Forall₂ (g.Spans · ·.dims) ids values := by
  induction h with
  | nil => exact .nil
  | @cons t v ids values ht _ ih =>
    refine .cons ?_ (ih fun u hu => hids u (List.mem_cons_of_mem _ hu))
    exact (hfront.spans_iff (hids t List.mem_cons_self)).mp (hv.shapeOf ht)

/-- **The values of the results of a node** that has been pushed on the front of a
finished graph. -/
theorem Valued.pushed (hv : G.Valued feeds vs) {op : Operation} {inputs : List TensorId}
    {shapes : List Shape} (hfront : (g.push op inputs shapes).1.Within G) :
    ∃ operands results, Reads vs inputs operands ∧ Reads vs (g.push op inputs shapes).2 results ∧
      results.map (·.dims) = shapes.map (·.dims) ∧
      op.apply feeds operands (((shapes.head?).map (·.dims)).getD []) = .ok results := by
  have hnode := hfront.nodes.subset mem_push_nodes
  obtain ⟨operands, results, hoperands, hresults, happly⟩ := hv.computed _ hnode
  have hlength : results.length = shapes.length := by
    simpa using hresults.length_eq.symm
  have hdims : results.map (·.dims) = shapes.map (·.dims) := by
    refine List.ext_getElem (by simpa using hlength) fun i hi hi' => ?_
    rw [List.length_map] at hi hi'
    have hvalue : vs[g.tensors.size + i]? = some results[i] := by
      simpa using (List.forall₂_iff_get.mp hresults).2 i (by simpa using hi') hi
    obtain ⟨s, hs, hd⟩ := hv.shapeOf hvalue
    have hentry : (g.push op inputs shapes).1.tensors.toList[g.tensors.size + i]? =
        some ⟨shapes[i], g.nodes.size⟩ := by
      rw [push_tensors, List.getElem?_append_right (by simp)]
      simp [hi']
    have hshape := shapeOf_eq_ok.mp hs
    rw [← Array.getElem?_toList, getElem?_of_front hfront.tensors hentry] at hshape
    rw [List.getElem_map, List.getElem_map, hd, ← Option.some.inj hshape]
  rw [← List.head?_map, hdims, List.head?_map] at happly
  exact ⟨operands, results, hoperands, hresults, hdims, happly⟩

/-- **The value of the result of a recorded node**, with what the recorder has checked. -/
theorem Valued.recorded (hv : G.Valued feeds vs) (hsizes : G.WithinSizes) {op : Operation}
    {inputs : List TensorId} {r : Recorded} (h : g.Records op inputs r) (hfront : r.1.Within G) :
    ∃ shape operands v, g.Accepts op inputs [shape] ∧ Reads vs inputs operands ∧
      List.Forall₂ (g.Spans · ·.dims) inputs operands ∧ op.Exact (operands.map (·.dims)) ∧
      op.apply feeds operands shape.dims = .ok [v] ∧ vs[r.2]? = some v := by
  obtain ⟨shape, haccepts, rfl⟩ := h
  obtain ⟨operands, results, hoperands, hresults, -, happly⟩ := hv.pushed hfront
  obtain ⟨v, hvalue, rfl⟩ := forall₂_singleton_left.mp hresults
  have hspans := hv.spans_front ((within_push g op inputs [shape]).trans hfront)
    haccepts.inputs_lt hoperands
  have hexact : op.Exact (operands.map (·.dims)) :=
    hsizes.exact _ (hfront.nodes.subset mem_push_nodes) _
      (List.forall₂_map_right_iff.mpr (hv.spans hoperands))
  exact ⟨shape, operands, v, haccepts, hoperands, hspans, hexact, happly, hvalue⟩

end Graph

theorem Reads.unique {vs : List Tensor} {ids : List TensorId} {values values' : List Tensor}
    (h : Reads vs ids values) (h' : Reads vs ids values') : values = values' := by
  induction h generalizing values' with
  | nil => exact (List.forall₂_nil_left_iff.mp h').symm
  | cons ht _ ih =>
    obtain ⟨v, rest, hv, hrest, rfl⟩ := List.forall₂_cons_left_iff.mp h'
    rw [ih hrest, Option.some.inj (ht.symm.trans hv)]

/-! ## Steps and what they yield -/

/-- A finished graph with its values, for one binding of the inputs. -/
structure Graph.Finished (G : Graph) (feeds : Feeds) (vs : List Tensor) : Prop where
  valued : G.Valued feeds vs
  sizes : G.WithinSizes

theorem volume_pos {dims : List Nat} (h : ∀ d ∈ dims, 0 < d) : 0 < volume dims := by
  induction dims with
  | nil => exact Nat.one_pos
  | cons d rest ih =>
    exact Nat.mul_pos (h d List.mem_cons_self) (ih fun e he => h e (List.mem_cons_of_mem _ he))

/-- No extent is larger than the volume. -/
theorem le_volume {dims : List Nat} (h : ∀ d ∈ dims, 0 < d) : ∀ d ∈ dims, d ≤ volume dims := by
  induction dims with
  | nil => exact fun d hd => absurd hd List.not_mem_nil
  | cons e rest ih =>
    have hrest : ∀ d ∈ rest, 0 < d := fun d hd => h d (List.mem_cons_of_mem _ hd)
    intro d hd
    rcases List.mem_cons.mp hd with heq | hd
    · rw [heq]
      exact Nat.le_mul_of_pos_right e (volume_pos hrest)
    · exact (ih hrest d hd).trans (Nat.le_mul_of_pos_left _ (h e List.mem_cons_self))

namespace Graph.Finished

variable {G : Graph} {feeds : Feeds} {vs : List Tensor} {t : TensorId} {x : Tensor}

end Graph.Finished

namespace Emit

variable {G : Graph} {feeds : Feeds} {vs : List Tensor} {α β : Type}

/-- **What a step yields**: whenever it succeeds on the front of `G` and stays on it, the property
holds of its outcome. -/
def Yields (G : Graph) (m : Emit α) (P : α → Prop) : Prop :=
  ∀ d x d', m d = .ok x d' → d.graph.Within G → d'.graph.Within G → P x

theorem Yields.pure {P : α → Prop} {x : α} (h : P x) : Yields G (Pure.pure x : Emit α) P := by
  intro d y d' hy _ _
  obtain ⟨rfl, -⟩ := pure_eq_ok.mp hy
  exact h

/-- Two steps, of which the second one only appends. -/
theorem Yields.bind {m : Emit α} {f : α → Emit β} {P : α → Prop} {Q : β → Prop}
    (hm : Yields G m P) (hf : ∀ x, Extends (f x)) (h : ∀ x, P x → Yields G (f x) Q) :
    Yields G (m >>= f) Q := by
  intro d y d' hy hstart hfront
  obtain ⟨x, d₁, hx, hy⟩ := bind_eq_ok.mp hy
  have hmiddle := (hf x d₁ y d' hy).within.trans hfront
  exact h x (hm d x d₁ hx hstart hmiddle) d₁ y d' hy hmiddle hfront

/-- A check in front of a step. -/
theorem Yields.after_lift {r : Outcome α} {f : α → Emit β} {Q : β → Prop}
    (h : ∀ x, r = .ok x → Yields G (f x) Q) : Yields G (lift r >>= f) Q := by
  intro d y d' hy hstart hfront
  obtain ⟨x, _, hx, hy⟩ := bind_eq_ok.mp hy
  obtain ⟨hr, rfl⟩ := lift_eq_ok.mp hx
  exact h x hr _ y d' hy hstart hfront

/-- A shape that is asked for is that of the value. -/
theorem Yields.after_shapeOf (hG : G.Finished feeds vs) {t : TensorId} {x : Tensor}
    (hx : vs[t]? = some x) {f : Shape → Emit β} {Q : β → Prop}
    (h : ∀ s, x.dims = s.dims → Yields G (f s) Q) : Yields G (shapeOf t >>= f) Q := by
  intro d y d' hy hstart hfront
  obtain ⟨s, _, hasked, hy⟩ := bind_eq_ok.mp hy
  obtain ⟨hs, rfl⟩ := query_eq_ok.mp hasked
  obtain ⟨s', hs', hdims⟩ := hG.valued.shapeOf hx
  rw [hstart.shapeOf hs] at hs'
  cases hs'
  exact h s hdims _ y d' hy hstart hfront

theorem Yields.after_nchw (hG : G.Finished feeds vs) {t : TensorId} {x : Tensor}
    (hx : vs[t]? = some x) {f : Shape.Nchw → Emit β} {Q : β → Prop}
    (h : ∀ s, x.dims = [s.batch, s.channels, s.height, s.width] → Yields G (f s) Q) :
    Yields G (nchw t >>= f) Q := by
  rw [nchw, bind_assoc]
  exact .after_shapeOf hG hx fun s hs => .after_lift fun n hn =>
    h n (hs.trans (Shape.nchw_eq_ok.mp hn))

/-- **A step computes** a tensor: the operator has a value, and it is that of the tensor which the
step leaves. -/
def Computes (G : Graph) (vs : List Tensor) (m : Emit TensorId) (r : Option Tensor) : Prop :=
  Yields G m fun t => ∃ v, r = some v ∧ vs[t]? = some v

theorem Computes.pure {t : TensorId} {x : Tensor} (h : vs[t]? = some x) :
    Computes G vs (Pure.pure t) (some x) := Yields.pure ⟨x, rfl, h⟩

/-- Operators one after the other. -/
theorem Computes.bind {m : Emit TensorId} {f : TensorId → Emit TensorId} {r : Option Tensor}
    {k : Tensor → Option Tensor} (hm : Computes G vs m r) (hf : ∀ t, Extends (f t))
    (h : ∀ t x, r = some x → vs[t]? = some x → Computes G vs (f t) (k x)) :
    Computes G vs (m >>= f) (r >>= k) :=
  Yields.bind hm hf fun t ⟨x, hr, hx⟩ => by
    have := h t x hr hx
    rwa [hr]

/-- A step behind one whose value is known. -/
theorem Computes.before {m : Emit TensorId} {f : TensorId → Emit TensorId} {y : Tensor}
    {r : Option Tensor} (hm : Computes G vs m (some y)) (hf : ∀ t, Extends (f t))
    (h : ∀ t, vs[t]? = some y → Computes G vs (f t) r) : Computes G vs (m >>= f) r :=
  Yields.bind hm hf fun t ⟨_, hy, hx⟩ => h t (Option.some.inj hy ▸ hx)

/-- Steps for each entry of a list, whose values are known. -/
theorem Yields.mapM {f : α → Emit TensorId} {value : α → Tensor} (hf : ∀ a, Extends (f a))
    (h : ∀ a, Computes G vs (f a) (some (value a))) (as : List α) :
    Yields G (as.mapM f) fun ids => Reads vs ids (as.map value) := by
  induction as with
  | nil => exact .pure .nil
  | cons a rest ih =>
    rw [List.mapM_cons]
    refine .bind (h a) (fun _ => (extends_closed.mapM hf rest).bind fun _ => extends_closed.pure _)
      fun t ⟨v, hv, ht⟩ => .bind ih (fun _ => extends_closed.pure _) fun ids hids => .pure ?_
    exact .cons (ht.trans hv.symm) hids

/-- **A recorded node** computes what its operation makes of its operands. -/
theorem Computes.record (hG : G.Finished feeds vs) {f : Graph → Outcome Graph.Recorded}
    {op : Operation} {inputs : List TensorId} {operands : List Tensor} {r : Option Tensor}
    (hf : ∀ g r, f g = .ok r → g.Records op inputs r) (hreads : Reads vs inputs operands)
    (hr : ∀ (g : Graph) (shape : Shape) (v : Tensor), g.Accepts op inputs [shape] →
      List.Forall₂ (g.Spans · ·.dims) inputs operands → op.Exact (operands.map (·.dims)) →
      op.apply feeds operands shape.dims = .ok [v] → r = some v) :
    Computes G vs (record f) r := by
  intro d t d' h _ hfront
  obtain ⟨g, hg, rfl⟩ := record_eq_ok.mp h
  obtain ⟨shape, operands', v, haccepts, hreads', hspans, hexact, happly, hvalue⟩ :=
    hG.valued.recorded hG.sizes (hf _ _ hg) hfront
  obtain rfl := hreads.unique hreads'
  exact ⟨v, hr _ shape v haccepts hspans hexact happly, hvalue⟩

end Emit

end GridNet
