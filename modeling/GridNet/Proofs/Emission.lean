import GridNet.Model.Basic
import GridNet.Proofs.Skeleton
import GridNet.Proofs.Valuation

/-!
# What emitters append

The emitters of layers without weights are put together from a few kinds of step: checks, questions
about shapes, and calls that record one node without weights. What holds of these steps, and of two
steps one after the other, holds of the emitters.

* `Graph.Grows` — a graph to which nodes of a certain kind have been appended.
* `Graph.Plain` — a call of the recorder that appends one node without weights.
* `Emit.Closed` — a property of steps that passes on to all emitters without weights.
* `Emit.Adds` — such a property: nodes without weights are appended, and nothing else changes.
-/

namespace GridNet

namespace Graph

variable {g g' g'' : Graph} {P Q : Operation → Prop}

/-! ## Growing graphs -/

/-- Only nodes whose operations satisfy `P` have been appended, each after its checks. -/
inductive Grows (P : Operation → Prop) (g : Graph) : Graph → Prop
  | refl : Grows P g g
  | node {g₁ : Graph} {op : Operation} {inputs : List TensorId} {shapes : List Shape} :
      Grows P g g₁ → P op → g₁.Accepts op inputs shapes → Grows P g (g₁.push op inputs shapes).1

theorem Grows.trans (h : g.Grows P g') (h' : g'.Grows P g'') : g.Grows P g'' := by
  induction h' with
  | refl => exact h
  | node _ hop haccepts ih => exact ih.node hop haccepts

theorem Grows.reachable (h : g.Grows P g') (hg : g.Reachable) : g'.Reachable := by
  induction h with
  | refl => exact hg
  | node _ _ haccepts ih => exact ih.node haccepts

theorem Records.grows {op : Operation} {inputs : List TensorId} {r : Recorded}
    (h : g.Records op inputs r) (hop : P op) : g.Grows P r.1 := by
  obtain ⟨shape, haccepts, rfl⟩ := h
  exact Grows.refl.node hop haccepts

/-- A node that is appended only under a condition. -/
theorem grows_of_optional {present : Bool} {op : Operation} {inputs : List TensorId}
    {r r' : Recorded} (h : if present then r.1.Records op inputs r' else r' = r) (hop : P op) :
    r.1.Grows P r'.1 := by
  split at h
  · exact h.grows hop
  · exact h ▸ .refl

theorem Records.within {op : Operation} {inputs : List TensorId} {r : Recorded}
    (h : g.Records op inputs r) : g.Within r.1 := by
  obtain ⟨shape, -, rfl⟩ := h
  exact within_push _ _ _ _

/-- The nodes that have been appended. -/
theorem Grows.nodes (h : g.Grows P g') :
    ∃ added, g'.nodes.toList = g.nodes.toList ++ added ∧ ∀ n ∈ added, P n.operation := by
  induction h with
  | refl => exact ⟨[], (List.append_nil _).symm, fun _ hn => absurd hn List.not_mem_nil⟩
  | @node g₁ op inputs shapes _ hop _ ih =>
    obtain ⟨added, hadded, hall⟩ := ih
    refine ⟨added ++ [⟨op, inputs, (List.range shapes.length).map (g₁.tensors.size + ·)⟩], ?_, ?_⟩
    · rw [push_nodes, hadded, List.append_assoc]
    · intro n hn
      rcases List.mem_append.mp hn with hn | hn
      · exact hall n hn
      · obtain rfl := List.mem_singleton.mp hn
        exact hop

/-- What is in front of the appended nodes stays. -/
theorem Grows.within (h : g.Grows P g') : g.Within g' := by
  induction h with
  | refl => exact .refl g
  | node _ _ _ ih => exact ih.trans (within_push _ _ _ _)

theorem Grows.named (h : g.Grows P g') : g'.inputs = g.inputs ∧ g'.outputs = g.outputs := by
  induction h with
  | refl => exact ⟨rfl, rfl⟩
  | node _ _ _ ih => exact ih

end Graph

/-- The operation **holds weights**. -/
def Operation.isWeighted : Operation → Bool
  | convolution _ => true
  | scale _ => true
  | constant _ => true
  | _ => false

/-- The operation holds no weights. -/
def Operation.Weightless (op : Operation) : Prop := op.isWeighted = false

theorem Operation.Weightless.parameterCount {op : Operation} (h : op.Weightless) :
    op.parameterCount = 0 := by
  cases op <;> first | rfl | cases h

namespace Graph

/-! ## Calls that record a node without weights -/

/-- A call that appends one node without weights, and does the same on every graph with
one skeleton. -/
structure Plain (f : Graph → Outcome Recorded) : Prop where
  oblivious : Oblivious f
  records : ∀ g r, f g = .ok r → ∃ op inputs, g.Records op inputs r ∧ op.Weightless

theorem addActivation_plain (input : TensorId) (p : Pointwise) : Plain (addActivation · input p) :=
  ⟨addActivation_oblivious input p, fun _ _ h => ⟨_, _, addActivation_eq_ok h, rfl⟩⟩

theorem addCombination_plain (left right : TensorId) (c : Combination) :
    Plain (addCombination · left right c) :=
  ⟨addCombination_oblivious left right c, fun _ _ h => ⟨_, _, addCombination_eq_ok h, rfl⟩⟩

theorem addConcat_plain (inputs : List TensorId) (axis : Nat) : Plain (addConcat · inputs axis) :=
  ⟨addConcat_oblivious inputs axis, fun _ _ h => ⟨_, _, addConcat_eq_ok h, rfl⟩⟩

theorem addSlice_plain (input : TensorId) (w : SliceWindow) : Plain (addSlice · input w) :=
  ⟨addSlice_oblivious input w, fun _ _ h => ⟨_, _, addSlice_eq_ok h, rfl⟩⟩

theorem addResize_plain (input : TensorId) (scales : List Scalar) :
    Plain (addResize · input scales) :=
  ⟨addResize_oblivious input scales, fun _ _ h => ⟨_, _, addResize_eq_ok h, rfl⟩⟩

theorem addPool_plain (input : TensorId) (p : PoolWindow) : Plain (addPool · input p) :=
  ⟨addPool_oblivious input p, fun _ _ h => ⟨_, _, addPool_eq_ok h, rfl⟩⟩

theorem addReshape_plain (input : TensorId) (dims : List Nat) : Plain (addReshape · input dims) :=
  ⟨addReshape_oblivious input dims, fun _ _ h => ⟨_, _, addReshape_eq_ok h, rfl⟩⟩

theorem addTranspose_plain (input : TensorId) (order : List Nat) :
    Plain (addTranspose · input order) :=
  ⟨addTranspose_oblivious input order, fun _ _ h => ⟨_, _, addTranspose_eq_ok h, rfl⟩⟩

end Graph

namespace Emit

/-- The extents of a batch of images are those of its shape. -/
theorem nchw_eq_ok {t : TensorId} {s : Shape.Nchw} {d d' : Draft} :
    nchw t d = .ok s d' ↔ (∃ shape, d.graph.shapeOf t = .ok shape ∧
      shape.dims = [s.batch, s.channels, s.height, s.width]) ∧ d = d' := by
  simp only [nchw, shapeOf, bind_eq_ok, query_eq_ok, lift_eq_ok, Shape.nchw_eq_ok]
  constructor
  · rintro ⟨shape, _, ⟨hshape, rfl⟩, hdims, rfl⟩
    exact ⟨⟨shape, hshape, hdims⟩, rfl⟩
  · rintro ⟨⟨shape, hshape, hdims⟩, rfl⟩
    exact ⟨shape, d, ⟨hshape, rfl⟩, hdims, rfl⟩

/-! ## Properties that pass on to emitters -/

/-- A **property of steps** that holds of checks, of questions about shapes and of plain calls, and
of two steps one after the other if it holds of both. -/
structure Closed (C : ∀ {α : Type}, Emit α → Prop) : Prop where
  pure {α : Type} (x : α) : C (Pure.pure x : Emit α)
  bind {α β : Type} {m : Emit α} {f : α → Emit β} : C m → (∀ x, C (f x)) → C (m >>= f)
  lift {α : Type} (r : Outcome α) : C (lift r)
  shapeOf (t : TensorId) : C (shapeOf t)
  record {f : Graph → Outcome Graph.Recorded} : Graph.Plain f → C (record f)

namespace Closed

variable {C : ∀ {α : Type}, Emit α → Prop}

theorem nchw (h : Closed C) (t : TensorId) : C (nchw t) := h.bind (h.shapeOf t) fun _ => h.lift _

theorem divides (h : Closed C) (d n : Nat) : C (divides d n) := h.lift _

theorem mapM (h : Closed C) {α β : Type} {f : α → Emit β} (hf : ∀ x, C (f x)) (xs : List α) :
    C (xs.mapM f) := by
  induction xs with
  | nil => exact h.pure []
  | cons x xs ih =>
    rw [List.mapM_cons]
    exact h.bind (hf x) fun y => h.bind ih fun ys => h.pure (y :: ys)

theorem pointwise (h : Closed C) (input : TensorId) (p : Pointwise) : C (pointwise input p) :=
  h.record (Graph.addActivation_plain input p)

theorem product (h : Closed C) (left right : TensorId) : C (product left right) :=
  h.record (Graph.addCombination_plain left right .product)

theorem sum (h : Closed C) (left right : TensorId) : C (sum left right) :=
  h.record (Graph.addCombination_plain left right .sum)

theorem activation (h : Closed C) (input : TensorId) (a : Activation) : C (activation input a) := by
  cases a with
  | linear => exact h.pure input
  | relu | logistic | tanh | softplus | leaky | hardSigmoid => exact h.pointwise input _
  | mish =>
    exact h.bind (h.pointwise _ _) fun _ => h.bind (h.pointwise _ _) fun _ => h.product _ _
  | silu => exact h.bind (h.pointwise _ _) fun _ => h.product _ _
  | hardSwish => exact h.bind (h.pointwise _ _) fun _ => h.product _ _

theorem shortcut (h : Closed C) (input source : TensorId) (a : Activation) :
    C (shortcut input source a) := by
  have hafter : ∀ cropped, C (Emit.sum cropped input >>= (Emit.activation · a)) := fun cropped =>
    h.bind (h.sum cropped input) fun t => h.activation t a
  refine h.bind (h.shapeOf input) fun current => h.bind (h.shapeOf source) fun other => ?_
  dsimp only
  split
  · exact h.bind (h.pure source) hafter
  · exact h.bind (h.record (Graph.addSlice_plain source _)) hafter

theorem sam (h : Closed C) (input attention : TensorId) (a : Activation) :
    C (sam input attention a) :=
  h.bind (h.product _ _) fun t => h.activation t a

theorem channelPart (h : Closed C) (routed : TensorId) (g : ChannelGroup) (block : Nat) :
    C (channelPart routed g block) :=
  h.bind (h.nchw routed) fun _ => h.bind (h.divides _ _) fun _ => h.bind (h.lift _) fun _ =>
    h.bind (h.lift _) fun _ => h.record (Graph.addSlice_plain routed _)

/-- What is left of a route when its sources lie end to end. -/
theorem routed (h : Closed C) (sources : List TensorId) (first : TensorId) (axis : Int)
    (block : Nat) {f : TensorId → Emit TensorId} (hf : ∀ t, C (f t)) :
    C (do
      let rank := (← Emit.shapeOf first).rank
      let resolved ← Emit.lift (routeAxis axis rank block)
      let t ← Emit.record (·.addConcat sources resolved)
      f t) :=
  h.bind (h.shapeOf first) fun _ => h.bind (h.lift _) fun _ =>
    h.bind (h.record (Graph.addConcat_plain _ _)) hf

theorem route (h : Closed C) (sources : List TensorId) (axis : Int) (group : Option ChannelGroup)
    (block : Nat) : C (route sources axis group block) := by
  unfold Emit.route
  cases sources with
  | nil => exact h.lift _
  | cons first rest =>
    dsimp only
    cases group with
    | none =>
      split
      · exact h.bind (h.pure first) h.pure
      · exact h.routed _ first axis block h.pure
    | some g =>
      split
      · exact h.bind (h.pure first) fun t => h.channelPart t g block
      · exact h.routed _ first axis block fun t => h.channelPart t g block

theorem upsample (h : Closed C) (input : TensorId) (stride : Nat) : C (upsample input stride) :=
  h.record (Graph.addResize_plain input _)

theorem maxPool (h : Closed C) (input : TensorId) (size stride : Nat) :
    C (maxPool input size stride) :=
  h.bind (h.lift _) fun _ => h.record (Graph.addPool_plain input _)

theorem averagePool (h : Closed C) (input : TensorId) : C (averagePool input) :=
  h.bind (h.nchw input) fun _ => h.record (Graph.addPool_plain input _)

theorem reorg3d (h : Closed C) (input : TensorId) (block : Nat) : C (reorg3d input block) :=
  h.bind (h.nchw input) fun _ => h.bind (h.lift _) fun _ =>
    h.bind (h.mapM (fun _ => h.record (Graph.addSlice_plain input _)) phases) fun _ =>
      h.record (Graph.addConcat_plain _ 1)

theorem reorg (h : Closed C) (input : TensorId) (stride block : Nat) :
    C (reorg input stride block) :=
  h.bind (h.nchw input) fun _ => h.bind (h.lift _) fun _ => h.bind (h.divides _ _) fun _ =>
    h.bind (h.lift _) fun _ => h.bind (h.record (Graph.addReshape_plain input _)) fun viewed =>
      h.bind (h.record (Graph.addTranspose_plain viewed _)) fun moved =>
        h.bind (h.lift _) fun _ => h.record (Graph.addReshape_plain moved _)

end Closed

end Emit

/-- The layer **holds weights**. -/
def LayerKind.isWeighted : LayerKind → Bool
  | convolution _ => true
  | deconvolution _ => true
  | normalization _ => true
  | implicit _ => true
  | _ => false

/-- **All layers without weights** have the properties that pass on. -/
theorem Emit.Closed.layer {C : ∀ {α : Type}, Emit α → Prop} (h : Closed C) (layers : List Layer)
    (p : Progress) (l : Layer) (hl : l.kind.isWeighted = false) : C (Build.layer layers p l) := by
  unfold Build.layer
  cases hkind : l.kind with
  | convolution | deconvolution | normalization | implicit =>
    rw [hkind] at hl
    cases hl
  | shiftChannels => exact h.bind (h.lift _) fun _ => h.bind (h.sum _ _) fun _ => h.pure _
  | controlChannels => exact h.bind (h.lift _) fun _ => h.bind (h.product _ _) fun _ => h.pure _
  | shortcut => exact h.bind (h.lift _) fun _ => h.bind (h.shortcut _ _ _) fun _ => h.pure _
  | sam => exact h.bind (h.lift _) fun _ => h.bind (h.sam _ _ _) fun _ => h.pure _
  | route => exact h.bind (h.lift _) fun _ => h.bind (h.route _ _ _ _) fun _ => h.pure _
  | upsample => exact h.bind (h.upsample _ _) fun _ => h.pure _
  | maxPool => exact h.bind (h.maxPool _ _ _) fun _ => h.pure _
  | averagePool => exact h.bind (h.averagePool _) fun _ => h.pure _
  | reorg3d => exact h.bind (h.reorg3d _ _) fun _ => h.pure _
  | reorg => exact h.bind (h.reorg _ _ _) fun _ => h.pure _
  | head => exact h.pure _
  | dropout => exact h.pure _

/-! ## Nodes without weights -/

/-- **Steps that only append** nodes without weights. -/
def Emit.Adds {α : Type} (m : Emit α) : Prop :=
  ∀ d x d', m d = .ok x d' → d.graph.Grows Operation.Weightless d'.graph ∧ d'.cursor = d.cursor

theorem Emit.adds_closed : Closed @Adds where
  pure x d y d' h := by
    obtain ⟨-, rfl⟩ := pure_eq_ok.mp h
    exact ⟨.refl, rfl⟩
  bind {_ _ m f} hm hf d y d' h := by
    obtain ⟨x, d₁, hx, hy⟩ := bind_eq_ok.mp h
    obtain ⟨hgrows, hcursor⟩ := hm d x d₁ hx
    obtain ⟨hgrows', hcursor'⟩ := hf x d₁ y d' hy
    exact ⟨hgrows.trans hgrows', hcursor'.trans hcursor⟩
  lift r d y d' h := by
    obtain ⟨-, rfl⟩ := lift_eq_ok.mp h
    exact ⟨.refl, rfl⟩
  shapeOf t d s d' h := by
    obtain ⟨-, rfl⟩ := query_eq_ok.mp h
    exact ⟨.refl, rfl⟩
  record {f} hf d t d' h := by
    obtain ⟨g, hg, rfl⟩ := record_eq_ok.mp h
    obtain ⟨op, inputs, hrecords, hop⟩ := hf.records _ _ hg
    exact ⟨hrecords.grows hop, rfl⟩

end GridNet
