import GridNet.Proofs.FrontRuns
import GridNet.Proofs.RecordedGraphs

/-!
# What a call of an emitter leaves

An emitter makes a few calls of the recorder, with checks in between. It may end in front of any of
them, with an error or in a breakdown, and leaves what it has recorded until then. Whatever it
leaves goes on from what was there: nodes are appended, and everything in front of them stays as it
was, also for an evaluation.

* `Emission` — a call of an emitter with its arguments.
* `Emit.Appends` — a step that appends nodes and does nothing else to the graph, even if it fails.
* `Graph.Preserved` — a graph inside what emitters have left.
* `Emission.run_preserves`, `Emission.session_preserves` — one call, and calls one after the other.
-/

namespace GridNet

/-! ## Calls as data -/

/-- A **call of an emitter**. -/
inductive Emission
  | convolution (input : TensorId) (c : Convolution) (transposed : Bool) (block : Nat)
  | normalization (input : TensorId) (a : Activation) (block : Nat)
  | implicit (filters block : Nat)
  | shiftChannels (input implicit : TensorId)
  | controlChannels (input implicit : TensorId)
  | shortcut (input source : TensorId) (a : Activation)
  | sam (input attention : TensorId) (a : Activation)
  | route (sources : List TensorId) (axis : Int) (group : Option ChannelGroup) (block : Nat)
  | upsample (input : TensorId) (stride : Nat)
  | maxPool (input : TensorId) (size stride : Nat)
  | averagePool (input : TensorId)
  | reorg3d (input : TensorId) (block : Nat)
  | reorg (input : TensorId) (stride block : Nat)
  | activation (input : TensorId) (a : Activation)

namespace Emission

/-- The emitter on its arguments. -/
def run : Emission → Emit TensorId
  | convolution input c transposed block => Emit.convolution input c transposed block
  | normalization input a block => Emit.normalization input a block
  | implicit filters block => Emit.implicit filters block
  | shiftChannels input other => Emit.sum input other
  | controlChannels input other => Emit.product input other
  | shortcut input source a => Emit.shortcut input source a
  | sam input attention a => Emit.sam input attention a
  | route sources axis group block => Emit.route sources axis group block
  | upsample input stride => Emit.upsample input stride
  | maxPool input size stride => Emit.maxPool input size stride
  | averagePool input => Emit.averagePool input
  | reorg3d input block => Emit.reorg3d input block
  | reorg input stride block => Emit.reorg input stride block
  | activation input a => Emit.activation input a

/-- The draft after the call, whether it has succeeded or not. -/
def leave (d : Draft) (call : Emission) : Draft := finalState (call.run d)

/-- The draft after calls one after the other, of which any may have failed. -/
def session (d : Draft) (calls : List Emission) : Draft := calls.foldl leave d

end Emission

/-! ## Steps that append -/

namespace Emit

variable {α β : Type} {m : Emit α}

/-- A step that **only appends nodes** to the graph, also if it fails. -/
def Appends (m : Emit α) : Prop :=
  ∀ d : Draft, d.graph.Grows (fun _ => True) (finalState (m d)).graph

theorem Appends.bind {f : α → Emit β} (hm : Appends m) (hf : ∀ x, Appends (f x)) :
    Appends (m >>= f) := by
  intro d
  have hfirst := hm d
  simp only [Bind.bind, EStateM.bind]
  cases hresult : m d with
  | ok x d₁ =>
    rw [hresult] at hfirst
    exact hfirst.trans (hf x d₁)
  | error f d₁ =>
    rw [hresult] at hfirst
    exact hfirst

theorem appends_lift (r : Outcome α) : Appends (lift r) := by
  intro d
  cases r <;> exact .refl

/-- A call of the recorder that fails has appended nothing. -/
theorem appends_record {f : Graph → Outcome Graph.Recorded}
    (hf : ∀ g r, f g = .ok r → ∃ op inputs, g.Records op inputs r) : Appends (record f) := by
  intro d
  unfold record
  cases hresult : f d.graph with
  | ok r =>
    obtain ⟨op, inputs, hrecords⟩ := hf _ _ hresult
    exact hrecords.grows trivial
  | error _ => exact .refl

/-- Taking weights does not touch the graph. -/
theorem appends_take (count block : Nat) : Appends (take count block) := by
  intro d
  unfold take
  cases d.cursor.take count block <;> exact .refl

theorem appends_closed : Closed @Appends where
  pure _ _ := .refl
  bind := Appends.bind
  lift := appends_lift
  shapeOf t d := by
    simp only [Emit.shapeOf, query]
    cases d.graph.shapeOf t <;> exact .refl
  record hf := appends_record fun g r h =>
    let ⟨op, inputs, hrecords, _⟩ := hf.records g r h
    ⟨op, inputs, hrecords⟩

theorem appends_takeNormalization (channels block : Nat) :
    Appends (takeNormalization channels block) :=
  (appends_take _ _).bind fun _ => (appends_take _ _).bind fun _ => (appends_take _ _).bind fun _ =>
    (appends_take _ _).bind fun _ => appends_closed.pure _

theorem Appends.takeIf (hm : Appends m) (present : Bool) : Appends (takeIf present m) := by
  cases present with
  | false => exact appends_closed.pure none
  | true =>
    show Appends (some <$> m)
    rw [map_eq_pure_bind]
    exact hm.bind fun x => appends_closed.pure (some x)

theorem appends_scale (input : TensorId) (m : ChannelMap) : Appends (record (·.addScale input m)) :=
  appends_record fun _ _ h => ⟨_, _, Graph.addScale_eq_ok h⟩

theorem appends_convolution (input : TensorId) (c : Convolution) (transposed : Bool) (block : Nat) :
    Appends (convolution input c transposed block) := by
  refine (appends_closed.nchw input).bind fun s => (appends_closed.divides _ _).bind
    fun divisible =>
    (appends_lift _).bind fun _ => (appends_lift _).bind fun length =>
    ((appends_takeNormalization _ _).takeIf _).bind fun normalization =>
    ((appends_take _ _).takeIf _).bind fun bias => (appends_take _ _).bind fun weights =>
    (appends_record fun _ _ h => ⟨_, _, Graph.addConvolution_eq_ok h⟩).bind fun convolved => ?_
  cases normalization with
  | none => exact (appends_closed.pure convolved).bind fun t => appends_closed.activation t _
  | some m => exact (appends_scale convolved m).bind fun t => appends_closed.activation t _

theorem appends_normalization (input : TensorId) (a : Activation) (block : Nat) :
    Appends (normalization input a block) :=
  (appends_closed.nchw input).bind fun _ => (appends_takeNormalization _ _).bind fun m =>
    (appends_scale input m).bind fun t => appends_closed.activation t a

theorem appends_implicit (filters block : Nat) : Appends (implicit filters block) :=
  (appends_take _ _).bind fun _ => (appends_lift _).bind fun _ =>
    appends_record fun _ _ h => ⟨_, _, _, Graph.addConstant_eq_ok h⟩

end Emit

/-- **Every emitter** only appends nodes, whatever its arguments are and wherever it ends. -/
theorem Emission.appends (call : Emission) : Emit.Appends call.run := by
  have hclosed := Emit.appends_closed
  cases call with
  | convolution input c transposed block => exact Emit.appends_convolution input c transposed block
  | normalization input a block => exact Emit.appends_normalization input a block
  | implicit filters block => exact Emit.appends_implicit filters block
  | shiftChannels input other => exact hclosed.sum input other
  | controlChannels input other => exact hclosed.product input other
  | shortcut input source a => exact hclosed.shortcut input source a
  | sam input attention a => exact hclosed.sam input attention a
  | route sources axis group block => exact hclosed.route sources axis group block
  | upsample input stride => exact hclosed.upsample input stride
  | maxPool input size stride => exact hclosed.maxPool input size stride
  | averagePool input => exact hclosed.averagePool input
  | reorg3d input block => exact hclosed.reorg3d input block
  | reorg input stride block => exact hclosed.reorg input stride block
  | activation input a => exact hclosed.activation input a

/-! ## What stays -/

/-- The graph is **preserved** in `g'`: its nodes and its tensors, with their shapes, stand in
front, the names are the same, `g'` is consistent as well, and an evaluation of `g'` repeats that of
the graph on all values bound to inputs. -/
structure Graph.Preserved (g g' : Graph) : Prop where
  nodes : g.nodes.toList <+: g'.nodes.toList
  tensors : g.tensors.toList <+: g'.tensors.toList
  inputs : g'.inputs = g.inputs
  outputs : g'.outputs = g.outputs
  consistent : g'.Consistent
  evaluation : ∀ feeds, g.Repeats g' feeds

/-- Appended nodes preserve what is in front of them. -/
theorem Graph.Grows.preserved {P : Operation → Prop} {g g' : Graph} (h : g.Grows P g')
    (hg : g.Reachable) :
    g.Preserved g' where
  nodes := h.within.nodes
  tensors := h.within.tensors
  inputs := h.named.1
  outputs := h.named.2
  consistent := (h.reachable hg).consistent
  evaluation := h.within.repeats hg.wellFormed (h.reachable hg).wellFormed

namespace Emission

variable {d : Draft}

/-- **No call of an emitter disturbs** what is recorded, whether it succeeds or fails on the way. -/
theorem run_preserves (hg : d.graph.Reachable) (call : Emission) :
    d.graph.Preserved (finalState (call.run d)).graph :=
  (call.appends d).preserved hg

/-- The call fails behind the first node that it records: eight channels lie end to end, which
cannot be split into three groups. -/
theorem run_preserves_splitRoute :
    let d := Draft.fourChannels
    let r := (Emission.route [0, 0] 0 (some ⟨3, 0⟩) 1).run d
    (∃ f d', r = .error f d' ∧ d'.graph.nodes.size = 2) ∧ d.graph.Preserved (finalState r).graph :=
  ⟨⟨_, _, rfl, rfl⟩, run_preserves (Graph.declaring_reachable _ _) _⟩

/-- Calls one after the other only append nodes. -/
theorem session_grows (d : Draft) (calls : List Emission) :
    d.graph.Grows (fun _ => True) (session d calls).graph := by
  induction calls generalizing d with
  | nil => exact .refl
  | cons call rest ih => exact (call.appends d).trans (ih (leave d call))

/-- **Calls one after the other** preserve what was recorded before them, however many of
them fail. -/
theorem session_preserves (hg : d.graph.Reachable) (calls : List Emission) :
    d.graph.Preserved (session d calls).graph :=
  (session_grows d calls).preserved hg

end Emission

end GridNet
