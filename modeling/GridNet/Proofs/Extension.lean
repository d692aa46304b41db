import GridNet.Proofs.Construction
import GridNet.Proofs.ShapeSoundness
import GridNet.Proofs.WeightSlices

/-!
# Every step of a construction extends the graph

Nothing that is recorded is ever changed. Every step of the construction, with weights or without,
only appends nodes that have passed their checks, and none but the last one decodes heads. So what
holds of the front of a finished graph holds of each graph on the way.

* `Emit.Extends` — steps that only append nodes with one result.
* `Build.pass_extends` — the pass over the layers does.
-/

namespace GridNet

namespace Operation

/-- The operation decodes heads. -/
def isDecode : Operation → Bool
  | decode _ => true
  | _ => false

/-- The operation **decodes no heads**. -/
def Undecoded (op : Operation) : Prop := op.isDecode = false

theorem Undecoded.anchored {op : Operation} (h : op.Undecoded) : op.Anchored := by
  cases op with
  | decode => cases h
  | _ => trivial

end Operation

namespace Graph

variable {g g' : Graph}

/-! ## Decode nodes -/

/-- A node with a single result decodes no heads, which would make three. -/
theorem Records.undecoded {op : Operation} {inputs : List TensorId} {r : Recorded}
    (h : g.Records op inputs r) : op.Undecoded := by
  obtain ⟨shape, haccepts, -⟩ := h
  cases haccepts with
  | decode _ hshapes =>
    obtain ⟨-, -, -, _, boxes, scores, hthree, -⟩ := HeadDecoder.outputShapes_eq_ok hshapes
    cases hthree
  | _ => rfl

/-- Nodes that have been appended to an anchored graph leave it anchored. -/
theorem Grows.anchored (h : g.Grows Operation.Undecoded g') (hg : g.Anchored) : g'.Anchored := by
  obtain ⟨added, hadded, hall⟩ := h.nodes
  intro node hnode
  rw [hadded] at hnode
  rcases List.mem_append.mp hnode with hnode | hnode
  · exact hg node hnode
  · exact (hall node hnode).anchored

end Graph

/-! ## Steps that append -/

/-- **Steps that only append** nodes with one result. -/
def Emit.Extends {α : Type} (m : Emit α) : Prop :=
  ∀ d x d', m d = .ok x d' → d.graph.Grows Operation.Undecoded d'.graph

namespace Emit

theorem Extends.bind {α β : Type} {m : Emit α} {f : α → Emit β} (hm : Extends m)
    (hf : ∀ x, Extends (f x)) : Extends (m >>= f) := by
  intro d y d' h
  obtain ⟨x, d₁, hx, hy⟩ := bind_eq_ok.mp h
  exact (hm d x d₁ hx).trans (hf x d₁ y d' hy)

theorem extends_closed : Closed @Extends where
  pure x d y d' h := by
    obtain ⟨-, rfl⟩ := pure_eq_ok.mp h
    exact .refl
  bind := Extends.bind
  lift r d y d' h := by
    obtain ⟨-, rfl⟩ := lift_eq_ok.mp h
    exact .refl
  shapeOf t d s d' h := by
    obtain ⟨-, rfl⟩ := query_eq_ok.mp h
    exact .refl
  record {f} hf d t d' h := by
    obtain ⟨g, hg, rfl⟩ := record_eq_ok.mp h
    obtain ⟨op, inputs, hrecords, -⟩ := hf.records _ _ hg
    exact hrecords.grows hrecords.undecoded

theorem convolution_extends (input : TensorId) (c : Convolution) (transposed : Bool)
    (block : Nat) : Extends (convolution input c transposed block) := by
  intro d t d' h
  obtain ⟨_, _, _, _, _, _, d₁, convolved, normalized, -, -, -, -, hconvolved, hnormalized,
    hactivation⟩ := convolution_eq_ok h
  have hfirst := hconvolved.grows hconvolved.undecoded
  have hsecond : convolved.1.Grows Operation.Undecoded normalized.1 :=
    Graph.grows_of_optional hnormalized rfl
  exact (hfirst.trans hsecond).trans (extends_closed.activation _ _ _ _ _ hactivation)

theorem normalization_extends (input : TensorId) (a : Activation) (block : Nat) :
    Extends (normalization input a block) := by
  intro d t d' h
  obtain ⟨_, _, _, _, _, d₁, normalized, -, -, -, hnormalized, hactivation⟩ :=
    normalization_eq_ok h
  exact (hnormalized.grows hnormalized.undecoded).trans
    (extends_closed.activation _ _ _ _ _ hactivation)

theorem implicit_extends (filters block : Nat) : Extends (implicit filters block) := by
  intro d t d' h
  obtain ⟨shape, _, -, -, haccepts, hpush, -⟩ := implicit_eq_ok h
  have hrecords : d.graph.Records _ [] (d'.graph, t) := ⟨shape, haccepts, hpush⟩
  exact hrecords.grows hrecords.undecoded

end Emit

namespace Build

open Emit

variable {all : List Layer}

/-- **All layers** only append. -/
theorem layer_extends (p : Progress) (l : Layer) : Extends (layer all p l) := by
  rcases hl : l.kind.isWeighted with _ | _
  · exact extends_closed.layer all p l hl
  · unfold layer
    cases hkind : l.kind with
    | convolution | deconvolution =>
      exact (convolution_extends _ _ _ _).bind fun _ => extends_closed.pure _
    | normalization => exact (normalization_extends _ _ _).bind fun _ => extends_closed.pure _
    | implicit => exact (implicit_extends _ _).bind fun _ => extends_closed.pure _
    | _ =>
      rw [hkind] at hl
      cases hl

theorem step_extends (p : Progress) (l : Layer) : Extends (step all p l) := by
  intro d p' d' h
  obtain ⟨_, _, -, -, -, -, ⟨_, _, _, -, -, -, rfl, -⟩ | ⟨-, label, hlayer, -⟩⟩ := step_eq_ok h
  · exact .refl
  · exact layer_extends p l _ _ _ hlayer

/-- **The pass** over the layers only appends. -/
theorem pass_extends (layers : List Layer) (p : Progress) : Extends (pass all p layers) := by
  induction layers generalizing p with
  | nil => exact extends_closed.pure p
  | cons l rest ih => exact (step_extends p l).bind ih

end Build

end GridNet
