import GridNet.Graph.Basic

/-!
# What earlier layers made

A list with the tensor of each layer that has been built. Layers refer to it by the number of a
layer, or backwards from the end by a negative number.

* `LayerOutputs.resolve` — a reference as the number of a layer.
* `LayerOutputs.lookup` — that number and the layer's tensor.
-/

namespace GridNet

/-- The tensors of the layers built so far, in order. -/
structure LayerOutputs where
  tensors : List TensorId := []

namespace LayerOutputs

/-- No layer has been built. -/
def empty : LayerOutputs := {}

/-- How many layers have been built. -/
def size (o : LayerOutputs) : Nat := o.tensors.length

/-- The tensor of one more layer. -/
def push (o : LayerOutputs) (t : TensorId) : LayerOutputs := ⟨o.tensors ++ [t]⟩

/-- The tensor of a layer. -/
def get? (o : LayerOutputs) (index : Nat) : Option TensorId := o.tensors[index]?

/-- The number of the layer that block `block` refers to. -/
def resolve (o : LayerOutputs) (reference : Int) (block : Nat) : Outcome Nat :=
  let index := if reference < 0 then o.size + reference else reference
  if 0 ≤ index ∧ index < o.size then .ok index.toNat
  else .error (.ofDefect (.referenceOutOfRange block reference o.size))

/-- The number and the tensor of the layer that block `block` refers to. -/
def lookup (o : LayerOutputs) (reference : Int) (block : Nat) : Outcome (Nat × TensorId) := do
  let index ← o.resolve reference block
  match o.get? index with
  | some t => return (index, t)
  | none => throw .brokenDown

end LayerOutputs

end GridNet
