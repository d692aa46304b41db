import GridNet.Emit.Basic

/-!
# Emitting activations

Six activations are nodes of their own, the linear one is none at all, and three are products of the
input and a gate.

* `Emit.activation` — by the name that the description gives.
-/

namespace GridNet.Emit

/-- The slope of the leaky activation below zero. -/
def leakySlope : Scalar := .ratio 1 10

/-- The hard sigmoid: a slope of one sixth through one half. -/
def hardSigmoid : Pointwise := .hardSigmoid (.ratio 1 6) .half

/-- One primitive nonlinearity. -/
def pointwise (input : TensorId) (p : Pointwise) : Emit TensorId :=
  record (·.addActivation input p)

/-- The product of two tensors. -/
def product (left right : TensorId) : Emit TensorId := record (·.addCombination left right .product)

/-- The sum of two tensors. -/
def sum (left right : TensorId) : Emit TensorId := record (·.addCombination left right .sum)

/-- An activation. -/
def activation (input : TensorId) : Activation → Emit TensorId
  | .linear => pure input
  | .relu => pointwise input .relu
  | .logistic => pointwise input .sigmoid
  | .tanh => pointwise input .tanh
  | .softplus => pointwise input .softplus
  | .leaky => pointwise input (.leaky leakySlope)
  | .hardSigmoid => pointwise input hardSigmoid
  | .mish => do
    let softened ← pointwise input .softplus
    let gate ← pointwise softened .tanh
    product input gate
  | .silu => do
    let gate ← pointwise input .sigmoid
    product input gate
  | .hardSwish => do
    let gate ← pointwise input hardSigmoid
    product input gate

end GridNet.Emit
