import GridNet.Head.Decoder
import GridNet.Tensor.Convolution
import GridNet.Tensor.Pooling

/-!
# Operations

What a node of a graph can compute.

* `Pointwise` — the primitive nonlinearities; others are built from these, sums and products.
* `ChannelMap` — an affine map for each channel, raised to a power.
* `Operation` — the thirteen kinds of node.
-/

namespace GridNet

/-- A **primitive nonlinearity**. -/
inductive Pointwise
  | relu
  | sigmoid
  | tanh
  /-- negative numbers multiplied by a slope -/
  | leaky (slope : Scalar)
  | softplus
  /-- a line cut to the range from zero to one -/
  | hardSigmoid (slope offset : Scalar)
deriving DecidableEq

/-- The name of a nonlinearity. -/
def Pointwise.name : Pointwise → String
  | relu => "relu"
  | sigmoid => "sigmoid"
  | tanh => "tanh"
  | leaky _ => "leaky"
  | softplus => "softplus"
  | hardSigmoid _ _ => "hardsigmoid"

/-- The numbers that go with a nonlinearity. -/
def Pointwise.parameters : Pointwise → List Scalar
  | leaky slope => [slope]
  | hardSigmoid slope offset => [slope, offset]
  | _ => []

/-- A **map of channels**: `(x * scale + shift) ^ power`. An empty list leaves its part out. -/
structure ChannelMap where
  shift : Array Scalar := #[]
  scale : Array Scalar := #[]
  power : Array Scalar := #[]
deriving DecidableEq

/-- How two tensors are **combined** element by element. -/
inductive Combination
  | sum
  | product
deriving DecidableEq

/-- The name of a combination. -/
def Combination.name : Combination → String
  | sum => "sum"
  | product => "prod"

/-- A **strided window** over every axis. -/
structure SliceWindow where
  start : List Nat
  size : List Nat
  stride : List Nat
deriving DecidableEq

/-- What a **node** computes. -/
inductive Operation
  | input (name : String)
  | convolution (k : Kernel)
  | scale (m : ChannelMap)
  | combine (c : Combination)
  | activation (p : Pointwise)
  | constant (values : Array Scalar)
  | concat (axis : Nat)
  | slice (w : SliceWindow)
  | resize (scales : List Scalar)
  | pool (p : PoolWindow)
  | reshape (dims : List Nat)
  | transpose (order : List Nat)
  | decode (d : HeadDecoder)
deriving DecidableEq

namespace Operation

/-- The name of an operation. -/
def name : Operation → String
  | input _ => "input"
  | convolution k => if k.transposed then "deconvolution" else "convolution"
  | scale _ => "scale"
  | combine _ => "elementwise"
  | activation _ => "activation"
  | constant _ => "constant"
  | concat _ => "concat"
  | slice _ => "slice"
  | resize _ => "resize"
  | pool _ => "pool"
  | reshape _ => "reshape"
  | transpose _ => "transpose"
  | decode _ => "yolo_decode"

/-- How many weights, biases, scales and constants the operation holds. -/
def parameterCount : Operation → Nat
  | convolution k => k.weights.size + (k.bias.map Array.size).getD 0
  | scale m => m.shift.size + m.scale.size
  | constant values => values.size
  | _ => 0

end Operation

end GridNet
