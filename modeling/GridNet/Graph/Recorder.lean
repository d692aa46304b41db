import GridNet.Graph.Basic
import GridNet.Scalar.Whole
import GridNet.Tensor.Rearrange

/-!
# Recording nodes

One function for each kind of node. Each checks its operands and parameters, infers the shape of the
result, and appends the node; a call that fails appends nothing. Sums and products of parameters are
counted, and a call breaks down when one of them is no word.

* `Graph.addInput` … `Graph.addDecode` — the thirteen kinds.
* `Graph.markOutput` — a name for a tensor that a run returns.
-/

namespace GridNet.Graph

/-- A graph with one more node, and the tensor that the node makes. -/
abbrev Recorded := Graph × TensorId

/-- Declares a named input. -/
def addInput (g : Graph) (name : String) (shape : Shape) : Outcome Recorded := do
  ensure (!g.inputs.any (·.1 = name)) s!"duplicate input '{name}'"
  let (g, t) := g.pushOne (.input name) [] shape
  return ({ g with inputs := g.inputs ++ [(name, t)] }, t)

/-- The extent behind a kernel, on an axis of the given extent. -/
def kernelExtent (k : Kernel) (extent : Nat) : Outcome (Option Nat) :=
  if k.transposed then do
    let reach ← Word.add (← Word.mul (extent - 1) k.stride) k.size
    let padding ← Word.mul 2 k.padding
    return if padding ≤ reach then some (reach - padding) else none
  else do
    let padded ← Word.add extent (← Word.mul 2 k.padding)
    return windowCount padded k.size k.stride

/-- The number of weights that a kernel needs. -/
def kernelLength (k : Kernel) (channels : Nat) : Outcome Nat :=
  Word.product k.filters [channels / k.groups, k.size, k.size]

/-- Checks that biases are left out or complete. -/
def checkBias (k : Kernel) : Outcome Unit :=
  match k.bias with
  | none => .ok ()
  | some bias =>
    ensure (bias.size = k.filters) s!"convolution expects {k.filters} biases (got {bias.size})"

/-- The extents behind a window, if it fits on both axes. -/
def bothExtents (misfit : String) : Option Nat → Option Nat → Outcome (Nat × Nat)
  | some height, some width => .ok (height, width)
  | _, _ => .error (.note misfit)

/-- Appends a convolution or deconvolution. -/
def addConvolution (g : Graph) (input : TensorId) (k : Kernel) : Outcome Recorded := do
  let s ← (← g.shapeOf input).nchw
  ensure (0 < k.size && 0 < k.stride && 0 < k.groups && 0 < k.filters)
    "convolution kernel, stride, groups and filters must be positive"
  ensure (s.channels % k.groups = 0 && k.filters % k.groups = 0)
    (s!"{s.channels} input channels and {k.filters} filters are not divisible into " ++
      s!"{k.groups} groups")
  let expected ← kernelLength k s.channels
  ensure (k.weights.size = expected)
    s!"convolution expects {expected} kernel weights (got {k.weights.size})"
  checkBias k
  let (height, width) ← bothExtents
    s!"{k.size}x{k.size} kernel does not fit a {s.height}x{s.width} input with padding {k.padding}"
    (← kernelExtent k s.height) (← kernelExtent k s.width)
  let shape ← Shape.ofDims [s.batch, k.filters, height, width]
  return g.pushOne (.convolution k) [input] shape

/-- Checks that a list of channel parameters is left out or complete. -/
def checkChannels (label : String) (values : Array Scalar) (channels : Nat) : Outcome Unit :=
  ensure (values.isEmpty || values.size = channels)
    s!"channel {label} has {values.size} values for {channels} channels"

/-- Appends a map of channels. -/
def addScale (g : Graph) (input : TensorId) (m : ChannelMap) : Outcome Recorded := do
  let shape ← g.shapeOf input
  let s ← shape.nchw
  checkChannels "shift" m.shift s.channels
  checkChannels "scale" m.scale s.channels
  checkChannels "power" m.power s.channels
  return g.pushOne (.scale m) [input] shape

/-- Appends a sum or product of two tensors. -/
def addCombination (g : Graph) (left right : TensorId) (c : Combination) : Outcome Recorded := do
  let a := (← g.shapeOf left).dims
  let b := (← g.shapeOf right).dims
  ensure (a.length = b.length)
    s!"elementwise operands differ in rank ({dimsText a} vs {dimsText b})"
  match broadcastDims a b with
  | some dims =>
    let shape ← Shape.ofDims dims
    return g.pushOne (.combine c) [left, right] shape
  | none =>
    throw (.note s!"elementwise operands do not broadcast ({dimsText a} vs {dimsText b})")

/-- Appends a primitive nonlinearity. -/
def addActivation (g : Graph) (input : TensorId) (p : Pointwise) : Outcome Recorded := do
  let shape ← g.shapeOf input
  return g.pushOne (.activation p) [input] shape

/-- Appends a constant. -/
def addConstant (g : Graph) (shape : Shape) (values : Array Scalar) : Outcome Recorded := do
  ensure (values.size = shape.elements)
    s!"constant of shape {shape.text} needs {shape.elements} values (got {values.size})"
  return g.pushOne (.constant values) [] shape

/-- The extents of tensors laid end to end along an axis. -/
def concatDims (g : Graph) (axis : Nat) : (dims : List Nat) → List TensorId → Outcome (List Nat)
  | dims, [] => .ok dims
  | dims, t :: rest => do
    let other := (← g.shapeOf t).dims
    ensure (agreeExcept axis other dims)
      s!"cannot concatenate {dimsText other} with {dimsText dims} on axis {axis}"
    let sum ← Word.add ((dims[axis]?).getD 0) ((other[axis]?).getD 0)
    concatDims g axis (dims.set axis sum) rest

/-- Appends tensors laid end to end. -/
def addConcat (g : Graph) (inputs : List TensorId) (axis : Nat) : Outcome Recorded :=
  match inputs with
  | [] => .error (.note "concat needs at least one input")
  | first :: rest => do
    let dims := (← g.shapeOf first).dims
    ensure (axis < dims.length) s!"concat axis {axis} out of range for rank {dims.length}"
    let shape ← Shape.ofDims (← concatDims g axis dims rest)
    return g.pushOne (.concat axis) inputs shape

/-- Checks one axis after the other that a window stays inside. -/
def checkSlice (dims : List Nat) : (axis : Nat) → List (Nat × Nat × Nat × Nat) → Outcome Unit
  | _, [] => .ok ()
  | axis, (extent, start, size, stride) :: rest => do
    ensure (0 < size && 0 < stride) "slice size and stride must be positive"
    let last ← Word.add start (← Word.mul (size - 1) stride)
    ensure (last < extent) s!"slice reaches index {last} on axis {axis} of {dimsText dims}"
    checkSlice dims (axis + 1) rest

/-- Appends a strided window. -/
def addSlice (g : Graph) (input : TensorId) (w : SliceWindow) : Outcome Recorded := do
  let dims := (← g.shapeOf input).dims
  ensure (w.start.length = dims.length && w.size.length = dims.length &&
      w.stride.length = dims.length)
    s!"slice rank does not match input {dimsText dims}"
  checkSlice dims 0 (dims.zip (w.start.zip (w.size.zip w.stride)))
  let shape ← Shape.ofDims w.size
  return g.pushOne (.slice w) [input] shape

/-- An extent scaled by a factor and rounded down. -/
def scaledExtent (extent : Nat) (factor : Scalar) : Nat :=
  Scalar.toNatWithin (Word.modulus - 1) (Scalar.floor (Scalar.ofNat extent * factor))

/-- Appends a change of resolution. -/
def addResize (g : Graph) (input : TensorId) (scales : List Scalar) : Outcome Recorded := do
  let dims := (← g.shapeOf input).dims
  ensure (scales.length = dims.length) s!"resize needs one scale per axis of {dimsText dims}"
  let shape ← inContext "resize produced an empty tensor"
    (Shape.ofDims (List.zipWith scaledExtent dims scales))
  return g.pushOne (.resize scales) [input] shape

/-- How many places a pooling window has on an axis, with the padding in front and behind. -/
def poolExtent (extent before after window stride : Nat) : Outcome (Option Nat) := do
  let padded ← Word.add extent (← Word.add before after)
  return windowCount padded window stride

/-- Appends a pooling window. -/
def addPool (g : Graph) (input : TensorId) (p : PoolWindow) : Outcome Recorded := do
  let s ← (← g.shapeOf input).nchw
  ensure (0 < p.window.rows && 0 < p.window.columns && 0 < p.stride.rows && 0 < p.stride.columns)
    "pool window and stride must be positive"
  let (height, width) ← bothExtents
    s!"{dimsText p.window.toList} pool window does not fit a {s.height}x{s.width} input"
    (← poolExtent s.height p.before.rows p.after.rows p.window.rows p.stride.rows)
    (← poolExtent s.width p.before.columns p.after.columns p.window.columns p.stride.columns)
  let shape ← Shape.ofDims [s.batch, s.channels, height, width]
  return g.pushOne (.pool p) [input] shape

/-- Appends a change of extents. -/
def addReshape (g : Graph) (input : TensorId) (dims : List Nat) : Outcome Recorded := do
  let source ← g.shapeOf input
  let shape ← Shape.ofDims dims
  ensure (shape.elements = source.elements) s!"cannot reshape {source.text} into {shape.text}"
  return g.pushOne (.reshape dims) [input] shape

/-- Appends a change of the order of axes. -/
def addTranspose (g : Graph) (input : TensorId) (order : List Nat) : Outcome Recorded := do
  let dims := (← g.shapeOf input).dims
  ensure (order.length = dims.length) s!"permutation {dimsText order} has the wrong rank"
  ensure (isOrder dims.length order []) s!"{dimsText order} is not a permutation"
  let shape ← Shape.ofDims (order.map fun axis => (dims[axis]?).getD 0)
  return g.pushOne (.transpose order) [input] shape

/-- Appends a decode node, which makes three tensors. -/
def addDecode (g : Graph) (inputs : List TensorId) (d : HeadDecoder) :
    Outcome (Graph × List TensorId) := do
  let shapes ← inputs.mapM g.shapeOf
  let outputs ← d.outputShapes shapes
  return g.push (.decode d) inputs outputs

/-- Gives a tensor a name under which a run returns it. -/
def markOutput (g : Graph) (t : TensorId) (name : String) : Outcome Graph := do
  let _ ← g.entry t
  ensure (!g.outputs.any (·.1 = name)) s!"duplicate output '{name}'"
  return { g with outputs := g.outputs ++ [(name, t)] }

end GridNet.Graph
