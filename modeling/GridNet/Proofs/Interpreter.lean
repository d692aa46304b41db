import GridNet.Model.Build
import GridNet.Proofs.WeightSlices

/-!
# Reading a network layer by layer

What a network computes, said without a graph. The layers are read in order; all that is kept is
what each of them made, the tensor that the next one reads, and how many weights have been used up.
Every layer is an operator on tensors, with the weights of its own slice.

* `Activation.apply`, `Tensor.normalize`, `Tensor.crop` — the operators that layers share.
* `Interpreter.layer` — what a layer makes of the tensors in front of it.
* `Interpreter.run` — the named outputs of a network, ascending by name.

An operator has no value where its operands do not fit: where a reference leads nowhere, extents do
not agree, or a window is larger than what it slides over. All sizes are natural numbers.
-/

namespace GridNet

/-! ## Operators -/

/-- The value of an activation. -/
def Activation.apply : Activation → Scalar → Scalar
  | linear, x => x
  | relu, x => Pointwise.relu.apply x
  | logistic, x => Cell.sigmoid x
  | tanh, x => x.tanh
  | softplus, x => Pointwise.softplus.apply x
  | leaky, x => Pointwise.apply (.leaky (.ratio 1 10)) x
  | mish, x => x * (Pointwise.softplus.apply x).tanh
  | silu, x => x * Cell.sigmoid x
  | hardSigmoid, x => Pointwise.apply (.hardSigmoid (.ratio 1 6) .half) x
  | hardSwish, x => x * Pointwise.apply (.hardSigmoid (.ratio 1 6) .half) x

/-- The extent behind a kernel, taken exactly. -/
def Kernel.extentBehind (k : Kernel) (extent : Nat) : Option Nat :=
  if k.transposed then
    let reach := (extent - 1) * k.stride + k.size
    if 2 * k.padding ≤ reach then some (reach - 2 * k.padding) else none
  else k.gatheredExtent extent

/-- No extent is larger than the other list's, which is as long. -/
def withinExtents : (dims outer : List Nat) → Bool
  | [], [] => true
  | d :: dims, e :: outer => d ≤ e && withinExtents dims outer
  | _, _ => false

namespace Tensor

/-- The **normalisation** of all channels. The slice starts with a list of biases, one of scales,
one of means and one of variances. -/
def normalize (slice : Array Scalar) (t : Tensor) : Tensor :=
  let channels := t.extent 1
  let plane := volume (t.dims.drop 2)
  let entry := fun list channel => (slice[list * channels + channel]?).getD .zero
  .ofFn t.dims fun i =>
    let c := i / plane % channels
    let map := foldChannel (entry 0 c) (entry 1 c) (entry 2 c) (entry 3 c)
    Scalar.fma (t.item i) map.2 map.1

/-- The **corner at the origin** with the given extents. -/
def crop (dims : List Nat) (t : Tensor) : Option Tensor :=
  if withinExtents dims t.dims then some (tabulate dims t.get) else none

/-- Two tensors combined over the extents of their broadcast. -/
def combine (c : Combination) (a b : Tensor) : Option Tensor :=
  (broadcastDims a.dims b.dims).map fun dims => broadcast c.apply dims a b

/-- Tensors laid end to end. -/
def join (axis : Nat) (parts : List Tensor) : Option Tensor :=
  (concatExtents axis (parts.map (·.dims))).map fun dims => concat axis dims parts

/-- The same elements with other extents, if these have as many positions. -/
def view (dims : List Nat) (t : Tensor) : Option Tensor :=
  if volume dims = volume t.dims then some (t.reshape dims) else none

/-- A summary of windows, taken wherever a whole window lies on the padded image. -/
def summarize (p : PoolWindow) (t : Tensor) : Option Tensor := do
  let height ← windowCount (t.extent 2 + (p.before.rows + p.after.rows)) p.window.rows p.stride.rows
  let width ← windowCount (t.extent 3 + (p.before.columns + p.after.columns)) p.window.columns
    p.stride.columns
  return t.pool p height width

end Tensor

/-! ## Layers -/

namespace Interpreter

/-- The **state** of the interpreter. -/
structure State where
  /-- what each layer so far made -/
  earlier : List Tensor := []
  /-- what the next layer reads -/
  current : Tensor
  /-- how many weights have been used up -/
  taken : Nat := 0
  /-- the heads; the extents of a grid are filled in when its layer is reached -/
  heads : List Head
  /-- what the heads so far read -/
  headTensors : List Tensor := []

/-- What the layer made that a reference names: by its number, or counted backwards from the end. -/
def State.source? (s : State) (reference : Int) : Option Tensor :=
  let index := if reference < 0 then s.earlier.length + reference else reference
  if 0 ≤ index then s.earlier[index.toNat]? else none

/-- A convolution or deconvolution with its normalisation and activation. -/
def convolve (c : Convolution) (transposed : Bool) (slice : Array Scalar) (x : Tensor) :
    Option Tensor := do
  let k := c.kernelOf transposed slice
  let height ← k.extentBehind (x.extent 2)
  let width ← k.extentBehind (x.extent 3)
  let y := x.convolve Scalar.fma k height width
  return (if c.normalized then y.normalize slice else y).map c.activation.apply

/-- One part of the channels of a batch of images. -/
def channelPart (g : ChannelGroup) (t : Tensor) : Tensor :=
  let size := t.extent 1 / g.groups
  t.slice [0, g.part * size, 0, 0] [t.extent 0, size, t.extent 2, t.extent 3] [1, 1, 1, 1]

/-- Several tensors laid end to end, and a part of their channels. The axis does not count the
batch, and counts backwards below zero. -/
def route (axis : Int) (group : Option ChannelGroup) : List Tensor → Option Tensor
  | [] => none
  | [only] => some (group.elim only (channelPart · only))
  | first :: rest => do
    let resolved := if axis < 0 then first.dims.length + axis else axis + 1
    let joined ← if 1 ≤ resolved then Tensor.join resolved.toNat (first :: rest) else none
    return group.elim joined (channelPart · joined)

/-- Every pixel repeated `stride` times in both directions. -/
def upsample (stride : Nat) (x : Tensor) : Tensor :=
  let scales := [.one, .one, .ofNat stride, .ofNat stride]
  x.enlarge scales (List.zipWith Graph.scaledExtent x.dims scales)

/-- The largest element of each window. A window of 2 at stride 1 is padded behind the image, any
other one by half of what it adds on each side. -/
def maxPool (size stride : Nat) (x : Tensor) : Option Tensor :=
  let before := if size = 2 ∧ stride = 1 then 0 else (size - 1) / 2
  let after := if size = 2 ∧ stride = 1 then 1 else (size - 1) / 2
  x.summarize
    { kind := .max, window := ⟨size, size⟩, stride := ⟨stride, stride⟩
      before := ⟨before, before⟩, after := ⟨after, after⟩ }

/-- The mean of each channel. -/
def averagePool (x : Tensor) : Option Tensor :=
  x.summarize
    { kind := .average, window := ⟨x.extent 2, x.extent 3⟩, stride := ⟨1, 1⟩
      before := ⟨0, 0⟩, after := ⟨0, 0⟩ }

/-- Every second row and column from the given ones on. -/
def phase (x : Tensor) (row column : Nat) : Tensor :=
  x.slice [0, 0, row, column] [x.extent 0, x.extent 1, x.extent 2 / 2, x.extent 3 / 2] [1, 1, 2, 2]

/-- The four phases of a grid as channels. -/
def reorg3d (x : Tensor) : Option Tensor :=
  Tensor.join 1 [phase x 0 0, phase x 1 0, phase x 0 1, phase x 1 1]

/-- Blocks of `stride` by `stride` positions turned into channels: the elements are read with fewer
channels and more positions, and the steps within a block become the slowest channels. -/
def reorg (stride : Nat) (x : Tensor) : Option Tensor := do
  let viewed ← x.view
    [x.extent 0, x.extent 1 / (stride * stride), x.extent 2, stride, x.extent 3, stride]
  (viewed.transpose [0, 3, 5, 1, 2, 4]).view
    [x.extent 0, x.extent 1 * stride * stride, x.extent 2 / stride, x.extent 3 / stride]

/-- What **a layer** makes of the tensors in front of it, with its slice of the weights. -/
def layer (s : State) (slice : Array Scalar) : LayerKind → Option Tensor
  | .convolution c => convolve c false slice s.current
  | .deconvolution c => convolve c true slice s.current
  | .normalization a => some ((s.current.normalize slice).map a.apply)
  | .implicit filters => Tensor.ofArray? [1, filters, 1, 1] slice
  | .shiftChannels source => do Tensor.combine .sum s.current (← s.source? source)
  | .controlChannels source => do Tensor.combine .product s.current (← s.source? source)
  | .shortcut source a => do
    let cropped ← (← s.source? source).crop s.current.dims
    return (← Tensor.combine .sum cropped s.current).map a.apply
  | .sam source a => do
    return (← Tensor.combine .product s.current (← s.source? source)).map a.apply
  | .route sources axis group => do route axis group (← sources.mapM s.source?)
  | .upsample stride => some (upsample stride s.current)
  | .maxPool size stride => maxPool size stride s.current
  | .averagePool => averagePool s.current
  | .reorg3d => reorg3d s.current
  | .reorg stride => reorg stride s.current
  | .head _ _ => some s.current
  | .dropout => some s.current

/-! ## Networks -/

/-- The weights of the next layer, if there are enough. -/
def State.slice? (s : State) (weights : WeightBuffer) (count : Nat) : Option (Array Scalar) :=
  if s.taken + count ≤ weights.size then some (weights.extract s.taken (s.taken + count)) else none

/-- A head is placed on the tensor that it reads. -/
def State.place (s : State) (place : Nat) : Option State := do
  let h ← s.heads[place]?
  return { s with
    heads := s.heads.set place
      { h with gridWidth := s.current.extent 3, gridHeight := s.current.extent 2 }
    headTensors := s.headTensors ++ [s.current] }

/-- **One layer**: it is read, and what it made is kept. -/
def step (weights : WeightBuffer) (s : State) (kind : LayerKind) : Option State := do
  let count := kind.weightCount (s.current.extent 1)
  let y ← layer s (← s.slice? weights count) kind
  let next := { s with earlier := s.earlier ++ [y], current := y, taken := s.taken + count }
  match kind with
  | .head _ place => next.place place
  | _ => return next

/-- The outputs of a network, ascending by name: what its heads decode to, or its last tensor. -/
def outputs (b : Blueprint) (s : State) : Option (List (String × Tensor)) :=
  match s.headTensors with
  | [] => some [(featureName, s.current)]
  | tensors => do
    let decoder :=
      HeadDecoder.ofHeads b.input.width b.input.height b.classes b.activatedHeads s.heads
    let r ← (decoder.decode tensors).toOption
    return [("boxes", r.boxes), ("classes", r.classes), ("scores", r.scores)]

/-- **A whole network** on one batch. -/
def run (b : Blueprint) (weights : WeightBuffer) (input : Tensor) :
    Option (List (String × Tensor)) := do
  let s ← b.layers.foldlM (fun s l => step weights s l.kind)
    { current := input, heads := b.heads }
  outputs b s

end Interpreter

end GridNet
