import GridNet.Emit.Activation

/-!
# Emitting layers that hold weights

Convolutions, batch normalisation and implicit constants take their weights from the cursor. A
normalisation takes biases, scales, means and variances, in this order, and is folded into one
affine map; a convolution takes its normalisation first, then its biases, then the kernel.

* `foldNormalization` — `(x - mean) / sqrt (variance + ε) * scale + bias` as `x * s + t`.
* `Emit.convolution`, `Emit.normalization`, `Emit.implicit` — the layers.
-/

namespace GridNet

/-- What is added to a variance before its root is taken. -/
def normalizationEpsilon : Scalar := .ratio 1 100000

/-- The affine map of one channel: its shift and its scale. -/
def foldChannel (bias scale mean variance : Scalar) : Scalar × Scalar :=
  let deviation := (variance + normalizationEpsilon).sqrt
  (bias - mean * scale / deviation, scale / deviation)

/-- The affine maps of a batch normalisation, for as many channels as all four lists have. -/
def foldNormalization (biases scales means variances : Array Scalar) : ChannelMap :=
  let folded := (((biases.zip scales).zip means).zip variances).map fun
    | (((bias, scale), mean), variance) => foldChannel bias scale mean variance
  { shift := folded.map (·.1)
    scale := folded.map (·.2)
    power := Array.replicate folded.size .one }

namespace Emit

/-- Takes the four lists of a normalisation and folds them. -/
def takeNormalization (channels block : Nat) : Emit ChannelMap := do
  let biases ← take channels block
  let scales ← take channels block
  let means ← take channels block
  let variances ← take channels block
  return foldNormalization biases scales means variances

/-- Takes what is present. -/
def takeIf {α : Type} (present : Bool) (m : Emit α) : Emit (Option α) :=
  if present then some <$> m else pure none

/-- The number of weights in the kernel of a convolution over the given channels. They are counted
for all channels before they are divided among the groups. -/
def kernelLength (c : Convolution) (channels : Nat) : Outcome Nat := do
  return (← Word.product c.filters [channels, c.size, c.size]) / c.groups

/-- A convolution or, transposed, a deconvolution, with its normalisation and activation. -/
def convolution (input : TensorId) (c : Convolution) (transposed : Bool) (block : Nat) :
    Emit TensorId := do
  let channels := (← nchw input).channels
  let divisible ← divides c.groups channels
  lift <| ensure divisible
    s!"block {block}: {channels} channels cannot be split into {c.groups} groups"
  let length ← lift (kernelLength c channels)
  let normalization ← takeIf c.normalized (takeNormalization c.filters block)
  let bias ← takeIf c.bias (take c.filters block)
  let weights ← take length block
  let convolved ← record (·.addConvolution input
    { transposed, filters := c.filters, size := c.size, stride := c.stride,
      padding := c.padding, groups := c.groups, weights, bias })
  let normalized ← match normalization with
    | some m => record (·.addScale convolved m)
    | none => pure convolved
  activation normalized c.activation

/-- A normalisation of all channels of the input. -/
def normalization (input : TensorId) (a : Activation) (block : Nat) : Emit TensorId := do
  let channels := (← nchw input).channels
  let m ← takeNormalization channels block
  let normalized ← record (·.addScale input m)
  activation normalized a

/-- A constant with one value for each channel. -/
def implicit (filters block : Nat) : Emit TensorId := do
  let values ← take filters block
  let shape ← lift (Shape.ofDims [1, filters, 1, 1])
  record (·.addConstant shape values)

end Emit

end GridNet
