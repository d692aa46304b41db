import GridNet.Counting
import GridNet.Decimal.Reader
import GridNet.Text.Blank

/-!
# Layers

The closed set of layers that a network description can ask for, with their parameters.

* `Activation` — the nonlinearity behind a layer.
* `Head` — a detection head: a grid of cells with some boxes in each, every box with an anchor size.
* `LayerKind`, `Layer` — what one block below the network block stands for.
-/

namespace GridNet

/-! ## Activations -/

/-- A **nonlinearity**, applied to each element. -/
inductive Activation
  | linear
  | relu
  | logistic
  | tanh
  | softplus
  | leaky
  | mish
  | silu
  | hardSigmoid
  | hardSwish
deriving DecidableEq

namespace Activation

/-- The name under which an activation is written. -/
def name : Activation → String
  | linear => "linear"
  | relu => "relu"
  | logistic => "logistic"
  | tanh => "tanh"
  | softplus => "softplus"
  | leaky => "leaky"
  | mish => "mish"
  | silu => "silu"
  | hardSigmoid => "hardsigmoid"
  | hardSwish => "hardswish"

/-- Reads a name, some of which have a second spelling; an unknown one is returned trimmed. -/
def read (text : String) : Except String Activation :=
  match Text.trim text with
  | "linear" => .ok linear
  | "relu" => .ok relu
  | "logistic" | "sigmoid" => .ok logistic
  | "tanh" => .ok tanh
  | "softplus" => .ok softplus
  | "leaky" => .ok leaky
  | "mish" => .ok mish
  | "silu" | "swish" => .ok silu
  | "hardsigmoid" | "hard_sigmoid" => .ok hardSigmoid
  | "hardswish" | "hard_swish" => .ok hardSwish
  | other => .error other

end Activation

/-! ## Detection heads -/

/-- The two **kinds of detection head**, which decode their cells differently. -/
inductive HeadKind
  | yolo
  | region
deriving DecidableEq

/-- The name under which a kind of head is written. -/
def HeadKind.name : HeadKind → String
  | yolo => "yolo"
  | region => "region"

/-- A **detection head**. -/
structure Head where
  /-- the name of the head -/
  name : String
  kind : HeadKind
  /-- cells in a row; zero until the network is built -/
  gridWidth : Nat := 0
  /-- rows of cells; zero until the network is built -/
  gridHeight : Nat := 0
  /-- boxes in each cell -/
  boxes : Nat
  /-- classes that each box is scored for -/
  classes : Nat
  /-- widths and heights, one after the other -/
  anchors : List Scalar
  /-- which anchor each box takes; empty if they are taken in order -/
  mask : List Nat
  /-- how far a box centre may leave its cell -/
  centreScale : Scalar
deriving DecidableEq

namespace Head

/-- The channels of the tensor that the head reads: four coordinates, one objectness and the class
scores for each box. -/
def channels (h : Head) : Nat := h.boxes * (5 + h.classes)

/-- The channels, counted. -/
def countChannels (h : Head) : Outcome Nat := do Word.mul h.boxes (← Word.add 5 h.classes)

/-- The rows that the head adds to the decoded output. -/
def rows (h : Head) : Nat := h.boxes * h.gridWidth * h.gridHeight

/-- The rows, counted. -/
def countRows (h : Head) : Outcome Nat := Word.product h.boxes [h.gridWidth, h.gridHeight]

/-- The number of the anchor that a box takes. -/
def anchorIndex (h : Head) (slot : Nat) : Option Nat :=
  if h.mask.isEmpty then some slot else h.mask[slot]?

/-- Width and height of the anchor that a box takes. -/
def anchor (h : Head) (slot : Nat) : Option (Scalar × Scalar) := do
  let i ← h.anchorIndex slot
  let width ← h.anchors[2 * i]?
  let height ← h.anchors[2 * i + 1]?
  return (width, height)

end Head

/-! ## Layers -/

/-- Parameters shared by **convolutions and deconvolutions**. -/
structure Convolution where
  /-- output channels -/
  filters : Nat
  /-- side of the square kernel -/
  size : Nat
  stride : Nat
  padding : Nat
  /-- groups of channels that do not see each other -/
  groups : Nat
  /-- a folded batch normalisation follows -/
  normalized : Bool
  /-- the weights start with one bias for each filter -/
  bias : Bool
  activation : Activation
deriving DecidableEq

/-- The **part of a route's channels** that is kept. -/
structure ChannelGroup where
  /-- parts that the channels are cut into -/
  groups : Nat
  /-- the part that is kept, counted from 0 -/
  part : Nat
deriving DecidableEq

/-- What a **layer** does. References to other layers count from 0, or backwards from the layer
itself if they are negative. -/
inductive LayerKind
  | convolution (c : Convolution)
  | deconvolution (c : Convolution)
  | normalization (activation : Activation)
  | implicit (filters : Nat)
  | shiftChannels (source : Int)
  | controlChannels (source : Int)
  | shortcut (source : Int) (activation : Activation)
  | sam (source : Int) (activation : Activation)
  | route (sources : List Int) (axis : Int) (group : Option ChannelGroup)
  | upsample (stride : Nat)
  | maxPool (size stride : Nat)
  | averagePool
  | reorg3d
  | reorg (stride : Nat)
  /-- the head with the given place among the heads -/
  | head (kind : HeadKind) (place : Nat)
  | dropout
deriving DecidableEq

/-- The short name of a layer. -/
def LayerKind.name : LayerKind → String
  | convolution _ => "conv"
  | deconvolution _ => "deconv"
  | normalization _ => "batchnorm"
  | implicit _ => "implicit"
  | shiftChannels _ => "shift_channels"
  | controlChannels _ => "control_channels"
  | shortcut _ _ => "shortcut"
  | sam _ _ => "sam"
  | route _ _ _ => "route"
  | upsample _ => "upsample"
  | maxPool _ _ => "maxpool"
  | averagePool => "avgpool"
  | reorg3d => "reorg3d"
  | reorg _ => "reorg"
  | head kind _ => kind.name
  | dropout => "dropout"

/-- The layer is a detection head. -/
def LayerKind.isHead : LayerKind → Bool
  | head _ _ => true
  | _ => false

/-- A **layer** with its place in the network, counted from 0. -/
structure Layer where
  index : Nat
  kind : LayerKind
deriving DecidableEq

/-- The number of the layer's block, the network block being block 0. -/
def Layer.block (l : Layer) : Nat := l.index + 1

end GridNet
