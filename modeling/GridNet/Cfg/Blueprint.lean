import GridNet.Cfg.Field

/-!
# Blueprints

A `Blueprint` is a network description with every value read and checked: the geometry of
the input, one layer for each block below the network block, and the detection heads.
Unknown layers and activations, missing fields and values out of range are all found here,
before any weight is touched.

* `Blueprint.ofBlocks` — the checks, in the order of the blocks and, within one, of its fields.
-/

namespace GridNet

/-- The **geometry of the input**, from the leading block. -/
structure InputGeometry where
  width : Nat
  height : Nat
  channels : Nat
  /-- images are padded to keep their proportions instead of stretched -/
  letterbox : Bool := false
  /-- images that run through the network at once -/
  batch : Nat := 1
deriving DecidableEq

/-- A checked **network description**. -/
structure Blueprint where
  name : String
  input : InputGeometry
  layers : List Layer
  heads : List Head
  /-- classes of every head; zero without heads -/
  classes : Nat
  /-- the heads emit activated values -/
  activatedHeads : Bool
deriving DecidableEq

namespace Blueprint

/-- The number of layers that are detection heads. -/
def headLayerCount (b : Blueprint) : Nat := (b.layers.filter (·.kind.isHead)).length

/-- Reads the network block. -/
def readInput (s : Section) : Outcome InputGeometry := do
  let width ← s.positive "width"
  let height ← s.positive "height"
  let channels ← s.positive "channels"
  let letterbox ← s.flag "letter_box" false
  let batch ← s.positiveOr "batch" 1
  return { width, height, channels, letterbox, batch }

/-- Reads a convolution. A set `pad` asks for the padding that keeps the extent at stride 1. -/
def readConvolution (s : Section) : Outcome Convolution := do
  let filters ← s.positive "filters"
  let size ← s.positive "size"
  let normalized ← s.flag "batch_normalize" false
  let pad ← s.required Section.integer "pad"
  let padding ← if pad != 0 then pure ((size - 1) / 2) else s.optional Section.size "padding" 0
  let stride ← s.positive "stride"
  let groups ← s.positiveOr "groups" 1
  let bias ← s.flag "bias" (!normalized)
  let activation ← s.activation
  return { filters, size, stride, padding, groups, normalized, bias, activation }

/-- Reads a route. -/
def readRoute (s : Section) : Outcome LayerKind := do
  let sources ← s.list Section.integer "layers"
  if sources.isEmpty then throw (s.invalid "layers" "")
  let groups ← s.positiveOr "groups" 1
  let part ← s.optional Section.size "group_id" 0
  if groups ≤ part then throw (s.invalid "group_id" (toString part))
  let axis ← s.optional Section.integer "axis" 0
  return .route sources axis (if 1 < groups then some { groups, part } else none)

/-- Reads a detection head, for the layer with the given index. -/
def readHead (s : Section) (kind : HeadKind) (index : Nat) : Outcome Head := do
  let classes ← s.required Section.size "classes"
  let anchors ← s.list Section.scalar "anchors"
  if anchors.isEmpty || anchors.length % 2 != 0 then
    throw (s.invalid "anchors" (toString anchors.length))
  let mask ← s.listOrEmpty Section.size "mask"
  let boxes ← if mask.isEmpty then s.positive "num" else pure mask.length
  let pairs := anchors.length / 2
  match mask.find? (pairs ≤ ·) with
  | some bad => throw (s.invalid "mask" (toString bad))
  | none => pure ()
  if pairs < boxes then throw (s.invalid "num" (toString boxes))
  let centreScale ← s.optional Section.scalar "scale_x_y" .one
  return { name := s!"{kind.name}_{index}", kind, boxes, classes, anchors, mask, centreScale }

/-- What a block below the network block turns out to be: a layer, or a head with its own setting of
"emits activated values". -/
inductive Reading
  | layer (kind : LayerKind)
  | head (h : Head) (activated : Bool)

/-- Reads the block of the layer with the given index. -/
def readLayer (s : Section) (index : Nat) : Outcome Reading :=
  match s.block.kind with
  | "convolutional" => (readConvolution s).map (.layer <| .convolution ·)
  | "deconvolutional" => (readConvolution s).map (.layer <| .deconvolution ·)
  | "batchnorm" => s.activation.map (.layer <| .normalization ·)
  | "implicit" | "implicit_add" | "implicit_mul" =>
    (s.positive "filters").map (.layer <| .implicit ·)
  | "shift_channels" => (s.required Section.integer "from").map (.layer <| .shiftChannels ·)
  | "control_channels" => (s.required Section.integer "from").map (.layer <| .controlChannels ·)
  | "shortcut" => do
    let source ← s.required Section.integer "from"
    return .layer (.shortcut source (← s.activation))
  | "sam" => do
    let source ← s.required Section.integer "from"
    return .layer (.sam source (← s.activation))
  | "route" => (readRoute s).map .layer
  | "upsample" => (s.positiveOr "stride" 2).map (.layer <| .upsample ·)
  | "maxpool" | "max" => do
    let size ← s.positive "size"
    return .layer (.maxPool size (← s.positive "stride"))
  | "avgpool" | "avg" => .ok (.layer .averagePool)
  | "reorg3d" => .ok (.layer .reorg3d)
  | "reorg" => (s.positiveOr "stride" 2).map (.layer <| .reorg ·)
  | "yolo" => do
    let activated ← s.flag "new_coords" false
    return .head (← readHead s .yolo index) activated
  | "region" => do
    let activated ← s.flag "new_coords" false
    return .head (← readHead s .region index) activated
  | "dropout" => .ok (.layer .dropout)
  | other => .error (.ofDefect (.unsupportedLayer s.index other))

/-- Reads all blocks below the network block. -/
def readLayers (index : Nat) : List Block → Outcome (List Reading)
  | [] => .ok []
  | block :: rest => do
    let reading ← readLayer ⟨block, index + 1⟩ index
    return reading :: (← readLayers (index + 1) rest)

/-- The layers of the readings; a head is numbered by the heads in front of it. -/
def layersOf (index place : Nat) : List Reading → List Layer
  | [] => []
  | .layer kind :: rest => ⟨index, kind⟩ :: layersOf (index + 1) place rest
  | .head h _ :: rest => ⟨index, .head h.kind place⟩ :: layersOf (index + 1) (place + 1) rest

/-- The heads of the readings, each with the number of its block. -/
def headsOf (block : Nat) : List Reading → List (Head × Nat)
  | [] => []
  | .layer _ :: rest => headsOf (block + 1) rest
  | .head h _ :: rest => (h, block) :: headsOf (block + 1) rest

/-- Some head emits activated values. -/
def anyActivated (readings : List Reading) : Bool :=
  readings.any fun
    | .layer _ => false
    | .head _ activated => activated

/-- The blueprint of a list of blocks. All heads must agree on the number of classes. -/
def ofBlocks (blocks : List Block) (name : String) : Outcome Blueprint :=
  match blocks with
  | [] => .error (Block.malformed 0 "cfg contains no blocks")
  | first :: rest => do
    if first.kind != "net" && first.kind != "network" then
      throw (Block.malformed first.line s!"first block must be [net], found [{first.kind}]")
    let input ← readInput ⟨first, 0⟩
    let readings ← readLayers 0 rest
    let heads := headsOf 1 readings
    let classes := ((heads.head?).map (·.1.classes)).getD 0
    match heads.find? (·.1.classes != classes) with
    | some (odd, block) =>
      throw (.ofDefect (.invalidField block odd.kind.name "classes" (toString odd.classes)))
    | none =>
      return {
        name, input, classes
        layers := layersOf 0 0 readings
        heads := heads.map (·.1)
        activatedHeads := anyActivated readings }

end Blueprint

end GridNet
