import GridNet.Cfg.Blueprint
import GridNet.Emit.Rewired
import GridNet.Emit.Weighted
import GridNet.Model.LayerOutputs

/-!
# Building a network

One pass over the layers of a blueprint. Each layer reads what the one in front of it made, or what
its references name, and leaves one tensor behind. At the end all weights have to be used up; the
detection heads become the inputs of one decode node, and a network without heads returns its last
tensor.

* `Build.layer` — one layer.
* `Build.network` — the whole network in a draft.
* `BuiltNetwork` — what is known about the result.
-/

namespace GridNet

/-- The name of the network's input. -/
def inputName : String := "data"

/-- The names of the decoded outputs. -/
def decodedNames : List String := ["boxes", "scores", "classes"]

/-- The name of the output of a network without heads. -/
def featureName : String := "output"

/-- One row of the **table of layers**. -/
structure LayerRow where
  index : Nat
  label : String
  /-- extents of what the layer reads -/
  input : List Nat
  /-- extents of what it makes -/
  output : List Nat
  /-- how many weights have been taken up to here -/
  weightsTaken : Nat
deriving DecidableEq

/-- The tensors that a network returns. -/
inductive NetworkOutputs
  | decoded (boxes scores classes : TensorId)
  | features (t : TensorId)
deriving DecidableEq

/-- What is known about a **finished network**. -/
structure BuiltNetwork where
  input : TensorId
  /-- the heads, with the extents of their grids -/
  heads : List Head
  headTensors : List TensorId
  outputs : NetworkOutputs
  table : List LayerRow
  weightsTaken : Nat
deriving DecidableEq

/-- The rows of the decoded output. -/
def BuiltNetwork.outputRows (b : BuiltNetwork) : Nat := HeadDecoder.rowsOf b.heads

/-- The network has detection heads to decode. -/
def BuiltNetwork.isDecoded (b : BuiltNetwork) : Bool :=
  match b.outputs with
  | .decoded .. => true
  | .features _ => false

/-- The state of a **pass over the layers**. -/
structure Progress where
  /-- what the layers so far made -/
  outputs : LayerOutputs := .empty
  /-- what the next layer reads -/
  previous : TensorId
  /-- the heads; the extents of a grid are filled in when its layer is reached -/
  heads : List Head
  /-- what the heads so far read -/
  headTensors : List TensorId := []
  /-- the table so far -/
  table : List LayerRow := []

namespace Build

/-- The layer at the given place is an implicit one. -/
def isImplicit (layers : List Layer) (index : Nat) : Bool :=
  match layers[index]? with
  | some ⟨_, .implicit _⟩ => true
  | _ => false

/-- Looks a reference up that has to name an implicit layer. -/
def lookupImplicit (layers : List Layer) (outputs : LayerOutputs) (kind : LayerKind)
    (reference : Int) (block : Nat) : Outcome (Nat × TensorId) := do
  let (index, t) ← outputs.lookup reference block
  if isImplicit layers index then return (index, t)
  else
    inContext "the referenced layer must be an implicit block"
      (.error (.ofDefect (.invalidField block kind.name "from" (toString reference))))

/-- Emits a layer that is no head. Returns its label and its tensor. -/
def layer (layers : List Layer) (p : Progress) (l : Layer) : Emit (String × TensorId) := do
  let input := p.previous
  let block := l.block
  let convolved (c : Convolution) (transposed : Bool) : Emit (String × TensorId) := do
    let t ← Emit.convolution input c transposed block
    let normalized := if c.normalized then "_bn" else ""
    return (s!"{l.kind.name}{normalized}_{c.activation.name}", t)
  match l.kind with
  | .convolution c => convolved c false
  | .deconvolution c => convolved c true
  | .normalization a =>
    return (s!"batchnorm_{a.name}", ← Emit.normalization input a block)
  | .implicit filters => return (s!"implicit: {filters}", ← Emit.implicit filters block)
  | .shiftChannels source =>
    let (index, t) ← Emit.lift (lookupImplicit layers p.outputs l.kind source block)
    return (s!"{l.kind.name}: {index}", ← Emit.sum input t)
  | .controlChannels source =>
    let (index, t) ← Emit.lift (lookupImplicit layers p.outputs l.kind source block)
    return (s!"{l.kind.name}: {index}", ← Emit.product input t)
  | .shortcut source a =>
    let (index, t) ← Emit.lift (p.outputs.lookup source block)
    return (s!"shortcut_{a.name}: {index}", ← Emit.shortcut input t a)
  | .sam source a =>
    let (index, t) ← Emit.lift (p.outputs.lookup source block)
    return (s!"sam_{a.name}: {index}", ← Emit.sam input t a)
  | .route sources axis group =>
    let found ← Emit.lift (sources.mapM fun source => p.outputs.lookup source block)
    let names := ",".intercalate (found.map fun (index, _) => toString index)
    return (s!"route: {names}", ← Emit.route (found.map (·.2)) axis group block)
  | .upsample stride => return (s!"upsample: {stride}", ← Emit.upsample input stride)
  | .maxPool size stride =>
    return (s!"maxpool: {size}x{size}/{stride}", ← Emit.maxPool input size stride)
  | .averagePool => return ("avgpool", ← Emit.averagePool input)
  | .reorg3d => return ("reorg3d", ← Emit.reorg3d input block)
  | .reorg stride => return (s!"reorg: {stride}", ← Emit.reorg input stride block)
  | .head kind _ => return (kind.name, input)
  | .dropout => return ("dropout", input)

/-- How many weights have been taken. -/
def weightsTaken : Emit Nat := fun d => .ok d.cursor.position d

/-- Checks that the tensor in front of a head has the channels that the head reads, and fills the
extents of its grid in. -/
def placeHead (heads : List Head) (kind : HeadKind) (place block : Nat) (s : Shape.Nchw) :
    Outcome (List Head) :=
  match heads[place]? with
  | none => .error (.note s!"block {block}: missing head template {place}")
  | some h => do
    let channels ← h.countChannels
    ensure (s.channels = channels)
      (s!"block {block}: {kind.name} head expects {channels} channels " ++
        s!"({h.boxes} boxes x (5 + {h.classes} classes)) but got {s.channels}")
    return heads.set place { h with gridWidth := s.width, gridHeight := s.height }

/-- One step of the pass. -/
def step (layers : List Layer) (p : Progress) (l : Layer) : Emit Progress := do
  let inputShape ← Emit.shapeOf p.previous
  match l.kind with
  | .head kind place =>
    let s ← Emit.lift inputShape.nchw
    let heads ← Emit.lift (placeHead p.heads kind place l.block s)
    let taken ← weightsTaken
    return {
      outputs := p.outputs.push p.previous
      previous := p.previous
      heads
      headTensors := p.headTensors ++ [p.previous]
      table := p.table ++ [⟨l.index, kind.name, inputShape.dims, inputShape.dims, taken⟩] }
  | _ =>
    let (label, t) ← layer layers p l
    let outputShape ← Emit.shapeOf t
    let taken ← weightsTaken
    return { p with
      outputs := p.outputs.push t
      previous := t
      table := p.table ++ [⟨l.index, label, inputShape.dims, outputShape.dims, taken⟩] }

/-- The pass over some layers. -/
def pass (all : List Layer) (p : Progress) : List Layer → Emit Progress
  | [] => pure p
  | l :: rest => do pass all (← step all p l) rest

/-- Gives the results of a decode node their names. -/
def markDecoded (outputs : List TensorId) : Emit NetworkOutputs :=
  match outputs with
  | [boxes, scores, classes] => do
    (outputs.zip decodedNames).forM fun (t, name) =>
      Emit.record fun g => (g.markOutput t name).map (·, ())
    return .decoded boxes scores classes
  | _ =>
    Emit.lift (.error (.note s!"decode node returned {outputs.length} outputs, expected 3"))

/-- Names the outputs of a network after the pass. -/
def finish (b : Blueprint) (p : Progress) : Emit NetworkOutputs := do
  if p.headTensors.isEmpty then
    Emit.record fun g => (g.markOutput p.previous featureName).map (·, ())
    return .features p.previous
  else
    let decoder ← Emit.lift <|
      HeadDecoder.make b.input.width b.input.height b.classes b.activatedHeads p.heads
    markDecoded (← Emit.record (·.addDecode p.headTensors decoder))

/-- Declares the input and passes over all layers. -/
def body (b : Blueprint) : Emit (TensorId × Progress) := do
  let shape ← Emit.lift
    (Shape.ofDims [b.input.batch, b.input.channels, b.input.height, b.input.width])
  let input ← Emit.record (·.addInput inputName shape)
  return (input, ← pass b.layers { previous := input, heads := b.heads } b.layers)

/-- Confirms that all weights are used up. -/
def confirmWeights : Emit Unit := fun d => Emit.lift d.cursor.finish d

/-- Names the outputs and sums up what has been built. -/
def close (b : Blueprint) (input : TensorId) (p : Progress) : Emit BuiltNetwork := do
  let found := p.headTensors.length
  if found ≠ b.headLayerCount then
    throw (.ofDefect (.headCount b.headLayerCount found))
  let outputs ← finish b p
  let taken ← weightsTaken
  return {
    input, outputs
    heads := p.heads
    headTensors := p.headTensors
    table := p.table
    weightsTaken := taken }

/-- Builds the network of a blueprint. -/
def network (b : Blueprint) : Emit BuiltNetwork := do
  let (input, p) ← body b
  confirmWeights
  close b input p

end Build

end GridNet
