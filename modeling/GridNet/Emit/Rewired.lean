import GridNet.Emit.Activation

/-!
# Emitting layers without weights

Layers that combine, move or summarise what other layers made.

* `Emit.shortcut`, `Emit.sam` — a sum or product with another layer.
* `Emit.route` — other layers laid end to end, and a part of their channels.
* `Emit.upsample`, `Emit.maxPool`, `Emit.averagePool` — a change of resolution.
* `Emit.reorg3d`, `Emit.reorg` — positions turned into channels.
-/

namespace GridNet.Emit

/-! ## Combining -/

/-- The sum with another layer, which is cropped at the origin if its shape is not the input's. -/
def shortcut (input source : TensorId) (a : Activation) : Emit TensorId := do
  let current ← shapeOf input
  let other ← shapeOf source
  let cropped ←
    if current = other then pure source
    else
      record (·.addSlice source
        { start := List.replicate current.rank 0
          size := current.dims
          stride := List.replicate current.rank 1 })
  activation (← sum cropped input) a

/-- The product with another layer. -/
def sam (input attention : TensorId) (a : Activation) : Emit TensorId := do
  activation (← product input attention) a

/-! ## Routing -/

/-- The axis of a route: descriptions do not count the batch, and count backwards below zero. -/
def routeAxis (axis : Int) (rank block : Nat) : Outcome Nat := do
  let resolved := if axis < 0 then rank + axis else axis + 1
  demand (resolved < Word.signedModulus)
  ensure (1 ≤ resolved && resolved < rank)
    s!"block {block}: route axis {axis} is out of range for rank {rank}"
  return resolved.toNat

/-- Keeps one part of the channels. -/
def channelPart (routed : TensorId) (g : ChannelGroup) (block : Nat) : Emit TensorId := do
  let s ← nchw routed
  let divisible ← divides g.groups s.channels
  lift <| ensure divisible
    s!"block {block}: {s.channels} routed channels cannot be split into {g.groups} groups"
  let size := s.channels / g.groups
  let start ← lift (Word.mul g.part size)
  record (·.addSlice routed
    { start := [0, start, 0, 0]
      size := [s.batch, size, s.height, s.width]
      stride := [1, 1, 1, 1] })

/-- Several layers laid end to end; a single one is passed on as it is. -/
def route (sources : List TensorId) (axis : Int) (group : Option ChannelGroup) (block : Nat) :
    Emit TensorId := do
  match sources with
  | [] => lift (.error (.note s!"block {block}: route has no sources"))
  | first :: rest =>
    let routed ←
      if rest.isEmpty then pure first
      else do
        let rank := (← shapeOf first).rank
        let resolved ← lift (routeAxis axis rank block)
        record (·.addConcat sources resolved)
    match group with
    | none => pure routed
    | some g => channelPart routed g block

/-! ## Resolution -/

/-- Every pixel repeated `stride` times in both directions. -/
def upsample (input : TensorId) (stride : Nat) : Emit TensorId :=
  record (·.addResize input [.one, .one, .ofNat stride, .ofNat stride])

/-- The padding of a square maximum, in front and behind: half of what the window adds, but behind
only for a window of 2 at stride 1, which keeps the extent. -/
def maxPoolPadding (size stride : Nat) : Outcome (Pair × Pair) :=
  if size = 2 ∧ stride = 1 then return (⟨0, 0⟩, ⟨1, 1⟩)
  else do
    let pad := (← Word.sub size 1) / 2
    return (⟨pad, pad⟩, ⟨pad, pad⟩)

/-- The maximum over square windows. -/
def maxPool (input : TensorId) (size stride : Nat) : Emit TensorId := do
  let (before, after) ← lift (maxPoolPadding size stride)
  record (·.addPool input
    { kind := .max, window := ⟨size, size⟩, stride := ⟨stride, stride⟩, before, after })

/-- The mean of each channel. -/
def averagePool (input : TensorId) : Emit TensorId := do
  let s ← nchw input
  record (·.addPool input
    { kind := .average, window := ⟨s.height, s.width⟩, stride := ⟨1, 1⟩,
      before := ⟨0, 0⟩, after := ⟨0, 0⟩ })

/-! ## Positions into channels -/

/-- The four phases of a grid of pairs, rows first. -/
def phases : List (Nat × Nat) := [(0, 0), (1, 0), (0, 1), (1, 1)]

/-- Every second row and column, four times, laid end to end along the channels. -/
def reorg3d (input : TensorId) (block : Nat) : Emit TensorId := do
  let s ← nchw input
  lift <| ensure (s.height % 2 = 0 && s.width % 2 = 0)
    s!"block {block}: reorg3d needs even spatial dims (got {s.height}x{s.width})"
  let parts ← phases.mapM fun (row, column) =>
    record (·.addSlice input
      { start := [0, 0, row, column]
        size := [s.batch, s.channels, s.height / 2, s.width / 2]
        stride := [1, 1, 2, 2] })
  record (·.addConcat parts 1)

/-- Blocks of `stride` by `stride` positions turned into channels. The data is read with
fewer channels and more positions than it has, and the steps within a block become the
slowest channels. -/
def reorg (input : TensorId) (stride block : Nat) : Emit TensorId := do
  let s ← nchw input
  let area ← lift (Word.mul stride stride)
  let divisible ← divides area s.channels
  lift <| ensure (divisible && s.height % stride = 0 && s.width % stride = 0)
    (s!"block {block}: reorg stride {stride} does not divide " ++
      s!"{s.channels}x{s.height}x{s.width}")
  let viewed ← record
    (·.addReshape input [s.batch, s.channels / area, s.height, stride, s.width, stride])
  let moved ← record (·.addTranspose viewed [0, 3, 5, 1, 2, 4])
  let channels ← lift (Word.product s.channels [stride, stride])
  record (·.addReshape moved [s.batch, channels, s.height / stride, s.width / stride])

end GridNet.Emit
