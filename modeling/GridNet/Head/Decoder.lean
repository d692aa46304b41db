import GridNet.Head.Cell
import GridNet.Tensor.Basic
import GridNet.Tensor.Shape

/-!
# The decode node

All detection heads of a network are decoded into three tensors: boxes, scores and classes, with one
row for each box of each cell. Heads follow each other; within a head the boxes do, within a box the
rows of cells, within a row the cells.

* `HeadDecoder.outputShapes` — the check of the head tensors against the heads.
* `HeadDecoder.decode` — the three tensors.
-/

namespace GridNet

/-- The parameters of a **decode node**. -/
structure HeadDecoder where
  /-- the width of the network input -/
  width : Nat
  /-- the height of the network input -/
  height : Nat
  classes : Nat
  /-- the heads emit activated values -/
  activated : Bool
  heads : List Head
  /-- the rows of all heads together -/
  rows : Nat
deriving DecidableEq

/-- The three results of a decode node. -/
structure DecodedHeads where
  boxes : Tensor
  scores : Tensor
  classes : Tensor

namespace HeadDecoder

/-- The rows of some heads. -/
def rowsOf (heads : List Head) : Nat := (heads.map Head.rows).foldr (· + ·) 0

/-- The rows of some heads, counted. -/
def countRows (heads : List Head) : Outcome Nat :=
  heads.foldlM (fun n h => do Word.add n (← h.countRows)) 0

/-- A decode node for the given heads. -/
def ofHeads (width height classes : Nat) (activated : Bool) (heads : List Head) : HeadDecoder :=
  { width, height, classes, activated, heads, rows := rowsOf heads }

/-- The decode node for the given heads, if their rows can be counted. -/
def make (width height classes : Nat) (activated : Bool) (heads : List Head) :
    Outcome HeadDecoder := do
  let _ ← countRows heads
  return ofHeads width height classes activated heads

/-- Checks each head's tensor and returns the common batch size. -/
def checkHeads : (batch : Option Nat) → List (Head × Shape) → Outcome Nat
  | batch, [] => .ok (batch.getD 1)
  | batch, (head, shape) :: rest => do
    let s ← shape.nchw
    let channels ← head.countChannels
    ensure (s.channels = channels && s.height = head.gridHeight && s.width = head.gridWidth)
      (s!"head {head.name} expects {channels}x{head.gridHeight}x{head.gridWidth} " ++
        s!"but got {shape.text}")
    match batch with
    | none => pure ()
    | some b => ensure (b = s.batch) s!"head batch sizes differ ({b} vs {s.batch})"
    checkHeads (some s.batch) rest

/-- The shapes of boxes, scores and classes for head tensors of the given shapes. -/
def outputShapes (d : HeadDecoder) (inputs : List Shape) : Outcome (List Shape) := do
  ensure (inputs.length = d.heads.length)
    s!"decode node expects {d.heads.length} head inputs (got {inputs.length})"
  ensure (!inputs.isEmpty) "decode node needs at least one head"
  let batch ← checkHeads none (d.heads.zip inputs)
  let rows ← countRows d.heads
  ensure (rows = d.rows)
    s!"decode node output size {d.rows} does not match {rows} head rows"
  let boxes ← Shape.ofDims [batch, rows, 4]
  let scores ← Shape.ofDims [batch, rows, 1]
  return [boxes, scores, scores]

/-- What the head tensor says about box `slot` of the cell in column `x` and row `y`. -/
def cell (d : HeadDecoder) (t : Tensor) (b slot y x : Nat) : Cell :=
  let value := fun k => t.get [b, slot * (5 + d.classes) + k, y, x]
  { x := value 0
    y := value 1
    width := value 2
    height := value 3
    objectness := value 4
    classes := (List.range d.classes).map fun c => value (5 + c) }

/-- The scale of a cell. -/
def frame (d : HeadDecoder) (h : Head) (anchor : Scalar × Scalar) (y x : Nat) : CellFrame :=
  { column := x
    row := y
    cellWidth := .ofNat d.width / .ofNat h.gridWidth
    cellHeight := .ofNat d.height / .ofNat h.gridHeight
    anchorWidth := anchor.1
    anchorHeight := anchor.2
    centreScale := h.centreScale }

/-- The cells of a grid, row by row. -/
def gridCells (h : Head) : List (Nat × Nat) :=
  (List.range h.gridHeight).flatMap fun y => (List.range h.gridWidth).map fun x => (y, x)

/-- Writes the rows of one box of all cells, from row `offset` on. There has to be an anchor, the
tensor has to have all channels of the box, and the image has to have all the rows. -/
def decodeSlot (d : HeadDecoder) (h : Head) (t : Tensor) (b offset slot : Nat)
    (table : Array DecodedRow) : Outcome (Array DecodedRow) :=
  match h.anchor slot with
  | none => do
    -- an anchor that is not there may have a position that cannot be counted
    let _ ← Word.mul 2 ((h.anchorIndex slot).getD 0)
    .error (.note s!"{h.name}: no anchor for box {slot}")
  | some anchor =>
    if t.extent 1 < (slot + 1) * (5 + d.classes) ||
        (b + 1) * d.rows < offset + (slot + 1) * h.gridWidth * h.gridHeight then
      .error .brokenDown
    else
      .ok <| (gridCells h).foldl
        (fun table (y, x) =>
          table.setIfInBounds
            (offset + slot * h.gridWidth * h.gridHeight + y * h.gridWidth + x)
            (Cell.decode h.kind d.activated (d.frame h anchor y x) (d.cell t b slot y x)))
        table

/-- Writes the rows of the given heads for one image, the first head's from row `offset` on. The
channels of a box are counted. -/
def decodeHeads (d : HeadDecoder) (b : Nat) :
    (offset : Nat) → List (Head × Tensor) → Array DecodedRow → Outcome (Array DecodedRow)
  | _, [], table => .ok table
  | offset, (h, t) :: rest, table => do
    let _ ← Word.add 5 d.classes
    let table ← (List.range h.boxes).foldlM
      (fun table slot => d.decodeSlot h t b offset slot table) table
    decodeHeads d b (offset + h.rows) rest table

/-- Writes the rows of all heads for each image of the batch; image `b` starts at row `b * rows`. -/
def decodeBatch (d : HeadDecoder) (batch : Nat) (inputs : List Tensor) :
    Outcome (Array DecodedRow) :=
  (List.range batch).foldlM
    (fun table b => d.decodeHeads b (b * d.rows) (d.heads.zip inputs) table)
    (Array.replicate (batch * d.rows) .zero)

/-- One of the four numbers of a box. -/
def boxPart (r : DecodedRow) : Nat → Scalar
  | 0 => r.centreX
  | 1 => r.centreY
  | 2 => r.width
  | _ => r.height

/-- Decodes the head tensors. -/
def decode (d : HeadDecoder) (inputs : List Tensor) : Outcome DecodedHeads := do
  let shapes ← inputs.mapM fun t => Shape.ofDims t.dims
  let _ ← d.outputShapes shapes
  let batch := ((inputs.head?).map (·.extent 0)).getD 1
  let table ← d.decodeBatch batch inputs
  let row := fun i => (table[i]?).getD .zero
  return {
    boxes := .ofFn [batch, d.rows, 4] fun i => boxPart (row (i / 4)) (i % 4)
    scores := .ofFn [batch, d.rows, 1] fun i => (row i).score
    classes := .ofFn [batch, d.rows, 1] fun i => (row i).label }

end HeadDecoder

end GridNet
