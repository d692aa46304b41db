import GridNet.Failure
import GridNet.Picture.Basic
import GridNet.Tensor.Shape
import GridNet.Tensor.Basic
import GridNet.Text.Blank

/-!
# Detection candidates

The decoded rows of one image become candidates: rows with a class, a score that reaches the
threshold of the class, and a box of at least one pixel after it was cut to the network's input.
Nothing is sorted, merged or suppressed.

* `RawRow.ofOutputs` — the rows of one image among the outputs of a batch.
* `Candidate.ofRow` — one row; `Candidate.ofRows` keeps the order of the rows.
-/

namespace GridNet

/-- How the **four numbers of a box** are to be read. -/
inductive BoxFormat
  /-- centre and size -/
  | center
  /-- two opposite corners -/
  | corner
deriving DecidableEq

namespace BoxFormat

/-- The name of a format. -/
def name : BoxFormat → String
  | center => "center"
  | corner => "corner"

/-- Reads a name, in any case of letters and with blanks around it. -/
def read (text : String) : Except String BoxFormat :=
  match Text.lower (Text.trim text) with
  | "center" | "centre" => .ok center
  | "corner" | "corners" => .ok corner
  | other => .error s!"invalid box format '{other}'; expected 'center' or 'corner'"

end BoxFormat

/-- The least **score** that a class needs. -/
structure Thresholds where
  /-- for classes without an entry of their own -/
  fallback : Scalar
  perClass : List Scalar := []
deriving DecidableEq

/-- One threshold for all classes. -/
def Thresholds.uniform (threshold : Scalar) : Thresholds := { fallback := threshold }

/-- The usual threshold. -/
def Thresholds.usual : Thresholds := uniform (.ratio 1 4)

/-- The threshold of a class. -/
def Thresholds.of (t : Thresholds) (classId : Nat) : Scalar :=
  (t.perClass[classId]?).getD t.fallback

/-- One **row of the outputs**, not yet read as a box. -/
structure RawRow where
  /-- the numbers of the box, in order -/
  first : Scalar
  second : Scalar
  third : Scalar
  fourth : Scalar
  score : Scalar
  /-- the number of the class, as a scalar -/
  label : Scalar
deriving DecidableEq

namespace RawRow

/-- The number of rows of an output with rows of the given width, if it holds image `index`. -/
def rowCount (t : Tensor) (index width : Nat) (name : String) : Outcome Nat :=
  match t.dims with
  | [images, rows, w] =>
    if w = width ∧ index < images then .ok rows else .error (mismatch t)
  | _ => .error (mismatch t)
where
  /-- the failure of an output that does not hold the image -/
  mismatch (t : Tensor) : Failure :=
    .note s!"output '{name}' has shape {dimsText t.dims}; expected [B > {index}, N, {width}]"

/-- The rows of image `index` in the outputs of a batch. -/
def ofOutputs (boxes scores classes : Tensor) (index : Nat) : Outcome (List RawRow) := do
  let rows ← rowCount boxes index 4 "boxes"
  let scoreRows ← rowCount scores index 1 "scores"
  let classRows ← rowCount classes index 1 "classes"
  ensure (scoreRows = rows && classRows = rows)
    (s!"output row counts differ (boxes {rows}, scores {scoreRows}, " ++
      s!"classes {classRows})")
  return (List.range rows).map fun row =>
    let k := index * rows + row
    { first := boxes.item (4 * k)
      second := boxes.item (4 * k + 1)
      third := boxes.item (4 * k + 2)
      fourth := boxes.item (4 * k + 3)
      score := scores.item k
      label := classes.item k }

end RawRow

/-- A **candidate**: a box in pixels, with its class and score. -/
structure Candidate where
  left : Scalar
  top : Scalar
  width : Scalar
  height : Scalar
  classId : Nat
  confidence : Scalar
deriving DecidableEq

/-- Two opposite corners of a box. -/
structure Corners where
  left : Scalar
  top : Scalar
  right : Scalar
  bottom : Scalar
deriving DecidableEq

/-- The corners of a row's box. -/
def RawRow.corners (format : BoxFormat) (r : RawRow) : Corners :=
  match format with
  | .center =>
    { left := r.first - r.third / .two
      top := r.second - r.fourth / .two
      right := r.first + r.third / .two
      bottom := r.second + r.fourth / .two }
  | .corner => { left := r.first, top := r.second, right := r.third, bottom := r.fourth }

/-- The corners cut to an extent. -/
def Corners.clamp (c : Corners) (extent : Size) : Corners :=
  let width := Scalar.ofNat extent.width
  let height := Scalar.ofNat extent.height
  { left := c.left.clamp .zero width
    top := c.top.clamp .zero height
    right := c.right.clamp .zero width
    bottom := c.bottom.clamp .zero height }

namespace Candidate

/-- The class of a row: a number from zero on, its fraction dropped. -/
def classOf (label : Scalar) : Option Nat :=
  if label.isFinite && !label.lt .zero then
    some (label.toNatWithin (Word.modulus - 1))
  else none

/-- The candidate of a row, if it is one. -/
def ofRow (thresholds : Thresholds) (extent : Size) (format : BoxFormat) (r : RawRow) :
    Option Candidate := do
  let classId ← classOf r.label
  if !r.score.isFinite || r.score.lt (thresholds.of classId) then none
  let c := (r.corners format).clamp extent
  let width := c.right - c.left
  let height := c.bottom - c.top
  if Scalar.one.le width && Scalar.one.le height then
    return { left := c.left, top := c.top, width, height, classId, confidence := r.score }
  else none

/-- The candidates among some rows, in order. -/
def ofRows (thresholds : Thresholds) (extent : Size) (format : BoxFormat) (rows : List RawRow) :
    List Candidate :=
  rows.filterMap (ofRow thresholds extent format)

end Candidate

end GridNet
