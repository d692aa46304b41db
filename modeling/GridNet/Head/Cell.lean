import GridNet.Cfg.Layer
import GridNet.Scalar.Elementary

/-!
# Decoding one cell

A cell of a detection head holds, for each of its boxes, a centre, a size, an objectness
and one value for each class. Decoding turns them into a box in pixels of the network
input, a score and a class.

* `Cell.argmax` — the first class with the largest positive probability; class 0 if there is none.
* `Cell.decode` — by the kind of the head.
-/

namespace GridNet

/-- One **row** of the decoded output. -/
structure DecodedRow where
  /-- the centre of the box -/
  centreX : Scalar
  centreY : Scalar
  width : Scalar
  height : Scalar
  score : Scalar
  /-- the number of the class, as a scalar -/
  label : Scalar
deriving DecidableEq

/-- A row that nothing was written to. -/
def DecodedRow.zero : DecodedRow := ⟨.zero, .zero, .zero, .zero, .zero, .zero⟩

/-- What a head says about **one box of one cell**. -/
structure Cell where
  x : Scalar
  y : Scalar
  width : Scalar
  height : Scalar
  objectness : Scalar
  classes : List Scalar

/-- Where a cell lies and how it is scaled. -/
structure CellFrame where
  /-- the column of the cell -/
  column : Nat
  /-- the row of the cell -/
  row : Nat
  /-- pixels in a cell's width -/
  cellWidth : Scalar
  /-- pixels in a cell's height -/
  cellHeight : Scalar
  anchorWidth : Scalar
  anchorHeight : Scalar
  /-- how far a centre may leave its cell -/
  centreScale : Scalar

namespace Cell

/-- The logistic function. -/
def sigmoid (x : Scalar) : Scalar := .one / (.one + (-x).exp)

/-- Exponentials divided by their sum, all taken relative to the largest value. -/
def softmax (values : List Scalar) : List Scalar :=
  let largest := values.foldl Scalar.max (.infinity true)
  let powers := values.map fun v => (v - largest).exp
  let sum := powers.foldl (· + ·) .zero
  if Scalar.zero.lt sum then powers.map (· / sum) else powers

/-- The later of two candidates if its value is larger. -/
def better (best next : Nat × Scalar) : Nat × Scalar :=
  if best.2.lt next.2 then next else best

/-- The first place of the largest value above zero, with that value; place 0 and zero if there is
none. -/
def argmax (values : List Scalar) : Nat × Scalar :=
  ((List.range values.length).zip values).foldl better (0, .zero)

/-- The square of twice a number. -/
def doubledSquare (x : Scalar) : Scalar := (.two * x) * (.two * x)

/-- What moves a scaled centre back to the middle of its range. -/
def recentre (centreScale : Scalar) : Scalar := -Scalar.half * (centreScale - .one)

/-- Decodes a box whose values are activated already. -/
def decodeActivated (f : CellFrame) (c : Cell) : DecodedRow :=
  let shift := recentre f.centreScale
  let (label, probability) := argmax c.classes
  { centreX := (c.x * f.centreScale + shift + .ofNat f.column) * f.cellWidth
    centreY := (c.y * f.centreScale + shift + .ofNat f.row) * f.cellHeight
    width := doubledSquare c.width * f.anchorWidth
    height := doubledSquare c.height * f.anchorHeight
    score := c.objectness * probability
    label := .ofNat label }

/-- Decodes a box with independent class probabilities. -/
def decodeYolo (f : CellFrame) (c : Cell) : DecodedRow :=
  let shift := recentre f.centreScale
  let (label, probability) := argmax (c.classes.map sigmoid)
  { centreX := (sigmoid c.x * f.centreScale + shift + .ofNat f.column) * f.cellWidth
    centreY := (sigmoid c.y * f.centreScale + shift + .ofNat f.row) * f.cellHeight
    width := c.width.exp * f.anchorWidth
    height := c.height.exp * f.anchorHeight
    score := sigmoid c.objectness * probability
    label := .ofNat label }

/-- Decodes a box with class probabilities that sum to one; its anchor is measured in cells. -/
def decodeRegion (f : CellFrame) (c : Cell) : DecodedRow :=
  let (label, probability) := argmax (softmax c.classes)
  { centreX := (sigmoid c.x + .ofNat f.column) * f.cellWidth
    centreY := (sigmoid c.y + .ofNat f.row) * f.cellHeight
    width := c.width.exp * f.anchorWidth * f.cellWidth
    height := c.height.exp * f.anchorHeight * f.cellHeight
    score := sigmoid c.objectness * probability
    label := .ofNat label }

/-- Decodes a box by the kind of its head. -/
def decode (kind : HeadKind) (activated : Bool) (f : CellFrame) (c : Cell) : DecodedRow :=
  match kind with
  | .yolo => if activated then decodeActivated f c else decodeYolo f c
  | .region => decodeRegion f c

end Cell

end GridNet
