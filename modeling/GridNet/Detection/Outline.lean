import GridNet.Detection.Candidate
import GridNet.Files.Pictures

/-!
# Annotating pictures

Candidates are drawn onto a picture as outlines one pixel wide, in a color that goes with the class.

* `Outline.ofCandidate` — the outline of a candidate, inside the picture.
* `Picture.draw` — an outline drawn.
* `annotate` — a picture file copied into a directory, with its candidates drawn.
-/

namespace GridNet

/-- A **rectangle of pixels**. -/
structure Outline where
  left : Nat
  top : Nat
  width : Nat
  height : Nat
deriving DecidableEq

namespace Outline

/-- The largest position of an outline's corner. -/
def positionLimit : Nat := Word.modulus32 / 2 - 1

/-- The largest side of an outline. -/
def sideLimit : Nat := Word.modulus32 - 1

/-- Where a side starts, in whole pixels. -/
def position (x : Scalar) : Nat := Scalar.toNatWithin positionLimit x.nearest

/-- The length of a side, in whole pixels: at least one. -/
def side (first last : Scalar) : Nat :=
  Scalar.toNatWithin sideLimit ((last - first).max .one).nearest

/-- The outline of a candidate, cut to a picture of the given extent. -/
def ofCandidate (c : Candidate) (extent : Size) : Outline :=
  let right := Scalar.ofNat (extent.width - 1)
  let bottom := Scalar.ofNat (extent.height - 1)
  let x1 := c.left.clamp .zero right
  let y1 := c.top.clamp .zero bottom
  let x2 := (c.left + c.width).clamp .zero right
  let y2 := (c.top + c.height).clamp .zero bottom
  { left := position x1, top := position y1, width := side x1 x2, height := side y1 y2 }

/-- The pixel lies on the outline. -/
def covers (o : Outline) (x y : Nat) : Bool :=
  let right := o.left + o.width - 1
  let bottom := o.top + o.height - 1
  o.left ≤ x && x ≤ right && o.top ≤ y && y ≤ bottom &&
    (x = o.left || x = right || y = o.top || y = bottom)

end Outline

/-- The colors of classes, which repeat in turn. -/
def palette : List (List UInt16) :=
  [[255, 0, 0], [0, 200, 0], [0, 96, 255], [255, 180, 0], [200, 0, 200], [0, 200, 200]]

/-- The color of a class. -/
def classColor (classId : Nat) : List UInt16 := (palette[classId % palette.length]?).getD []

namespace Picture

/-- The picture with an outline in the given color. -/
def draw (o : Outline) (color : List UInt16) (p : Picture) : Picture :=
  ofFn p.mode p.depth p.size fun x y c =>
    if o.covers x y then (color[c]?).getD fullSample else p.sample x y c

/-- The picture with the outlines of candidates, the later ones on top. -/
def drawCandidates (candidates : List Candidate) (p : Picture) : Picture :=
  candidates.foldl
    (fun p c => p.draw (Outline.ofCandidate c p.size) (classColor c.classId)) p.toRgba

end Picture

/-- Draws candidates onto the picture in a file and writes it, under its own name, into a directory,
which is made if it is missing. Returns the path of the new file. -/
def annotate (path : String) (candidates : List Candidate) (directory : String) :
    FileAction String := do
  let picture ← FileAction.openPicture path
  FileAction.check (0 < picture.size.width && 0 < picture.size.height)
    s!"cannot annotate image with zero dimensions: {path}"
  let target := Path.join directory ((Path.fileName? path).getD "frame.png")
  let parent := Path.parent target
  (FileAction.makeDirectories parent).within s!"failed to create {parent}"
  (FileAction.savePicture target (picture.drawCandidates candidates)).within
    s!"failed to save annotated image {target}"
  return target

end GridNet
