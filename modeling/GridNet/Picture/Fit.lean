import GridNet.Failure
import GridNet.Picture.Resample

/-!
# Fitting pictures into an extent

Three ways to bring a picture to an extent with other proportions: stretch it, cover the extent and
crop the centre, or shrink it into the extent and pad with black.

* `coverSize`, `containSize` — the scaled extents of the last two.
* `Picture.stretch`, `Picture.centerCrop`, `Picture.letterbox` — the pictures.
-/

namespace GridNet

/-- The largest extent of a side. -/
def sideLimit : Nat := Word.modulus32 - 1

/-- A side scaled by a factor and rounded to whole pixels. -/
def scaledSide (side : Nat) (factor : Scalar) : Nat :=
  Scalar.toNatWithin sideLimit (Scalar.nearest (Scalar.ofNat side * factor))

/-- The factor at which a picture just covers a target. -/
def coverFactor (source target : Size) : Scalar :=
  (Scalar.ratio target.width source.width).max (Scalar.ratio target.height source.height)

/-- The extent of a picture scaled to cover a target, never below it. -/
def coverSize (source target : Size) : Size :=
  let factor := coverFactor source target
  { width := Nat.max (scaledSide source.width factor) target.width
    height := Nat.max (scaledSide source.height factor) target.height }

/-- The factor at which a picture just fits into a target. -/
def containFactor (source target : Size) : Scalar :=
  (Scalar.ratio target.width source.width).min (Scalar.ratio target.height source.height)

/-- The extent of a picture scaled to fit into a target: at least one pixel, at most the target. -/
def containSize (source target : Size) : Size :=
  let factor := containFactor source target
  { width := Nat.min (Nat.max (scaledSide source.width factor) 1) target.width
    height := Nat.min (Nat.max (scaledSide source.height factor) 1) target.height }

/-- Half of what an outer extent leaves on each axis, rounded down. -/
def margin (outer inner : Size) : Size :=
  { width := (outer.width - inner.width) / 2
    height := (outer.height - inner.height) / 2 }

namespace Picture

/-- The picture stretched to an extent. -/
def stretch (filter : ResampleFilter) (target : Size) (p : Picture) : Picture :=
  (p.resample filter target).toRgb

/-- The part of a picture that starts at a corner. -/
def crop (corner target : Size) (p : Picture) : Picture :=
  ofFn p.mode p.depth target fun x y c => p.sample (corner.width + x) (corner.height + y) c

/-- The centre of the picture scaled to cover an extent. -/
def centerCrop (filter : ResampleFilter) (target : Size) (p : Picture) : Picture :=
  if p.size = target then p
  else
    let scaled := coverSize p.size target
    (p.resample filter scaled).crop (margin scaled target) target

/-- A picture on a black canvas, with its corner at the given place. -/
def paste (corner canvas : Size) (p : Picture) : Picture :=
  ofFn p.mode p.depth canvas fun x y c =>
    if corner.width ≤ x ∧ x - corner.width < p.size.width ∧
        corner.height ≤ y ∧ y - corner.height < p.size.height then
      p.sample (x - corner.width) (y - corner.height) c
    else 0

end Picture

/-- Where a letterboxed picture stands in its canvas. -/
structure Letterbox where
  /-- canvas pixels for each pixel of the picture -/
  scale : Scalar
  /-- what is left to the left of the picture and above it -/
  pad : Size
deriving DecidableEq

/-- The point of the picture at a point of the canvas. -/
def Letterbox.toSource (l : Letterbox) (x y : Scalar) : Scalar × Scalar :=
  ((x - .ofNat l.pad.width) / l.scale, (y - .ofNat l.pad.height) / l.scale)

/-- The picture scaled into an extent and padded with black, with its place there. An extent with an
empty side has no room for the one pixel that is left at least. -/
def Picture.letterbox (filter : ResampleFilter) (target : Size) (p : Picture) :
    Outcome (Picture × Letterbox) :=
  if target.width = 0 ∨ target.height = 0 then .error .brokenDown
  else
    let scaled := containSize p.size target
    let pad := margin target scaled
    .ok ((p.resample filter scaled).paste pad target, { scale := containFactor p.size target, pad })

/-- Pixels of the source for each pixel of the target, on both axes. -/
def stretchScales (source target : Size) : Outcome (Scalar × Scalar) := do
  ensure (0 < target.width && 0 < target.height) "target dimensions must be non-zero"
  ensure (0 < source.width && 0 < source.height) "original dimensions must be non-zero"
  return (.ratio source.width target.width, .ratio source.height target.height)

end GridNet
