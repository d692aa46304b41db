import GridNet.Cfg.Blueprint
import GridNet.Picture.Fit
import GridNet.Picture.Planar

/-!
# Preparing pictures

Pictures are fitted into the network's input, normalized and laid out in planes, one picture after
the other. Each also yields the map that takes a point of the input back to the picture.

* `InputFormat` — what the network wants to see.
* `CoordinateMap` — source point = input point * scale + offset.
* `PreparedBatch.ofPictures` — a batch; slots without a picture stay zero.
-/

namespace GridNet

/-- How a picture is brought to the extent of the input. -/
inductive FitMode
  /-- both axes on their own -/
  | stretch
  /-- in proportion, padded with black -/
  | letterbox
  /-- in proportion, cropped around the centre -/
  | centerCrop
deriving DecidableEq

/-- What the **input of a network** looks like. -/
structure InputFormat where
  size : Size := ⟨416, 416⟩
  /-- 1 for gray, 3 for color -/
  channels : Nat := 3
  normalization : Normalization := .unit
  fit : FitMode := .stretch
  filter : ResampleFilter := .triangle
deriving DecidableEq

/-- The input of a network as its description has it. Sides have 32 bits. -/
def InputFormat.ofGeometry (i : InputGeometry) : InputFormat :=
  { size := ⟨i.width % Word.modulus32, i.height % Word.modulus32⟩
    channels := i.channels
    fit := if i.letterbox then .letterbox else .stretch }

/-- The **map from input pixels to picture pixels**. -/
structure CoordinateMap where
  scaleX : Scalar
  scaleY : Scalar
  offsetX : Scalar
  offsetY : Scalar
  /-- the extent of the picture -/
  source : Size
deriving DecidableEq

namespace CoordinateMap

/-- The point of the picture at a point of the input. -/
def toSource (m : CoordinateMap) (x y : Scalar) : Scalar × Scalar :=
  (x * m.scaleX + m.offsetX, y * m.scaleY + m.offsetY)

/-- The map of a stretched picture. -/
def ofStretch (source target : Size) : CoordinateMap :=
  { scaleX := .ratio source.width target.width
    scaleY := .ratio source.height target.height
    offsetX := .zero
    offsetY := .zero
    source }

/-- The map of a letterboxed picture. -/
def ofLetterbox (source : Size) (l : Letterbox) : CoordinateMap :=
  let inverse := Scalar.one / l.scale
  { scaleX := inverse
    scaleY := inverse
    offsetX := -Scalar.ofNat l.pad.width * inverse
    offsetY := -Scalar.ofNat l.pad.height * inverse
    source }

/-- The map of a picture cropped around its centre. -/
def ofCenterCrop (source target : Size) : CoordinateMap :=
  let scaled := coverSize source target
  let corner := margin scaled target
  let scaleX := Scalar.ratio source.width scaled.width
  let scaleY := Scalar.ratio source.height scaled.height
  { scaleX, scaleY
    offsetX := .ofNat corner.width * scaleX
    offsetY := .ofNat corner.height * scaleY
    source }

end CoordinateMap

/-- The picture brought to the extent of the input, and its map. -/
def Picture.fit (p : Picture) (f : InputFormat) : Outcome (Picture × CoordinateMap) :=
  match f.fit with
  | .stretch => .ok (p.stretch f.filter f.size, .ofStretch p.size f.size)
  | .letterbox => do
    let (canvas, placement) ← p.toRgb.letterbox f.filter f.size
    return (canvas, .ofLetterbox p.size placement)
  | .centerCrop => .ok (p.toRgb.centerCrop f.filter f.size, .ofCenterCrop p.size f.size)

/-- The planes that the network sees: of the brightness if it has one channel, else of the
colors. -/
def Picture.inputPlanes (p : Picture) (channels : Nat) (n : Normalization) : Tensor :=
  if channels = 1 then p.toLuma.planes n else p.planes n

/-- A **batch of prepared pictures**. -/
structure PreparedBatch where
  /-- slots, channels, rows, columns -/
  tensor : Tensor
  /-- one for each picture -/
  maps : List CoordinateMap

namespace PreparedBatch

/-- Prepares one picture. -/
def prepareOne (f : InputFormat) (p : Picture) : Outcome (Tensor × CoordinateMap) := do
  ensure (0 < p.size.width && 0 < p.size.height) "image has zero size"
  let (fitted, map) ← p.fit f
  return (fitted.inputPlanes f.channels f.normalization, map)

/-- Some tensors of equal volume as the first slots of a batch. -/
def stack (batch : Nat) (f : InputFormat) (planes : Array Tensor) : Tensor :=
  let volume := f.channels * f.size.height * f.size.width
  .ofFn [batch, f.channels, f.size.height, f.size.width] fun i =>
    match planes[i / volume]? with
    | some t => t.item (i % volume)
    | none => .zero

/-- Prepares up to `batch` pictures. -/
def ofPictures (batch : Nat) (f : InputFormat) (pictures : List Picture) :
    Outcome PreparedBatch := do
  ensure (!pictures.isEmpty && pictures.length ≤ batch)
    s!"expected between 1 and {batch} images, got {pictures.length}"
  ensure (f.channels = 1 || f.channels = 3) s!"unsupported input channel count {f.channels}"
  ensure (0 < f.size.width && 0 < f.size.height) "input size must be non-zero"
  let prepared ← pictures.mapM (prepareOne f)
  return {
    tensor := stack batch f (prepared.map (·.1)).toArray
    maps := prepared.map (·.2) }

end PreparedBatch

end GridNet
