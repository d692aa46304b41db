import GridNet.Png.Header

/-!
# Pixels of a picture file

The samples of a file become the channels of a picture: gray samples of fewer than eight bits are
scaled up, numbers of colors are looked up in the palette, and a color that is declared transparent
adds a channel of its own.

* `Expansion` — what is known about a picture once its rows begin.
* `Expansion.sample` — a channel of a pixel, from the row that the pixel stands in.
-/

namespace GridNet.Png

/-- What the samples of a picture **become**. -/
structure Expansion where
  header : Header
  /-- three bytes for each color -/
  palette : Option ByteArray
  /-- of an indexed picture, how opaque its first colors are; else the samples of the color that is
  transparent, as they stand in a row -/
  transparency : Option ByteArray

namespace Expansion

/-- The color mode of the picture. -/
def mode (e : Expansion) : ColorMode :=
  match e.header.colors, e.transparency with
  | .gray, none => .luma
  | .gray, some _ | .grayAlpha, _ => .lumaAlpha
  | .rgb, none | .indexed, none => .rgb
  | .rgb, some _ | .indexed, some _ | .rgba, _ => .rgba

/-- The depth of the picture. -/
def depth (e : Expansion) : Depth := if e.header.bits = 16 then .sixteen else .eight

/-- The bytes of all samples of the picture. -/
def volume (e : Expansion) : Nat :=
  e.header.size.width * e.header.size.height * e.mode.channels *
    (match e.depth with
      | .eight => 1
      | .sixteen => 2)

/-- Sample `k` of a row. -/
def rawSample (e : Expansion) (row : ByteArray) (k : Nat) : Nat :=
  match e.header.bits with
  | 16 => byteAt row (2 * k) * 256 + byteAt row (2 * k + 1)
  | 8 => byteAt row k
  | bits =>
    let i := k * bits
    byteAt row (i / 8) >>> (8 - bits - i % 8) % 1 <<< bits

/-- A gray sample scaled up to eight bits, unless it has them. -/
def scaled (e : Expansion) (v : Nat) : Nat :=
  if e.header.bits < 8 then v * (255 / (1 <<< e.header.bits - 1)) else v

/-- The pixel has the color that is declared transparent. -/
def isTransparent (e : Expansion) (key row : ByteArray) (x : Nat) : Bool :=
  let channels := e.header.colors.samples
  let samples := (List.range channels).map fun c => e.rawSample row (x * channels + c)
  let bytes : List Nat :=
    if e.header.bits = 16 then samples.flatMap fun v => [v / 256, v % 256] else samples
  key.toList.map (·.toNat) = bytes

/-- A color of the palette; black behind its end. -/
def paletteColor (palette : ByteArray) (index color : Nat) : Nat :=
  byteAt palette (3 * index + color)

/-- How opaque a color of the palette is: in full unless it is said otherwise. A list that is longer
than the palette says nothing. -/
def paletteAlpha (palette alphas : ByteArray) (index : Nat) : Nat :=
  if palette.size / 3 < alphas.size then 255 else ((alphas[index]?).getD 255).toNat

/-- Channel `c` of pixel `x` of a row. -/
def sample (e : Expansion) (row : ByteArray) (x c : Nat) : UInt16 :=
  let channels := e.header.colors.samples
  let opaqueAlpha := fun (key : ByteArray) => if e.isTransparent key row x then 0 else e.depth.limit
  let value :=
    match e.header.colors with
    | .indexed =>
      let palette := e.palette.getD .empty
      let index := e.rawSample row x
      if c < 3 then paletteColor palette index c
      else paletteAlpha palette (e.transparency.getD .empty) index
    | .gray =>
      if c = 0 then e.scaled (e.rawSample row x) else opaqueAlpha (e.transparency.getD .empty)
    | .rgb =>
      if c < 3 then e.rawSample row (x * channels + c)
      else opaqueAlpha (e.transparency.getD .empty)
    | .grayAlpha | .rgba => e.rawSample row (x * channels + c)
  value.toUInt16

end Expansion

end GridNet.Png
