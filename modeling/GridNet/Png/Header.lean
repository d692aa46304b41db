import GridNet.Picture.Basic
import GridNet.Png.Chunk

/-!
# The header of a picture file

The header fixes the extent of a picture, the colors and bits of its samples, and whether its rows
stand in the order of the picture or in seven passes over ever finer grids.

* `Header.read` — the header in a chunk's data.
* `Grid` — one pass.
-/

namespace GridNet.Png

/-- What the **samples of a pixel** are. -/
inductive SampleColors
  | gray
  | rgb
  /-- one number of a color in the palette -/
  | indexed
  | grayAlpha
  | rgba
deriving DecidableEq

namespace SampleColors

/-- The number in a header. -/
def number : SampleColors → Nat
  | gray => 0
  | rgb => 2
  | indexed => 3
  | grayAlpha => 4
  | rgba => 6

/-- The samples of one pixel. -/
def samples : SampleColors → Nat
  | gray | indexed => 1
  | grayAlpha => 2
  | rgb => 3
  | rgba => 4

/-- The name in messages. -/
def name : SampleColors → String
  | gray => "Grayscale"
  | rgb => "Rgb"
  | indexed => "Indexed"
  | grayAlpha => "GrayscaleAlpha"
  | rgba => "Rgba"

/-- The colors with a number. -/
def ofNumber? (n : Nat) : Option SampleColors :=
  [gray, rgb, indexed, grayAlpha, rgba].find? (number · = n)

/-- The bits that a sample may have. -/
def depths : SampleColors → List Nat
  | gray => [1, 2, 4, 8, 16]
  | indexed => [1, 2, 4, 8]
  | rgb | grayAlpha | rgba => [8, 16]

end SampleColors

/-- The name of a number of bits in messages. -/
def depthName : Nat → String
  | 1 => "One"
  | 2 => "Two"
  | 4 => "Four"
  | 8 => "Eight"
  | _ => "Sixteen"

/-- A **header**. -/
structure Header where
  size : Size
  colors : SampleColors
  /-- the bits of a sample -/
  bits : Nat
  interlaced : Bool

/-- What can be wrong with a header. -/
inductive HeaderFault
  | tooShort
  | dimensions
  | bits (n : Nat)
  | colors (n : Nat)
  | combination (colors : SampleColors) (bits : Nat)
  | compression (n : Nat)
  | filter (n : Nat)
  | interlace (n : Nat)

namespace Header

/-- The bits of one pixel. -/
def pixelBits (h : Header) : Nat := h.colors.samples * h.bits

/-- The bytes that a filter takes for the width of a pixel: one at least. -/
def pixelBytes (h : Header) : Nat := Nat.max 1 (h.pixelBits / 8)

/-- The bytes of a row of some pixels. -/
def rowBytes (h : Header) (pixels : Nat) : Nat := (pixels * h.pixelBits + 7) / 8

/-- Fails unless the condition holds. -/
def require (condition : Bool) (f : HeaderFault) : Except HeaderFault Unit :=
  if condition then .ok () else .error f

/-- The header in a chunk's data. Fields are looked at in the order in which they stand there. -/
def read (data : ByteArray) : Except HeaderFault Header := do
  require (8 ≤ data.size) .tooShort
  let size : Size := ⟨wordAt data 0, wordAt data 4⟩
  require (size.width ≠ 0 && size.height ≠ 0) .dimensions
  require (9 ≤ data.size) .tooShort
  let bits := byteAt data 8
  require ([1, 2, 4, 8, 16].contains bits) (.bits bits)
  require (10 ≤ data.size) .tooShort
  match SampleColors.ofNumber? (byteAt data 9) with
  | none => throw (.colors (byteAt data 9))
  | some colors =>
    require (colors.depths.contains bits) (.combination colors bits)
    require (11 ≤ data.size) .tooShort
    require (byteAt data 10 = 0) (.compression (byteAt data 10))
    require (12 ≤ data.size) .tooShort
    require (byteAt data 11 = 0) (.filter (byteAt data 11))
    require (13 ≤ data.size) .tooShort
    let order := byteAt data 12
    require (order ≤ 1) (.interlace order)
    return { size, colors, bits, interlaced := order = 1 }

end Header

/-- The pixels of one **pass**: where they start, and how far they are apart. -/
structure Grid where
  left : Nat
  top : Nat
  across : Nat
  down : Nat

namespace Grid

/-- How many members the sequence `first, first + step, …` has below `limit`. -/
def count (first step limit : Nat) : Nat := (limit - first + step - 1) / step

/-- The extent of a pass over a picture. -/
def size (g : Grid) (s : Size) : Size :=
  ⟨count g.left g.across s.width, count g.top g.down s.height⟩

/-- The pass has the pixel. -/
def contains (g : Grid) (x y : Nat) : Bool :=
  g.left ≤ x && (x - g.left) % g.across = 0 && g.top ≤ y && (y - g.top) % g.down = 0

/-- All pixels. -/
def whole : Grid := ⟨0, 0, 1, 1⟩

/-- Seven passes that have every pixel once. -/
def interlaced : List Grid :=
  [⟨0, 0, 8, 8⟩, ⟨4, 0, 8, 8⟩, ⟨0, 4, 4, 8⟩, ⟨2, 0, 4, 4⟩, ⟨0, 2, 2, 4⟩, ⟨1, 0, 2, 2⟩, ⟨0, 1, 1, 2⟩]

end Grid

/-- The passes of a picture that have pixels. -/
def Header.grids (h : Header) : List Grid :=
  (if h.interlaced then Grid.interlaced else [Grid.whole]).filter fun g =>
    0 < (g.size h.size).width && 0 < (g.size h.size).height

end GridNet.Png
