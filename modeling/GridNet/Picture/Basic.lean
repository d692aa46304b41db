import GridNet.Scalar.Whole

/-!
# Pictures

A `Picture` is a grid of pixels with eight or sixteen bits for each channel, in row-major order with
the channels of a pixel side by side.

* `Picture.ofFn` — a picture from a function of column, row and channel.
* `Picture.toRgb`, `Picture.toRgba`, `Picture.toLuma` — the conversions between the color modes,
  which all end at eight bits.
-/

namespace GridNet

/-- The **extent of a picture**, in pixels. -/
structure Size where
  width : Nat
  height : Nat
deriving DecidableEq

/-- What the **channels** of a picture mean. -/
inductive ColorMode
  | luma
  | lumaAlpha
  | rgb
  | rgba
deriving DecidableEq

/-- The number of channels. -/
def ColorMode.channels : ColorMode → Nat
  | luma => 1
  | lumaAlpha => 2
  | rgb => 3
  | rgba => 4

/-- How many **bits a sample** has. -/
inductive Depth
  | eight
  | sixteen
deriving DecidableEq

/-- The largest sample. -/
def Depth.limit : Depth → Nat
  | eight => 255
  | sixteen => 65535

/-- A **picture**. -/
structure Picture where
  mode : ColorMode
  depth : Depth
  size : Size
  /-- rows, columns, channels -/
  samples : Array UInt16
  size_eq : samples.size = size.height * size.width * mode.channels
deriving DecidableEq

namespace Picture

/-- The picture with sample `f x y c` in column `x`, row `y` and channel `c`. -/
def ofFn (mode : ColorMode) (depth : Depth) (size : Size) (f : (x y c : Nat) → UInt16) : Picture :=
  { mode, depth, size
    samples := Array.ofFn fun i : Fin (size.height * size.width * mode.channels) =>
      let pixel := i / mode.channels
      f (pixel % size.width) (pixel / size.width) (i % mode.channels)
    size_eq := by simp }

/-- The picture with the given samples, if their number is right. -/
def ofArray? (mode : ColorMode) (depth : Depth) (size : Size) (samples : Array UInt16) :
    Option Picture :=
  if h : samples.size = size.height * size.width * mode.channels then
    some { mode, depth, size, samples, size_eq := h }
  else none

/-- The picture of eight bits with the given bytes as samples, if their number is right. -/
def ofBytes? (mode : ColorMode) (size : Size) (bytes : List UInt8) : Option Picture :=
  ofArray? mode .eight size (bytes.map (·.toUInt16)).toArray

/-- The samples of a picture of eight bits. -/
def bytes (p : Picture) : List UInt8 := p.samples.toList.map (·.toUInt8)

/-- The sample in column `x`, row `y` and channel `c`; zero outside. -/
def sample (p : Picture) (x y c : Nat) : UInt16 :=
  (p.samples[(y * p.size.width + x) * p.mode.channels + c]?).getD 0

/-- A sample brought to eight bits: as large a part of the largest sample as it was, to
the nearest. -/
def narrowSample : Depth → UInt16 → UInt16
  | .eight, v => v
  | .sixteen, v => ((v.toNat + 128) / 257).toUInt16

/-- The sample in column `x`, row `y` and channel `c`, brought to eight bits. -/
def narrow (p : Picture) (x y c : Nat) : UInt16 := narrowSample p.depth (p.sample x y c)

/-- The channel in which a color stands, red being 0. -/
def colorChannel (mode : ColorMode) (color : Nat) : Nat :=
  match mode with
  | .luma | .lumaAlpha => 0
  | .rgb | .rgba => color

/-- The three colors: transparency is dropped, and a gray pixel has three equal ones. -/
def toRgb (p : Picture) : Picture :=
  if p.mode = .rgb ∧ p.depth = .eight then p
  else ofFn .rgb .eight p.size fun x y c => p.narrow x y (colorChannel p.mode c)

/-- The sample of a full channel. -/
def fullSample : UInt16 := 255

/-- The three colors and the transparency, which a picture without one does not have. -/
def toRgba (p : Picture) : Picture :=
  if p.mode = .rgba ∧ p.depth = .eight then p
  else ofFn .rgba .eight p.size fun x y c =>
    if c < 3 then p.narrow x y (colorChannel p.mode c)
    else
      match p.mode with
      | .lumaAlpha => p.narrow x y 1
      | .rgba => p.narrow x y 3
      | .luma | .rgb => fullSample

/-- What red, green and blue weigh in the brightness of a pixel. -/
def brightnessWeights : List Scalar := [⟨0x3e59c05b⟩, ⟨0x3f3715fc⟩, ⟨0x3d93cf75⟩]

/-- A sample of eight bits as a part of the largest one. -/
def fractionOf (v : UInt16) : Scalar := .ofNat v.toNat * .ratio 1 Depth.eight.limit

/-- The brightness of a pixel with the given colors. -/
def brightness (colors : List UInt16) : UInt16 :=
  let sum := (colors.zip brightnessWeights).foldl
    (fun sum (v, weight) => sum + fractionOf v * weight) .zero
  (Scalar.toNatWithin Depth.eight.limit
    (Scalar.nearest (sum * .ofNat Depth.eight.limit))).toUInt16

/-- The brightness of each pixel: a gray picture has it, another one is weighed. -/
def toLuma (p : Picture) : Picture :=
  if p.mode = .luma ∧ p.depth = .eight then p
  else ofFn .luma .eight p.size fun x y _ =>
    match p.mode with
    | .luma | .lumaAlpha => p.narrow x y 0
    | .rgb | .rgba => brightness [p.narrow x y 0, p.narrow x y 1, p.narrow x y 2]

end Picture

end GridNet
