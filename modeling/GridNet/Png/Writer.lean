import GridNet.Png.Deflate
import GridNet.Png.Filter
import GridNet.Png.Header

/-!
# Writing picture files

A picture becomes a header, one chunk of rows, and an end. Each row has the filter that leaves the
smallest bytes; rows are stored as they are where compression would make them longer.

* `Png.encode` — a picture as a file.
-/

namespace GridNet.Png

/-- The samples of a color mode in a file. -/
def colorsOf : ColorMode → SampleColors
  | .luma => .gray
  | .lumaAlpha => .grayAlpha
  | .rgb => .rgb
  | .rgba => .rgba

/-- The bytes of a sample, the highest first. -/
def sampleBytes (depth : Depth) (v : UInt16) : List UInt8 :=
  match depth with
  | .eight => [v.toUInt8]
  | .sixteen => [(v / 256).toUInt8, v.toUInt8]

/-- The header of a picture's file. -/
def headerOf (p : Picture) : Header :=
  { size := p.size
    colors := colorsOf p.mode
    bits := match p.depth with
      | .eight => 8
      | .sixteen => 16
    interlaced := false }

/-- The bytes of a header. -/
def Header.encode (h : Header) : ByteArray :=
  word h.size.width ++ word h.size.height ++
    ⟨#[h.bits.toUInt8, h.colors.number.toUInt8, 0, 0, if h.interlaced then 1 else 0]⟩

/-- The rows of a picture. -/
def pictureRows (p : Picture) : List ByteArray :=
  let stride := p.size.width * p.mode.channels
  (List.range p.size.height).map fun y =>
    ⟨((p.samples.extract (y * stride) ((y + 1) * stride)).toList.flatMap
      (sampleBytes p.depth)).toArray⟩

/-- How far the bytes are from zero, in either direction, altogether. -/
def unrest (bytes : ByteArray) : Nat :=
  bytes.foldl (fun sum b => sum + Nat.min b.toNat (256 - b.toNat)) 0

/-- The filters that are tried. -/
def triedFilters : List RowFilter := [.left, .above, .mean, .nearest]

/-- A row behind the number of its filter. -/
def filteredRow (f : RowFilter) (width : Nat) (row previous : ByteArray) : ByteArray :=
  ⟨#[f.number]⟩ ++ f.apply width row previous

/-- The row that is least far from zero under a filter, the last one of several. The number in front
takes no part in that. -/
def calmestRow (width : Nat) (row previous : ByteArray) : ByteArray :=
  let tried := triedFilters.map fun f =>
    (unrest (f.apply width row previous), filteredRow f width row previous)
  (tried.foldl
    (fun best next =>
      match best with
      | some (least, kept) => if next.1 ≤ least then some next else some (least, kept)
      | none => some next) none).elim .empty (·.2)

/-- All rows filtered; `previous` is the one above the first. -/
def calmestRows (width : Nat) (previous : ByteArray) : List ByteArray → List ByteArray
  | [] => []
  | row :: rest => calmestRow width row previous :: calmestRows width row rest

/-- The compressed rows of a picture. -/
def packedRows (p : Picture) : ByteArray :=
  let h := headerOf p
  let rows := pictureRows p
  let compressed := deflate (calmestRows h.pixelBytes .empty rows)
  if storedSize ((h.rowBytes p.size.width + 1) * p.size.height) < compressed.size then
    store (rows.map fun row => ⟨#[RowFilter.plain.number]⟩ ++ row)
  else compressed

/-- A picture as a file. -/
def encode (p : Picture) : ByteArray :=
  signature ++ Chunk.encode .header (headerOf p).encode ++ Chunk.encode .rows (packedRows p) ++
    Chunk.encode .ending .empty

end GridNet.Png
