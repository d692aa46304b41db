import GridNet.Png.Fault
import GridNet.Png.Filter
import GridNet.Png.Pixels

/-!
# Reading picture files

The chunks in front of the rows say how the rows are to be read; from the first chunk that is
neither part of the rows nor in front of them nothing matters any more. A chunk that a reader may
pass over is passed over if it is damaged, but for the place of a frame.

Rows are inflated as one piece. How far the inflation came decides what is found at fault
first: data that is complete is looked at before the end of its chunks is, and data that
is not, behind that.

* `Png.decode` — the picture in a file.
-/

namespace GridNet.Png

/-! ## In front of the rows -/

/-- What the chunks **in front of the rows** say. -/
structure Preamble where
  header : Option Header := none
  palette : Option ByteArray := none
  transparency : Option ByteArray := none
  /-- the number of the last frame -/
  sequence : Option Nat := none

namespace Preamble

/-- A fault of the format as the result of reading. -/
def fail {α : Type} (f : FormatFault) : Except Fault α := .error (.format f)

/-- Fails unless the condition holds. -/
def require (condition : Bool) (f : FormatFault) : Except Fault Unit :=
  if condition then .ok () else fail f

/-- The color that is transparent, as it stands in a row: of samples below 16 bits only the lower
byte is kept. -/
def transparentKey (channels bits : Nat) (data : ByteArray) : Option ByteArray :=
  if data.size < 2 * channels then none
  else if bits = 16 then some data
  else some ⟨((List.range channels).map fun c => (byteAt data (2 * c + 1)).toUInt8).toArray⟩

/-- The preamble with a chunk of transparency, which is passed over where it cannot be. -/
def addTransparency (p : Preamble) (h : Header) (data : ByteArray) : Preamble :=
  if p.transparency.isSome then p
  else
    match h.colors with
    | .gray => { p with transparency := transparentKey 1 h.bits data }
    | .rgb => { p with transparency := transparentKey 3 h.bits data }
    | .indexed => if p.palette.isSome then { p with transparency := some data } else p
    | .grayAlpha | .rgba => p

/-- The number of a frame, which has to be the one behind the last. -/
def addFrame (p : Preamble) (number : Nat) : Except Fault Preamble := do
  let expected := p.sequence.elim 0 (· + 1)
  require (number = expected) (.sequence expected number)
  return { p with sequence := some number }

/-- The preamble with the place of a frame. A frame in front of the rows is the whole picture. -/
def addFrameControl (p : Preamble) (h : Header) (data : ByteArray) : Except Fault Preamble := do
  let short := FormatFault.tooShort .frameControl
  require (4 ≤ data.size) short
  let p ← p.addFrame (wordAt data 0)
  require (25 ≤ data.size) short
  require (byteAt data 24 ≤ 2) (.dispose (byteAt data 24))
  require (26 ≤ data.size) short
  require (byteAt data 25 ≤ 1) (.blend (byteAt data 25))
  let width := wordAt data 4
  let height := wordAt data 8
  require (width ≠ 0 && height ≠ 0) (.header .dimensions)
  require (wordAt data 12 = 0 && wordAt data 16 = 0 && width = h.size.width &&
    height = h.size.height) .frameOutside
  return p

/-- The preamble with one more chunk. -/
def add (p : Preamble) (c : Chunk) : Except Fault Preamble := do
  if !c.isSound then
    require (!c.kind.isCritical) (.checksum c)
    return p
  match p.header with
  | none => return { p with header := some (← (Header.read c.data).mapError (.format ∘ .header)) }
  | some h =>
    if c.kind = .header then fail (.duplicate c.kind)
    else if c.kind = .palette then
      require p.palette.isNone (.duplicate c.kind)
      return { p with palette := some c.data }
    else if c.kind = .ending then fail .noRows
    else if c.kind = .transparency then return p.addTransparency h c.data
    else if c.kind = .frameControl then p.addFrameControl h c.data
    else
      require (!c.kind.isCritical) (.unknown c.kind)
      return p

end Preamble

/-- The preamble, the kind of the chunks that hold the rows, and where the first one stands. -/
def readPreamble (bytes : ByteArray) :
    (fuel i : Nat) → Preamble → Except Fault (Preamble × ChunkKind × Nat)
  | 0, _, _ => .error .cutOff
  | fuel + 1, i, p =>
    match Chunk.prelude? bytes i with
    | none => .error .cutOff
    | some (length, kind) =>
      if p.header.isNone ∧ kind ≠ .header then Preamble.fail (.beforeHeader kind)
      else if kind = .rows then .ok (p, kind, i)
      else if kind = .frameRows then
        if p.sequence.isSome then .ok (p, kind, i) else Preamble.fail (.restarted kind)
      else
        match Chunk.at? bytes i with
        | none => .error .cutOff
        | some c => do readPreamble bytes fuel (i + 12 + length) (← p.add c)

/-! ## The rows -/

/-- The **compressed rows** of a file. -/
structure PackedRows where
  data : ByteArray := .empty
  /-- what the chunks that hold them end in, if it is not another chunk -/
  fault : Option Fault := none

/-- Gathers the rows of all chunks of one kind from a place on. A chunk of a further frame starts
with its number. -/
def gatherRows (bytes : ByteArray) (kind : ChunkKind) :
    (fuel i : Nat) → Preamble → ByteArray → PackedRows
  | 0, _, _, data => { data, fault := some .cutOff }
  | fuel + 1, i, p, data =>
    match Chunk.prelude? bytes i with
    | none => { data, fault := some .cutOff }
    | some (length, next) =>
      if next ≠ kind then { data }
      else
        let start := if kind = .rows then i + 8 else i + 12
        let numbered : Except Fault Preamble :=
          if kind = .rows then .ok p
          else if length < 4 then Preamble.fail .shortFrameRows
          else if bytes.size < start then .error .cutOff
          else p.addFrame (wordAt bytes (i + 8))
        match numbered with
        | .error f => { data, fault := some f }
        | .ok p =>
          let data := data ++ bytes.extract start (i + 8 + length)
          match Chunk.at? bytes i with
          | none => { data, fault := some .cutOff }
          | some c =>
            if !c.isSound && kind.isCritical then
              { data, fault := some (.format (.checksum c)) }
            else gatherRows bytes kind fuel (i + 12 + length) p data

/-- Rows without their filters. -/
structure PlainRows where
  /-- the rows of each pass -/
  passes : List (Grid × Array ByteArray) := []
  fault : Option Fault := none

/-- Takes the filters off the rows of one pass: each row of `stride` bytes stands behind the number
of its filter. -/
def restorePass (width stride : Nat) (data : ByteArray) (start : Nat) :
    (count : Nat) → ByteArray → Array ByteArray → Array ByteArray × Option Fault
  | 0, _, rows => (rows, none)
  | count + 1, previous, rows =>
    if data.size < start + 1 + stride then (rows, some (.format .missingRows))
    else
      let n := byteAt data start
      match RowFilter.ofNumber? n.toUInt8 with
      | none => (rows, some (.format (.rowFilter n)))
      | some f =>
        let row := f.restore width (data.extract (start + 1) (start + 1 + stride)) previous
        restorePass width stride data (start + 1 + stride) count row (rows.push row)

/-- Takes the filters off the rows of all passes, up to the first fault. -/
def restorePasses (h : Header) (data : ByteArray) : (start : Nat) → List Grid → PlainRows
  | _, [] => {}
  | start, g :: rest =>
    let size := g.size h.size
    let stride := h.rowBytes size.width
    match restorePass h.pixelBytes stride data start size.height .empty #[] with
    | (rows, some f) => { passes := [(g, rows)], fault := some f }
    | (rows, none) =>
      let others := restorePasses h data (start + size.height * (stride + 1)) rest
      { others with passes := (g, rows) :: others.passes }

/-- What is wrong with the palette of an indexed picture, once there is a row. -/
def paletteFault (e : Expansion) : Option Fault :=
  match e.header.colors, e.palette with
  | .indexed, none => some (.format .noPalette)
  | .indexed, some colors =>
    if colors.size % 3 ≠ 0 ∨ 768 < colors.size then some .brokenDown else none
  | _, _ => none

/-- What is wrong with the rows. -/
def PlainRows.faultWith (r : PlainRows) (e : Expansion) : Option Fault :=
  let hasRow := r.passes.any fun (_, rows) => 0 < rows.size
  match hasRow, paletteFault e with
  | true, some f => some f
  | _, _ => r.fault

/-- The row of a pass in which a pixel stands, and its place there. -/
def PlainRows.find (r : PlainRows) (x y : Nat) : ByteArray × Nat :=
  match r.passes.find? fun (g, _) => g.contains x y with
  | some (g, rows) => ((rows[(y - g.top) / g.down]?).getD .empty, (x - g.left) / g.across)
  | none => (.empty, 0)

/-- The picture whose rows these are. -/
def PlainRows.picture (r : PlainRows) (e : Expansion) : Picture :=
  .ofFn e.mode e.depth e.header.size fun x y c =>
    let (row, k) := r.find x y
    e.sample row k c

/-- The picture of compressed rows. -/
def unpack (e : Expansion) (packed : PackedRows) : Except Fault Picture :=
  let inflated := inflate packed.data
  let rows := restorePasses e.header inflated.bytes 0 e.header.grids
  let rowFault := rows.faultWith e
  let late : Option Fault → Option Fault
    | some (.format .missingRows) => none
    | other => other
  let fault :=
    match inflated.halt with
    | some (.fault f) => some (.format (.compressed f))
    | some .starved => packed.fault.or rowFault
    | none => ((late rowFault).or packed.fault).or rowFault
  match fault with
  | some f => .error f
  | none => .ok (rows.picture e)

/-! ## Files -/

/-- The most bytes of samples that a picture may have. -/
def volumeLimit : Nat := 512 * 1024 * 1024

/-- Checks the signature, which is read in two halves. -/
def readSignature (bytes : ByteArray) : Except Fault Unit := do
  let half := fun (i : Nat) =>
    if bytes.size < i + 4 then Except.error Fault.cutOff
    else Preamble.require (wordAt bytes i = wordAt signature i) .signature
  half 0
  half 4

/-- The picture in a file. -/
def decode (bytes : ByteArray) : Except Fault Picture := do
  readSignature bytes
  let (p, kind, i) ← readPreamble bytes (bytes.size + 1) 8 {}
  match p.header with
  | none => throw .cutOff
  | some header =>
    let e : Expansion := { header, palette := p.palette, transparency := p.transparency }
    if volumeLimit < e.volume then throw .tooLarge
    unpack e (gatherRows bytes kind (bytes.size + 1) i p .empty)

end GridNet.Png
