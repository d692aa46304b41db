import GridNet.Png.Checksum
import GridNet.Text.Visible

/-!
# Chunks of a picture file

A picture file is a signature and a sequence of chunks. A chunk has a length, a kind of four
letters, its data, and the checksum of kind and data. The case of the letters of a kind carries four
flags, of which the first one says whether a reader may pass over chunks of that kind.

* `ChunkKind` — a kind, its flags and its wording.
* `Chunk.encode`, `Chunk.at?` — a chunk written, and one found in a file.
-/

namespace GridNet.Png

/-- The first eight bytes. -/
def signature : ByteArray := ⟨#[0x89, 0x50, 0x4e, 0x47, 0x0d, 0x0a, 0x1a, 0x0a]⟩

/-- Four bytes, the highest first. -/
def word (n : Nat) : ByteArray :=
  ⟨#[(n / 0x1000000).toUInt8, (n / 0x10000).toUInt8, (n / 0x100).toUInt8, n.toUInt8]⟩

/-- The byte at a place; zero outside. -/
def byteAt (bytes : ByteArray) (i : Nat) : Nat := ((bytes[i]?).getD 0).toNat

/-- The number of four bytes. -/
def wordAt (bytes : ByteArray) (i : Nat) : Nat :=
  ((byteAt bytes i * 256 + byteAt bytes (i + 1)) * 256 + byteAt bytes (i + 2)) * 256 +
    byteAt bytes (i + 3)

/-- The **kind of a chunk**. -/
structure ChunkKind where
  /-- four of them -/
  letters : List UInt8
deriving DecidableEq

namespace ChunkKind

/-- The kind of the given name. -/
def ofName (name : String) : ChunkKind := ⟨name.toUTF8.toList⟩

/-- The extent of the picture and what its samples are. -/
def header : ChunkKind := ofName "IHDR"

/-- The colors that samples are numbers of. -/
def palette : ChunkKind := ofName "PLTE"

/-- What is transparent. -/
def transparency : ChunkKind := ofName "tRNS"

/-- Compressed rows. -/
def rows : ChunkKind := ofName "IDAT"

/-- Compressed rows of a further frame. -/
def frameRows : ChunkKind := ofName "fdAT"

/-- The place of a frame. -/
def frameControl : ChunkKind := ofName "fcTL"

/-- The end. -/
def ending : ChunkKind := ofName "IEND"

/-- The flag of one letter: it is small. -/
def flag (k : ChunkKind) (i : Nat) : Bool := ((k.letters[i]?).getD 0).toNat / 32 % 2 = 1

/-- A reader has to know the kind. -/
def isCritical (k : ChunkKind) : Bool := !k.flag 0

/-- A kind as it is worded. -/
def message (k : ChunkKind) : String :=
  let name := String.join <|
    k.letters.map fun b => Text.visibleChar ['"', '\''] (Char.ofNat b.toNat)
  s!"ChunkType \x7b type: {name}, critical: {k.isCritical}, private: {k.flag 1}, " ++
    s!"reserved: {k.flag 2}, safecopy: {k.flag 3} \x7d"

end ChunkKind

/-- A **chunk** in a file. -/
structure Chunk where
  kind : ChunkKind
  data : ByteArray
  /-- the checksum that stands behind the data -/
  recorded : Nat

namespace Chunk

/-- What the checksum is taken of. -/
def body (kind : ChunkKind) (data : ByteArray) : ByteArray := ⟨kind.letters.toArray⟩ ++ data

/-- A chunk as it stands in a file. -/
def encode (kind : ChunkKind) (data : ByteArray) : ByteArray :=
  word data.size ++ body kind data ++ word (Checksum.cyclic (body kind data)).toNat

/-- The checksum of a chunk as it was found. -/
def computed (c : Chunk) : Nat := (Checksum.cyclic (body c.kind c.data)).toNat

/-- The recorded checksum is right. -/
def isSound (c : Chunk) : Bool := c.computed = c.recorded

/-- The length and the kind of the chunk at a place, if they are there. -/
def prelude? (bytes : ByteArray) (i : Nat) : Option (Nat × ChunkKind) :=
  if bytes.size < i + 8 then none
  else some (wordAt bytes i, ⟨(bytes.extract (i + 4) (i + 8)).toList⟩)

/-- The chunk at a place, if it is there as a whole. -/
def at? (bytes : ByteArray) (i : Nat) : Option Chunk := do
  let (length, kind) ← prelude? bytes i
  if bytes.size < i + 12 + length then none
  return {
    kind
    data := bytes.extract (i + 8) (i + 8 + length)
    recorded := wordAt bytes (i + 8 + length) }

end Chunk

end GridNet.Png
