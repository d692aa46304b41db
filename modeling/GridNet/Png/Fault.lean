import GridNet.Failure
import GridNet.Png.Header
import GridNet.Png.Inflate

/-!
# Faults of picture files

* `FormatFault` — the ways in which bytes fail to be a picture file.
* `Png.Fault` — these, and the failures of reading that are no fault of the format.
-/

namespace GridNet.Png

/-- A **fault of the format**. -/
inductive FormatFault
  | signature
  /-- a chunk in front of the header -/
  | beforeHeader (kind : ChunkKind)
  | checksum (c : Chunk)
  | tooShort (kind : ChunkKind)
  /-- a chunk that may occur once only -/
  | duplicate (kind : ChunkKind)
  /-- a kind that has to be known and is not -/
  | unknown (kind : ChunkKind)
  /-- compressed rows where none may start -/
  | restarted (kind : ChunkKind)
  | header (f : HeaderFault)
  /-- a frame out of turn -/
  | sequence (expected found : Nat)
  | frameOutside
  | dispose (n : Nat)
  | blend (n : Nat)
  | shortFrameRows
  /-- an end without rows -/
  | noRows
  | compressed (f : InflateFault)
  | rowFilter (n : Nat)
  | noPalette
  /-- fewer rows than the picture has -/
  | missingRows

/-- The wording of what is wrong with a header. -/
def HeaderFault.message : HeaderFault → String
  | tooShort => s!"Chunk is too short: {ChunkKind.header.message}"
  | dimensions => "Invalid image dimensions"
  | bits n => s!"Invalid bit depth {n}."
  | colors n => s!"Invalid color type {n}."
  | combination c b =>
    s!"Invalid color/depth combination in header: {c.name}/{depthName b}"
  | compression n => s!"Unknown compression method {n}."
  | filter n => s!"Unknown filter method {n}."
  | interlace n => s!"Unknown interlace method {n}."

/-- A number in hexadecimal digits. -/
def hexText (n : Nat) : String := "0x" ++ String.ofList (Nat.toDigits 16 n)

/-- The wording of a fault of the format. -/
def FormatFault.message : FormatFault → String
  | signature => "Invalid PNG signature."
  | beforeHeader kind => s!"{kind.message} chunk appeared before IHDR chunk"
  | checksum c =>
    s!"CRC error: expected {hexText c.recorded} have {hexText c.computed} while decoding " ++
      s!"{c.kind.message} chunk."
  | tooShort kind => s!"Chunk is too short: {kind.message}"
  | duplicate kind => s!"Chunk {kind.message} is duplicated."
  | unknown kind => s!"Unrecognized critical chunk: {kind.message}"
  | restarted kind => s!"Unexpected restart of {kind.message} chunk sequence"
  | header f => f.message
  | sequence expected found => s!"Sequence is not in order, expected #{expected} got #{found}."
  | frameOutside => "Sub frame is out-of-bounds."
  | dispose n => s!"Invalid dispose op {n}."
  | blend n => s!"Invalid blend op {n}."
  | shortFrameRows => "fdAT chunk shorter than 4 bytes"
  | noRows => "IDAT or fdAT chunk is missing."
  | compressed f => s!"Corrupt deflate stream. {f.message}"
  | rowFilter n => s!"Unknown filter method {n}."
  | noPalette => "Missing palette of indexed image."
  | missingRows => "IDAT or fDAT chunk does not have enough data for image."

/-- Why a picture **cannot be read**. -/
inductive Fault
  | format (f : FormatFault)
  /-- the file ends inside a chunk -/
  | cutOff
  /-- the picture is larger than what is ever held -/
  | tooLarge
  /-- a palette that no color can be taken from -/
  | brokenDown

/-- A fault as a failure of the program. A fault of the format says so, and then what it is. -/
def Fault.toFailure : Fault → Failure
  | format f =>
    .because [.note s!"Format error decoding Png: {f.message}", .note f.message]
  | cutOff => .note "unexpected end of file"
  | tooLarge => .note "Memory limit exceeded"
  | brokenDown => .brokenDown

end GridNet.Png
