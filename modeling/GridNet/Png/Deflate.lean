import GridNet.Png.Checksum
import GridNet.Png.Inflate

/-!
# Deflating

Filtered rows are mostly small numbers and zeros, so one prefix code serves all pictures, and the
only runs are those of zeros. A single block announces the code, which is the same in every file.

* `BitWriter` — bytes written bit by bit.
* `deflate` — rows compressed; `store` — rows as they are.
-/

namespace GridNet.Png

/-- A sequence of bits **under construction**, the lowest bit of each byte first. -/
structure BitWriter where
  bytes : ByteArray
  /-- bits of a byte that is not full yet -/
  pending : Nat := 0
  /-- how many these are -/
  count : Nat := 0

namespace BitWriter

/-- Some more bits, the lowest one first. -/
def write (w : BitWriter) (value count : Nat) : BitWriter :=
  let pending := w.pending + value <<< w.count
  let total := w.count + count
  let full := total / 8
  { bytes := (List.range full).foldl (fun out k => out.push (pending >>> (8 * k)).toUInt8) w.bytes
    pending := pending >>> (8 * full)
    count := total % 8 }

/-- All bytes, the last one filled up with zeros. -/
def finish (w : BitWriter) : ByteArray :=
  if w.count = 0 then w.bytes else w.bytes.push w.pending.toUInt8

end BitWriter

namespace Deflate

/-- The two bytes in front, and the start of the only block: its code and nothing else. The last
three bits belong to what follows. -/
def announcement : ByteArray :=
  ⟨#[0x78, 0x01, 0xed, 0xc0, 0x03, 0xa0, 0x24, 0x59, 0x96, 0xc6, 0xf1, 0xff,
      0x77, 0xee, 0x8d, 0xc8, 0xcc, 0xa7, 0x72, 0x4b, 0x63, 0xae, 0x6d, 0xdb,
      0xb6, 0x6d, 0xdb, 0xb6, 0x6d, 0xdb, 0xb6, 0x6d, 0x69, 0x8c, 0x9e, 0x96,
      0x4a, 0xaf, 0x9e, 0x32, 0x33, 0x22, 0xee, 0xf9, 0x76, 0xb7, 0x6a, 0x7a,
      0xa6, 0x87, 0x3b, 0x6b, 0xd5, 0x0f]⟩

/-- Where the code stands in the announcement: behind two bytes and the kind of the block. -/
def announcementStart : Nat := 19

/-- The lengths of the code's words, as they are announced. -/
def literalLengths : List Nat :=
  match Inflate.writtenLengths.run
    { bytes := announcement.push 0, position := announcementStart } with
  | .ok lengths _ => lengths.literals
  | .error _ _ => []

/-- The words of all symbols. -/
def codewords : Array PrefixCode.Codeword := PrefixCode.codewords literalLengths

/-- The announcement, without its last three bits. -/
def start : BitWriter :=
  let whole := announcement.size - 1
  { bytes := announcement.extract 0 whole
    pending := ((announcement[whole]?).getD 0).toNat
    count := 5 }

/-- The word of a symbol. -/
def writeSymbol (w : BitWriter) (symbol : Nat) : BitWriter :=
  let word := (codewords[symbol]?).getD ⟨0, 0⟩
  w.write word.bits word.length

/-- Single bytes. -/
def writeBytes (w : BitWriter) (bytes : List UInt8) : BitWriter :=
  bytes.foldl (fun w b => writeSymbol w b.toNat) w

/-- The length symbol of the longest run that is not longer than `n`, with that run's length and the
bits that extend it. -/
def lengthSymbol (n : Nat) : Nat × Nat × Nat :=
  ((List.range Inflate.lengthTable.length).zip Inflate.lengthTable).foldl
    (fun best (k, least, extra) => if least ≤ n then (257 + k, least, extra) else best) (257, 3, 0)

/-- A repetition of the byte in front, which is one byte back: the only distance is a single bit. -/
def writeRepeat (w : BitWriter) (count : Nat) : BitWriter :=
  let (symbol, least, extra) := lengthSymbol count
  ((writeSymbol w symbol).write (count - least) extra).write 0 1

/-- The longest repetition. -/
def longestRepeat : Nat := 258

/-- A run of zeros: one by itself, and repetitions of it. Fewer than five stand by themselves. -/
def writeZeros (w : BitWriter) (count : Nat) : BitWriter :=
  let repeats := count - 1
  let w := (List.range (repeats / longestRepeat)).foldl (fun w _ => writeRepeat w longestRepeat)
    (writeSymbol w 0)
  let rest := repeats % longestRepeat
  if 4 < rest then writeRepeat w rest else writeBytes w (List.replicate rest 0)

/-- Eight bytes of a row. `zeros` are waiting in front of them; zeros at the start of the eight join
these, and zeros at the end wait in turn. -/
def writeEight (w : BitWriter) (zeros : Nat) (eight : List UInt8) : BitWriter × Nat :=
  if eight.all (· = 0) then (w, zeros + eight.length)
  else
    let front := if zeros = 0 then 0 else (eight.takeWhile (· = 0)).length
    let w := if zeros = 0 then w else writeZeros w (zeros + front)
    let rest := eight.drop front
    let back := (rest.reverse.takeWhile (· = 0)).length
    (writeBytes w (rest.take (rest.length - back)), back)

/-- A row, eight bytes at a time; fewer than eight at its end stand by themselves. -/
def writeRow (w : BitWriter) (row : ByteArray) : BitWriter :=
  let count := row.size / 8
  let (w, zeros) := (List.range count).foldl
    (fun (w, zeros) k => writeEight w zeros (row.extract (8 * k) (8 * k + 8)).toList) (w, 0)
  let w := if zeros = 0 then w else writeZeros w zeros
  writeBytes w (row.extract (8 * count) row.size).toList

end Deflate

/-- All rows in one piece. -/
def joinRows (rows : List ByteArray) : ByteArray := rows.foldl (· ++ ·) .empty

/-- Four bytes, the highest first: the checksum behind compressed data. -/
def checksumBytes (data : ByteArray) : ByteArray :=
  let n := Checksum.running data
  ⟨#[(n >>> 24).toUInt8, (n >>> 16).toUInt8, (n >>> 8).toUInt8, n.toUInt8]⟩

/-- Rows compressed. -/
def deflate (rows : List ByteArray) : ByteArray :=
  let w := rows.foldl Deflate.writeRow Deflate.start
  (Deflate.writeSymbol w Inflate.endOfBlock).finish ++ checksumBytes (joinRows rows)

/-- The most bytes of a stored block. -/
def storedLimit : Nat := 65535

/-- Bytes as stored blocks. -/
def storedBlocks (data : ByteArray) : ByteArray :=
  let count := Nat.max 1 ((data.size + storedLimit - 1) / storedLimit)
  (List.range count).foldl
    (fun out i =>
      let part := data.extract (i * storedLimit) ((i + 1) * storedLimit)
      let n := part.size
      out ++ ⟨#[if i + 1 = count then 1 else 0, n.toUInt8, (n / 256).toUInt8,
        (65535 - n).toUInt8, ((65535 - n) / 256).toUInt8]⟩ ++ part)
    .empty

/-- Rows as they are, in stored blocks. -/
def store (rows : List ByteArray) : ByteArray :=
  let data := joinRows rows
  ⟨#[0x78, 0x01]⟩ ++ storedBlocks data ++ checksumBytes data

/-- The size of some bytes that are stored, but for those of which the last block is full: these
count as an empty block more. -/
def storedSize (n : Nat) : Nat := (n - 1) / storedLimit * (storedLimit + 5) + n % storedLimit + 11

end GridNet.Png
