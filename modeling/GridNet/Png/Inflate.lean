import GridNet.Png.PrefixCode

/-!
# Inflating

Data compressed as a sequence of blocks: stored bytes, or symbols in a prefix code that is fixed or
written in front of the block. A symbol is a byte, the end of the block, or the length of a run that
occurred before; a second code says how far back it starts. Two bytes stand in front of the blocks
and a checksum behind them, which is not looked at.

Data may end too early. What was inflated by then is kept, and the end is reported as `starved`.

* `InflateFault` — what can be wrong with compressed data.
* `inflate` — the bytes of all blocks, and how their inflation ended.
-/

namespace GridNet.Png

/-- What can be **wrong with compressed data**. -/
inductive InflateFault
  | header
  | blockKind
  | storedLength
  | literalCount
  | distanceCount
  /-- a code that is not complete -/
  | code
  | repetition
  /-- a code without an end of the block -/
  | literalCode
  | distanceCode
  | distance
  /-- a run that starts in front of the data -/
  | tooFarBack
deriving DecidableEq

/-- The wording of a fault. -/
def InflateFault.message : InflateFault → String
  | header => "BadZlibHeader"
  | blockKind => "InvalidBlockType"
  | storedLength => "InvalidUncompressedBlockLength"
  | literalCount => "InvalidHlit"
  | distanceCount => "InvalidHdist"
  | code => "BadCodeLengthHuffmanTree"
  | repetition => "InvalidCodeLengthRepeat"
  | literalCode => "BadLiteralLengthHuffmanTree"
  | distanceCode => "BadDistanceHuffmanTree"
  | distance => "InvalidDistanceCode"
  | tooFarBack => "DistanceTooFarBack"

/-- Why inflation **stops** before its end. -/
inductive Halt
  /-- the data ends -/
  | starved
  | fault (f : InflateFault)

/-- A **state of inflation**. -/
structure Inflation where
  bytes : ByteArray
  /-- bits read so far -/
  position : Nat := 0
  /-- bytes inflated so far -/
  out : ByteArray := .empty

/-- A step of inflation. What was inflated before it stops is kept. -/
abbrev Inflating := EStateM Halt Inflation

namespace Inflate

/-- Stops unless the condition holds. -/
def require (condition : Bool) (f : InflateFault) : Inflating Unit := do
  if !condition then throw (.fault f)

/-- Stops unless some more bits are there. -/
def await (count : Nat) : Inflating Unit := do
  let s ← get
  if 8 * s.bytes.size < s.position + count then throw .starved

/-- Goes on to a place, which has to be inside the data. -/
def goTo (position : Nat) : Inflating Unit := do
  modify fun s => { s with position }
  await 0

/-- The next bits as a number, the lowest one first. -/
def take (count : Nat) : Inflating Nat := do
  await count
  let s ← get
  set { s with position := s.position + count }
  return bitsAt s.bytes s.position count

/-- Goes on to the next whole byte. -/
def align : Inflating Unit := modify fun s => { s with position := (s.position + 7) / 8 * 8 }

/-- One more byte is inflated. -/
def emit (b : UInt8) : Inflating Unit := modify fun s => { s with out := s.out.push b }

/-- The shortest run of each length symbol, and the bits that extend it. -/
def lengthTable : List (Nat × Nat) :=
  [(3, 0), (4, 0), (5, 0), (6, 0), (7, 0), (8, 0), (9, 0), (10, 0), (11, 1), (13, 1), (15, 1),
    (17, 1), (19, 2), (23, 2), (27, 2), (31, 2), (35, 3), (43, 3), (51, 3), (59, 3), (67, 4),
    (83, 4), (99, 4), (115, 4), (131, 5), (163, 5), (195, 5), (227, 5), (258, 0)]

/-- The shortest distance of each distance symbol, and the bits that extend it. -/
def distanceTable : List (Nat × Nat) :=
  [(1, 0), (2, 0), (3, 0), (4, 0), (5, 1), (7, 1), (9, 2), (13, 2), (17, 3), (25, 3), (33, 4),
    (49, 4), (65, 5), (97, 5), (129, 6), (193, 6), (257, 7), (385, 7), (513, 8), (769, 8),
    (1025, 9), (1537, 9), (2049, 10), (3073, 10), (4097, 11), (6145, 11), (8193, 12),
    (12289, 12), (16385, 13), (24577, 13)]

/-- The order in which the lengths of the code for lengths are written. -/
def lengthOrder : List Nat := [16, 17, 18, 0, 8, 7, 9, 6, 10, 5, 11, 4, 12, 3, 13, 2, 14, 1, 15]

/-- The symbol of the end of a block. -/
def endOfBlock : Nat := 256

/-- The codes of a block, by the lengths of their words. -/
structure CodeLengths where
  literals : List Nat
  distances : List Nat

/-- The codes of a block. -/
structure Codes where
  literals : PrefixCode
  distances : PrefixCode

/-- The codes with the given lengths. -/
def CodeLengths.codes (l : CodeLengths) : Codes := ⟨.ofLengths l.literals, .ofLengths l.distances⟩

/-- The lengths of a block that does not write its own. -/
def fixedLengths : CodeLengths :=
  { literals := List.replicate 144 8 ++ List.replicate 112 9 ++ List.replicate 24 7 ++
      List.replicate 8 8
    distances := List.replicate 30 5 }

/-- Repeats what stands `distance` bytes back, `count` times. -/
def copyBack (distance : Nat) : (count : Nat) → Inflating Unit
  | 0 => pure ()
  | count + 1 => do
    modify fun s =>
      let b := (s.out[s.out.size - distance]?).getD 0
      { s with out := s.out.push b }
    copyBack distance count

/-- The symbol at a place; the words of a complete code miss none. -/
def symbolAt (c : PrefixCode) (f : InflateFault) (bytes : ByteArray) (i : Nat) :
    Inflating (Nat × Nat) :=
  match c.read bytes i with
  | some r => pure r
  | none => throw (.fault f)

/-- A run: its length stands for a symbol from 257 on, whose word ends at place `i`. The bits of a
run are looked at together, and only if all of them are there it counts. -/
def run (c : Codes) (symbol i : Nat) : Inflating Unit := do
  let bytes := (← get).bytes
  let (leastLength, lengthBits) := (lengthTable[symbol - 257]?).getD (0, 0)
  let length := leastLength + bitsAt bytes i lengthBits
  let (code, i) ← symbolAt c.distances .distance bytes (i + lengthBits)
  let (leastDistance, distanceBits) := (distanceTable[code]?).getD (0, 0)
  let distance := leastDistance + bitsAt bytes i distanceBits
  require (0 < distance) .distance
  goTo (i + distanceBits)
  require (distance ≤ (← get).out.size) .tooFarBack
  copyBack distance length

/-- The symbols of a block up to its end. Symbols behind those of the longest run end a
block, too. -/
def symbols (c : Codes) : (fuel : Nat) → Inflating Unit
  | 0 => throw .starved
  | fuel + 1 => do
    let s ← get
    let (symbol, i) ← symbolAt c.literals .literalCode s.bytes s.position
    if symbol < endOfBlock then
      goTo i
      emit symbol.toUInt8
      symbols c fuel
    else if symbol = endOfBlock || lengthTable.length ≤ symbol - 257 then goTo i
    else
      run c symbol i
      symbols c fuel

/-- Copies up to `count` bytes as they stand. -/
def copyStored : (count : Nat) → Inflating Unit
  | 0 => pure ()
  | count + 1 => do
    emit (← take 8).toUInt8
    copyStored count

/-- The bytes of a stored block. -/
def stored : Inflating Unit := do
  align
  await 32
  let count ← take 16
  let check ← take 16
  require (count + check = 65535) .storedLength
  copyStored count

/-- The lengths of the code for lengths, in the order in which they are written. -/
def announcedLengths : List Nat → Inflating (List (Nat × Nat))
  | [] => pure []
  | symbol :: rest => do
    let length ← take 3
    return (symbol, length) :: (← announcedLengths rest)

/-- Reads code lengths until there are `total`; some symbols stand for runs of them. -/
def codeLengths (c : PrefixCode) (total : Nat) : (fuel : Nat) → List Nat → Inflating (List Nat)
  | 0, _ => throw .starved
  | fuel + 1, reversed => do
    if total ≤ reversed.length then
      require (reversed.length = total) .repetition
      return reversed.reverse
    await 7
    let s ← get
    let (symbol, i) ← symbolAt c .code s.bytes s.position
    goTo i
    if symbol < 16 then codeLengths c total fuel (symbol :: reversed)
    else if symbol = 16 then
      let count := 3 + (← take 2)
      match reversed with
      | [] => throw (.fault .repetition)
      | last :: _ => codeLengths c total fuel (List.replicate count last ++ reversed)
    else if symbol = 17 then
      codeLengths c total fuel (List.replicate (3 + (← take 3)) 0 ++ reversed)
    else codeLengths c total fuel (List.replicate (11 + (← take 7)) 0 ++ reversed)

/-- The distances have a code: a complete one, none at all, or a single word of one bit. -/
def isDistanceCode (lengths : List Nat) : Bool :=
  PrefixCode.isComplete lengths || lengths.all (· = 0) || lengths.filter (· ≠ 0) = [1]

/-- The codes that a block writes in front of its symbols. -/
def writtenLengths : Inflating CodeLengths := do
  await 14
  let literals := 257 + (← take 5)
  require (literals ≤ 286) .literalCount
  let distances := 1 + (← take 5)
  require (distances ≤ 30) .distanceCount
  let written ← announcedLengths (lengthOrder.take (4 + (← take 4)))
  let lengths := (List.range 19).map fun symbol =>
    ((written.find? (·.1 = symbol)).map (·.2)).getD 0
  require (PrefixCode.isComplete lengths) .code
  let total := literals + distances
  let all ← codeLengths (.ofLengths lengths) total (total + 1) []
  let result : CodeLengths := ⟨all.take literals, all.drop literals⟩
  require ((result.literals[endOfBlock]?).getD 0 ≠ 0) .literalCode
  require (PrefixCode.isComplete result.literals) .code
  require (isDistanceCode result.distances) .distanceCode
  return result

/-- All blocks up to the last one. -/
def blocks : (fuel : Nat) → Inflating Unit
  | 0 => throw .starved
  | fuel + 1 => do
    await 10
    let last ← take 1
    let kind ← take 2
    let steps := 8 * (← get).bytes.size + 1
    match kind with
    | 0 => stored
    | 1 => symbols fixedLengths.codes steps
    | 2 => symbols (← writtenLengths).codes steps
    | _ => throw (.fault .blockKind)
    if last = 1 then pure () else blocks fuel

/-- The two bytes in front of the blocks: method, window and flags, and a check on the two. -/
def header : Inflating Unit := do
  let method ← take 8
  let flags ← take 8
  require (method % 16 = 8 && method / 16 ≤ 7 && flags / 32 % 2 = 0 &&
    (method * 256 + flags) % 31 = 0) .header

/-- Everything from the first two bytes to the checksum. -/
def all : Inflating Unit := do
  await 16
  header
  blocks (8 * (← get).bytes.size + 1)
  align
  await 32

end Inflate

/-- The outcome of inflating some data. -/
structure Inflated where
  bytes : ByteArray
  /-- why it ended too early, if it did -/
  halt : Option Halt

/-- The bytes that were compressed. Every block and every symbol takes a bit at least. -/
def inflate (bytes : ByteArray) : Inflated :=
  match Inflate.all.run { bytes } with
  | .ok _ s => ⟨s.out, none⟩
  | .error h s => ⟨s.out, some h⟩

end GridNet.Png
