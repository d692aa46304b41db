/-!
# Prefix codes

A code gives words of bits to symbols so that no word starts another one. It is fixed by the lengths
of its words alone: words of one length follow each other in the order of their symbols, and start
where the shorter ones leave off.

* `PrefixCode.ofLengths` — the code with the given lengths.
* `PrefixCode.read` — one symbol, from bits of which the lowest one of each byte comes first.
* `PrefixCode.codewords` — the word of each symbol, for writing.
-/

namespace GridNet.Png

/-- The bit at a place; there are zeros behind the end. -/
def bitAt (bytes : ByteArray) (i : Nat) : Nat :=
  match bytes[i / 8]? with
  | none => 0
  | some b => b.toNat >>> (i % 8) % 2

/-- Some bits as a number, the lowest one first. -/
def bitsAt (bytes : ByteArray) (i : Nat) : (count : Nat) → Nat
  | 0 => 0
  | count + 1 => bitAt bytes i + 2 * bitsAt bytes (i + 1) count

/-- A **prefix code**. -/
structure PrefixCode where
  /-- for each length from 1 on, how many words there are -/
  counts : List Nat
  /-- all symbols with a word, by length and then by number -/
  symbols : Array Nat

namespace PrefixCode

/-- The longest word. -/
def maxLength : Nat := 15

/-- The lengths that a word may have. -/
def lengths : List Nat := (List.range maxLength).map (· + 1)

/-- The symbols with words of a length. -/
def symbolsOf (lengths : List Nat) (n : Nat) : List Nat :=
  ((List.range lengths.length).zip lengths).filterMap fun (symbol, length) =>
    if length = n then some symbol else none

/-- The code with words of the given lengths; a symbol of length 0 has none. -/
def ofLengths (given : List Nat) : PrefixCode :=
  let groups := lengths.map (symbolsOf given)
  { counts := groups.map List.length, symbols := groups.flatten.toArray }

/-- How many words of the longest length the words of a code take up. -/
def weight (given : List Nat) : Nat :=
  given.foldr (fun n sum => if n = 0 then sum else sum + 1 <<< (maxLength - n)) 0

/-- Every sequence of bits starts with a word, and no two words are in each other's way. -/
def isComplete (given : List Nat) : Bool := weight given = 1 <<< maxLength

/-- Reads one symbol from place `i` on. `first` is the first word of the current length, `index` the
place of its symbol, and `word` what was read so far. -/
def readFrom (c : PrefixCode) (bytes : ByteArray) (i word first index : Nat) :
    List Nat → Option (Nat × Nat)
  | [] => none
  | count :: longer =>
    let word := 2 * word + bitAt bytes i
    let first := 2 * first
    if word < first + count then
      (c.symbols[index + (word - first)]?).map (·, i + 1)
    else readFrom c bytes (i + 1) word (first + count) (index + count) longer

/-- The symbol at a place, and the place behind its word. -/
def read (c : PrefixCode) (bytes : ByteArray) (i : Nat) : Option (Nat × Nat) :=
  c.readFrom bytes i 0 0 0 c.counts

/-- A **word**, as a number whose lowest bit is its first one. -/
structure Codeword where
  bits : Nat
  length : Nat
deriving Inhabited

/-- The lowest bits of a number in the other order. -/
def reverseBits : (count n : Nat) → Nat
  | 0, _ => 0
  | count + 1, n => n % 2 * 1 <<< count + reverseBits count (n / 2)

/-- The words of the symbols of one length, from `first` on, put into a table. -/
def assign (length first : Nat) (symbols : List Nat) (table : Array Codeword) : Array Codeword :=
  (symbols.zip (List.range symbols.length)).foldl
    (fun table (symbol, k) => table.setIfInBounds symbol ⟨reverseBits length (first + k), length⟩)
    table

/-- The words of all symbols. -/
def codewords (given : List Nat) : Array Codeword :=
  let start : Nat × Array Codeword := (0, Array.replicate given.length ⟨0, 0⟩)
  (lengths.foldl
    (fun (first, table) length =>
      let symbols := symbolsOf given length
      (2 * (first + symbols.length), assign length first symbols table)) start).2

end PrefixCode

end GridNet.Png
