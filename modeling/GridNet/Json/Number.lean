import GridNet.Decimal.Shortest
import GridNet.Text.Integer

/-!
# JSON numbers

A number without a point and without an exponent is held as an integer while it fits into 64 bits;
any other one as a binary number of 64 bits. The latter is not always the nearest one: the digits
make an integer of 64 bits, as far as they fit, which is rounded, and then multiplied or divided by
a power of ten, which is rounded once more.

* `NumberText` — the pieces of a number's text.
* `NumberText.value?` — its value, unless it is out of range.
-/

namespace GridNet

/-- The **value of a JSON number**. -/
inductive JsonNumber
  /-- from `-2 ^ 63` up to and without `2 ^ 64` -/
  | whole (n : Int)
  /-- a number of 64 bits, by its word -/
  | double (word : UInt64)
deriving DecidableEq

/-- The word of a number of 64 bits with a sign. -/
def doubleWord (negative : Bool) (magnitude : Nat) : UInt64 :=
  (if negative then 0x8000000000000000 else 0) + magnitude.toUInt64

namespace JsonNumber

/-- The number with 64 bits. -/
def toDouble : JsonNumber → UInt64
  | whole n => doubleWord (n < 0) (BinaryFormat.double.magnitude n.natAbs 0)
  | double word => word

/-- The scalar nearest to the number. -/
def toScalar : JsonNumber → Scalar
  | whole n => .ofInt n
  | double word => .narrow word

end JsonNumber

/-- The **text of a number**, in pieces. -/
structure NumberText where
  negative : Bool
  /-- the digits in front of the point -/
  whole : List Char
  /-- the digits behind the point; there are some if there is a point -/
  fraction : List Char := []
  exponent : Option Int := none

namespace NumberText

/-- Continues an integer by digits as long as it stays below `2 ^ 64`. Returns the digits that are
left over as well. -/
def absorb : Nat → List Char → Nat × List Char
  | n, [] => (n, [])
  | n, c :: cs =>
    let next := 10 * n + (c.toNat - '0'.toNat)
    if next < Word.modulus then absorb next cs else (n, c :: cs)

/-- The largest power of ten that 64 bits hold. -/
def largestPower : Nat := 308

/-- The power of ten, rounded, as an exact value. -/
def power (k : Nat) : Nat × Int :=
  BinaryFormat.double.unpack (BinaryFormat.double.magnitude (Nat.pow 10 k) 0)

/-- The word of a rounded product with a power of ten. -/
def timesPower (word k : Nat) : Nat :=
  let (m, e) := BinaryFormat.double.unpack word
  let (n, f) := power k
  BinaryFormat.double.magnitude (m * n) (e + f)

/-- The word of a rounded quotient by a power of ten. -/
def overPower (word k : Nat) : Nat :=
  let (m, e) := BinaryFormat.double.unpack word
  let (n, f) := power k
  BinaryFormat.double.quotient m n (e - f)

/-- A word scaled by a power of ten, unless that is out of range. Two quotients by the largest power
make any word zero, which bounds the steps. -/
def scale : (fuel : Nat) → (word : Nat) → Int → Option Nat
  | 0, word, _ => some word
  | fuel + 1, word, e =>
    if e.natAbs ≤ largestPower then
      if e < 0 then some (overPower word e.natAbs)
      else
        let product := timesPower word e.natAbs
        if product = BinaryFormat.double.infinityWord then none else some product
    else if word = 0 then some 0
    else if 0 ≤ e then none
    else scale fuel (overPower word largestPower) (e + largestPower)

/-- A zero, whatever its exponent. -/
def isZero (t : NumberText) : Bool := t.whole.all (· = '0') && t.fraction.all (· = '0')

/-- The value of a number's text. -/
def value? (t : NumberText) : Option JsonNumber :=
  let (n, dropped) := absorb 0 t.whole
  if t.fraction.isEmpty && t.exponent.isNone && dropped.isEmpty &&
      (!t.negative || (0 < n && n ≤ Word.modulus / 2)) then
    some (.whole (if t.negative then -(n : Int) else n))
  else
    let (significand, lost) := absorb n t.fraction
    let exponent := t.exponent.getD 0 + dropped.length - (t.fraction.length - lost.length : Nat)
    (scale 4 (BinaryFormat.double.magnitude significand 0) exponent).map fun word =>
      .double (doubleWord t.negative word)

/-- The pieces of a text that is known to be a number. -/
def ofString (text : String) : NumberText :=
  let (negative, cs) := Numeral.splitSign text.toList
  let rest := cs.dropWhile Char.isDigit
  let (fraction, rest) :=
    match rest with
    | '.' :: tail => (tail.takeWhile Char.isDigit, tail.dropWhile Char.isDigit)
    | other => ([], other)
  { negative, fraction
    whole := cs.takeWhile Char.isDigit
    exponent := if rest.isEmpty then none else Numeral.readExponent rest }

end NumberText

/-- The value of a text that is known to be a number. -/
def JsonNumber.read (text : String) : Option JsonNumber := (NumberText.ofString text).value?

end GridNet
