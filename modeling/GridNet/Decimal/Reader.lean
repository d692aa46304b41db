import GridNet.Scalar.Elementary

/-!
# Decimal numerals

The numeral `digits * 10 ^ exponent` is rounded exactly once, whatever its length. Exponents far
outside the range of a format are settled by the number of digits, without computing the power.

* `Numeral.magnitude` — the word of the nearest value in a format.
* `Numeral.read` — the numerals `1`, `-2.5`, `.5`, `3.`, `1e-7`, `+inf`, `NaN` and their like.
-/

namespace GridNet

/-- A **decimal numeral** `± digits * 10 ^ exponent`. -/
structure Numeral where
  /-- a minus sign stands in front -/
  negative : Bool
  /-- all digits, read as one natural number -/
  digits : Nat
  /-- the power of ten that goes with them -/
  exponent : Int

namespace Numeral

/-- The number of decimal digits of a natural number, zero having none. -/
def digitCount (n : Nat) : Nat := if n = 0 then 0 else (Nat.toDigits 10 n).length

/-- The word of the value nearest to the numeral, sign aside. -/
def magnitude (f : BinaryFormat) (n : Numeral) : Nat :=
  let top := n.exponent + digitCount n.digits
  if n.digits = 0 ∨ top < -400 then 0
  else if 400 < top then f.infinityWord
  else if 0 ≤ n.exponent then f.magnitude (n.digits * Nat.pow 10 n.exponent.toNat) 0
  else f.quotient n.digits (Nat.pow 10 (-n.exponent).toNat) 0

/-- The scalar nearest to the numeral. -/
def toScalar (n : Numeral) : Scalar :=
  .ofWord n.negative (n.magnitude .single)

/-- The value of a run of digits that continues `acc`. -/
def digitsFrom (acc : Nat) (cs : List Char) : Nat :=
  cs.foldl (fun n c => 10 * n + (c.toNat - '0'.toNat)) acc

/-- Removes a leading sign and says whether it was a minus. -/
def splitSign : List Char → Bool × List Char
  | '-' :: cs => (true, cs)
  | '+' :: cs => (false, cs)
  | cs => (false, cs)

/-- The exponent part: nothing, or `e` with an optional sign and at least one digit. -/
def readExponent : List Char → Option Int
  | [] => some 0
  | c :: cs =>
    if c = 'e' ∨ c = 'E' then
      let (negative, ds) := splitSign cs
      if ds.isEmpty || !ds.all Char.isDigit then none
      else
        let n : Int := digitsFrom 0 ds
        some (if negative then -n else n)
    else none

/-- A numeral without sign: digits, at most one point, and an exponent part. One digit at least. -/
def readUnsigned (negative : Bool) (cs : List Char) : Option Numeral :=
  let whole := cs.takeWhile Char.isDigit
  let rest := cs.dropWhile Char.isDigit
  let (fraction, rest) :=
    match rest with
    | '.' :: tail => (tail.takeWhile Char.isDigit, tail.dropWhile Char.isDigit)
    | other => ([], other)
  if whole.isEmpty && fraction.isEmpty then none
  else
    (readExponent rest).map fun e =>
      ⟨negative, digitsFrom (digitsFrom 0 whole) fraction, e - fraction.length⟩

/-- The scalar that a text denotes: a decimal numeral, or in any case of letters `inf`, `infinity`
or `nan`, each with an optional sign. -/
def read (text : String) : Option Scalar :=
  let (negative, cs) := splitSign text.toList
  let word := String.ofList (cs.map Char.toLower)
  if word = "inf" ∨ word = "infinity" then some (.infinity negative)
  else if word = "nan" then some (if negative then Scalar.nan.neg else Scalar.nan)
  else (readUnsigned negative cs).map toScalar

end Numeral

end GridNet
