import GridNet.Decimal.Reader

/-!
# The shortest decimal of a number

The text of a binary number has the fewest significant digits that read back to it, and among these
the digits nearest to its exact value. For one digit, then two, and so on, the two neighbours of the
value on that decimal grid are tried; seventeen digits always suffice.

* `Shortest.digits` — digits and power of ten.
* `DecimalLayout` — up to which size a number is written without an exponent.
* `Shortest.text` — the text of a scalar; `Shortest.doubleText` — of a number of 64 bits.
-/

namespace GridNet

/-- How **digits are laid out**: `0.00123`, `1230.0` and their like while the place of the point
lies in a range, counted in digits from the first one on; else `1.23e-9`. -/
structure DecimalLayout where
  leastPoint : Int
  greatestPoint : Int

/-- Scalars from `1e-6` up to and without `1e13` have no exponent. -/
def DecimalLayout.single : DecimalLayout := ⟨-5, 13⟩

/-- Numbers of 64 bits from `1e-5` up to and without `1e16` have no exponent. -/
def DecimalLayout.double : DecimalLayout := ⟨-4, 16⟩

namespace Shortest

/-- The exact value of a word as a quotient of natural numbers. -/
def fraction (f : BinaryFormat) (word : Nat) : Nat × Nat :=
  let (m, e) := f.unpack word
  if 0 ≤ e then (m <<< e.toNat, 1) else (m, 1 <<< (-e).toNat)

/-- The power of ten of the leading digit of `num / den`, for a quotient of at least
`10 ^ -fuel`. -/
def leading (num den : Nat) : (fuel : Nat) → Int
  | 0 => 0
  | fuel + 1 =>
    if den ≤ num then (Numeral.digitCount (num / den) : Int) - 1
    else leading (10 * num) den fuel - 1

/-- `num / den` in units of `10 ^ k`, as a quotient. -/
def scaled (num den : Nat) (k : Int) : Nat × Nat :=
  if 0 ≤ k then (num, den * Nat.pow 10 k.toNat) else (num * Nat.pow 10 (-k).toNat, den)

/-- The digits on the grid of `10 ^ k` that read back to a word, the nearer ones if both neighbours
do and the even ones if they are equally near. -/
def onGrid (f : BinaryFormat) (word num den : Nat) (k : Int) : Option Nat :=
  let (n, d) := scaled num den k
  let low := n / d
  let fits := fun c => (Numeral.mk false c k).magnitude f = word
  let downFirst := 2 * (n - low * d) < d ∨ (2 * (n - low * d) = d ∧ low % 2 = 0)
  let (first, second) := if downFirst then (low, low + 1) else (low + 1, low)
  if fits first then some first else if fits second then some second else none

/-- The first grid from `count` digits on, at most `fuel` of them, that holds a reading of
a word. -/
def search (f : BinaryFormat) (word num den : Nat) (top : Int) : (count fuel : Nat) → Nat × Int
  | _, 0 => (0, 0)
  | count, fuel + 1 =>
    let k := top - count + 1
    match onGrid f word num den k with
    | some c => (c, k)
    | none => search f word num den top (count + 1) fuel

/-- No positive number of either format is below ten to the power of minus this. -/
def leastPower : Nat := 350

/-- Digits `c` and a power `k` with `c * 10 ^ k` the shortest reading of a positive finite word. -/
def digits (f : BinaryFormat) (word : Nat) : Nat × Int :=
  let (num, den) := fraction f word
  search f word num den (leading num den leastPower) 1 17

/-- Cuts the zeros at the end of a number's digits off, each worth one power of ten. -/
def strip (c : Nat) (k : Int) : (fuel : Nat) → Nat × Int
  | 0 => (c, k)
  | fuel + 1 => if c % 10 = 0 ∧ c ≠ 0 then strip (c / 10) (k + 1) fuel else (c, k)

/-- The text of a positive number `c * 10 ^ k`. -/
def unsignedText (l : DecimalLayout) (c : Nat) (k : Int) : String :=
  let (c, k) := strip c k 20
  let ds := Nat.toDigits 10 c
  let point := (ds.length : Int) + k
  let zeros := fun (n : Int) => String.ofList (List.replicate n.toNat '0')
  if l.leastPoint ≤ point ∧ point ≤ l.greatestPoint then
    if 0 ≤ k then String.ofList ds ++ zeros k ++ ".0"
    else if 0 < point then
      String.ofList (ds.take point.toNat) ++ "." ++ String.ofList (ds.drop point.toNat)
    else "0." ++ zeros (-point) ++ String.ofList ds
  else
    let e := point - 1
    let mantissa :=
      if ds.length = 1 then String.ofList ds
      else String.ofList (ds.take 1) ++ "." ++ String.ofList (ds.drop 1)
    mantissa ++ (if e < 0 then "e-" else "e+") ++ toString e.natAbs

/-- The text of a finite word with a sign. -/
def signedText (f : BinaryFormat) (l : DecimalLayout) (negative : Bool) (word : Nat) : String :=
  let sign := if negative then "-" else ""
  if word = 0 then sign ++ "0.0"
  else
    let (c, k) := digits f word
    sign ++ unsignedText l c k

/-- The text of a finite scalar; there is none for the others. -/
def text (x : Scalar) : Option String :=
  if x.isFinite then some (signedText .single .single x.isNegative x.magnitude.toNat) else none

/-- The text of a finite number of 64 bits. -/
def doubleText (word : UInt64) : String :=
  signedText .double .double (0x8000000000000000 ≤ word) (word % 0x8000000000000000).toNat

end Shortest

end GridNet
