/-!
# Rounding exact binary values

A nonnegative value `m * 2 ^ e` with natural `m` and integer `e` is rounded to the nearest member of
a binary interchange format, a tie going to the neighbour whose last bit is zero.

* `BinaryFormat` — the three numbers that fix a format.
* `BinaryFormat.unpack` — the exact value of a word.
* `shiftRoundEven` — dividing a natural number by a power of two, to nearest even.
* `BinaryFormat.magnitude` — the word of the rounded value; the words of a format are ordered as the
  values are, so carries from one binade into the next and into infinity need no case of their own.
* `BinaryFormat.quotient` — the same for `n / d * 2 ^ e`: a quotient with three spare bits and one
  bit for "something was left over" rounds as the exact quotient does.
-/

namespace GridNet

/-- A **binary interchange format**, sign bit aside. -/
structure BinaryFormat where
  /-- bits of the fraction field -/
  fractionBits : Nat
  /-- exponent of the smallest positive value -/
  leastExponent : Int
  /-- the word of infinity, which is above every finite word -/
  infinityWord : Nat

/-- Numbers of 32 bits: a fraction of 23 bits and an exponent of 8. -/
def BinaryFormat.single : BinaryFormat := ⟨23, -149, 0x7f800000⟩

/-- Numbers of 64 bits: a fraction of 52 bits and an exponent of 11. -/
def BinaryFormat.double : BinaryFormat := ⟨52, -1074, 0x7ff0000000000000⟩

/-- The exact value `m * 2 ^ e` of a finite word. -/
def BinaryFormat.unpack (f : BinaryFormat) (word : Nat) : Nat × Int :=
  let field := word >>> f.fractionBits
  let fraction := word - field <<< f.fractionBits
  if field = 0 then (fraction, f.leastExponent)
  else (fraction + 1 <<< f.fractionBits, f.leastExponent + field - 1)

/-- The quotient `n / 2 ^ k`, rounded to the nearest natural number, ties to the even one. -/
def shiftRoundEven (n k : Nat) : Nat :=
  let q := n >>> k
  let r := n - q <<< k
  let unit := 1 <<< k
  if unit < 2 * r ∨ (2 * r = unit ∧ q % 2 = 1) then q + 1 else q

/-- The word of the value nearest to `m * 2 ^ e`. With the last place at `2 ^ q` and `n` units in
it, the word is `n` plus the number of binades below `q`, each `2 ^ fractionBits` words long. -/
def BinaryFormat.magnitude (f : BinaryFormat) (m : Nat) (e : Int) : Nat :=
  if m = 0 then 0
  else
    let q := max (m.log2 + e - f.fractionBits) f.leastExponent
    let n := if q ≤ e then m <<< (e - q).toNat else shiftRoundEven m (q - e).toNat
    min ((q - f.leastExponent).toNat <<< f.fractionBits + n) f.infinityWord

/-- The word of the value nearest to `n / d * 2 ^ e`, for positive `d`. The dividend is
widened until the quotient has more bits than the format keeps; a remainder is remembered
in one further bit. -/
def BinaryFormat.quotient (f : BinaryFormat) (n d : Nat) (e : Int) : Nat :=
  if n = 0 then 0
  else
    let s := f.fractionBits + 4 + d.log2 - n.log2
    let wide := n <<< s
    let q := wide / d
    let rest := if q * d = wide then 0 else 1
    f.magnitude (2 * q + rest) (e - s - 1)

/-- The natural number whose square is the largest one not above `n`, for `n < 4 ^ bits`. -/
def floorSqrt (n : Nat) : (bits : Nat) → Nat
  | 0 => 0
  | bits + 1 =>
    let root := 2 * floorSqrt (n / 4) bits
    if (root + 1) * (root + 1) ≤ n then root + 1 else root

/-- The word of the value nearest to the square root of `m * 2 ^ (2 * h)`, where `m < 4 ^ bits`. -/
def BinaryFormat.squareRoot (f : BinaryFormat) (m : Nat) (h : Int) (bits : Nat) : Nat :=
  let root := floorSqrt m bits
  let rest := if root * root = m then 0 else 1
  f.magnitude (2 * root + rest) (h - 1)

end GridNet
