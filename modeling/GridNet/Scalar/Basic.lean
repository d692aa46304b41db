import GridNet.Scalar.Rounding

/-!
# Scalars

A `Scalar` is a number of 32 bits, held as its word. Data that is only moved about — stored weights,
tensors that are reshaped or routed — keeps every bit, also the payload of a value that is not a
number. Arithmetic reads a word as a sign and an exact value `significand * 2 ^ exponent`.

* `Scalar.round` — the scalar nearest to a signed exact value.
* `Scalar.lt`, `Scalar.le`, `Scalar.same` — comparison, false as soon as one side is not a number.
* `Scalar.max`, `Scalar.min`, `Scalar.clamp` — selection; which operand wins a tie or stands in for
  a missing number is part of each definition.
-/

namespace GridNet

/-- A **scalar** of 32 bits, by its word. -/
structure Scalar where
  /-- sign, exponent and fraction, from the highest bit down -/
  bits : UInt32
deriving DecidableEq, Inhabited

namespace Scalar

/-- The word without its sign. -/
def magnitude (x : Scalar) : UInt32 := x.bits % 0x80000000

/-- The sign bit, which zeros and missing numbers have as well. -/
def isNegative (x : Scalar) : Bool := 0x80000000 ≤ x.bits

/-- No number at all: a word above infinity. -/
def isNaN (x : Scalar) : Bool := 0x7f800000 < x.magnitude

/-- One of the two infinities. -/
def isInfinite (x : Scalar) : Bool := x.magnitude = 0x7f800000

/-- A number that is not infinite. -/
def isFinite (x : Scalar) : Bool := x.magnitude < 0x7f800000

/-- One of the two zeros. -/
def isZero (x : Scalar) : Bool := x.magnitude = 0

/-- The exponent field; zero for zeros and subnormal numbers. -/
def exponentField (x : Scalar) : UInt32 := x.magnitude / 0x800000

/-- The natural number that a finite scalar is a power of two away from. -/
def significand (x : Scalar) : Nat :=
  let fraction := x.magnitude % 0x800000
  if x.exponentField = 0 then fraction.toNat else (fraction + 0x800000).toNat

/-- The exponent that goes with `significand`. -/
def exponent (x : Scalar) : Int :=
  if x.exponentField = 0 then -149 else (x.exponentField.toNat : Int) - 150

/-- The scalar with a given sign and a given word of 31 bits. -/
def ofWord (negative : Bool) (word : Nat) : Scalar :=
  ⟨if negative then 0x80000000 + word.toUInt32 else word.toUInt32⟩

/-- The scalar nearest to `± m * 2 ^ e`; a value that rounds to zero keeps its sign. -/
def round (negative : Bool) (m : Nat) (e : Int) : Scalar :=
  ofWord negative (BinaryFormat.single.magnitude m e)

/-- The scalar that stands for "no number" wherever arithmetic has none to give. -/
def nan : Scalar := ⟨0x7fc00000⟩

/-- The infinity of the given sign. -/
def infinity (negative : Bool) : Scalar := ofWord negative 0x7f800000

/-- The zero of the given sign. -/
def signedZero (negative : Bool) : Scalar := ofWord negative 0

/-- The positive zero. -/
def zero : Scalar := ⟨0⟩

/-- The number one. -/
def one : Scalar := ⟨0x3f800000⟩

/-- The number two. -/
def two : Scalar := ⟨0x40000000⟩

/-- One half. -/
def half : Scalar := ⟨0x3f000000⟩

/-- The scalar nearest to a natural number. -/
def ofNat (n : Nat) : Scalar := round false n 0

/-- The scalar nearest to an integer. -/
def ofInt (n : Int) : Scalar := round (n < 0) n.natAbs 0

/-- The scalar with the other sign bit. -/
def neg (x : Scalar) : Scalar := ⟨if x.isNegative then x.magnitude else x.magnitude + 0x80000000⟩

/-- The scalar without its sign. -/
def abs (x : Scalar) : Scalar := ⟨x.magnitude⟩

instance : Neg Scalar := ⟨neg⟩

/-! ## Order -/

/-- The place of a number in the order; the two zeros share one. -/
def key (x : Scalar) : Int := if x.isNegative then -(x.magnitude.toNat : Int) else x.magnitude.toNat

/-- Both sides are numbers and the left one is smaller. -/
def lt (x y : Scalar) : Bool := !x.isNaN && !y.isNaN && x.key < y.key

/-- Both sides are numbers and the left one is not larger. -/
def le (x y : Scalar) : Bool := !x.isNaN && !y.isNaN && x.key ≤ y.key

/-- Both sides are numbers and equal; a missing number differs from itself. -/
def same (x y : Scalar) : Bool := !x.isNaN && !y.isNaN && x.key = y.key

/-- The larger of two numbers, the first one on a tie; a missing number gives way to the
other side. -/
def max (x y : Scalar) : Scalar :=
  if x.isNaN then y else if x.lt y then y else x

/-- The smaller of two numbers, the first one on a tie; a missing number gives way to the
other side. -/
def min (x y : Scalar) : Scalar :=
  if x.isNaN then y else if y.lt x then y else x

/-- The number itself when it is above zero, else the positive zero, also for a missing number. -/
def positivePart (x : Scalar) : Scalar := if zero.lt x then x else zero

/-- The nearest point of `[low, high]`; a missing number stays missing. -/
def clamp (x low high : Scalar) : Scalar :=
  let raised := if x.lt low then low else x
  if high.lt raised then high else raised

end Scalar

end GridNet
