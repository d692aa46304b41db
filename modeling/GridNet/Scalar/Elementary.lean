import GridNet.Scalar.Arithmetic

/-!
# Elementary functions on scalars

The exponential is computed with fixed-point numbers that have many more places than a scalar, and
rounded once. The logarithm of one plus a number, the hyperbolic tangent and powers are computed
with 64 bits and rounded to a scalar. Nothing is claimed about their last bit.

* `Scalar.exp` — a power of two times the exponential of a number below the logarithm of two.
* `Scalar.tanh`, `Scalar.logOnePlus`, `Scalar.pow` — functions of 64-bit numbers.
-/

namespace GridNet.Scalar

/-! ## The exponential -/

/-- The binary places behind the point of a fixed-point number. -/
def fixedPlaces : Nat := 96

/-- The logarithm of two as a fixed-point number. -/
def logTwo : Nat := 0xb17217f7d1cf79abc9e3b398

/-- A finite scalar as a fixed-point number; what does not fit is cut off. -/
def toFixed (x : Scalar) : Int :=
  let shift := x.exponent + fixedPlaces
  let size := if 0 ≤ shift then x.significand <<< shift.toNat else x.significand >>> (-shift).toNat
  if x.isNegative then -(size : Int) else size

/-- The exponential of a fixed-point number below the logarithm of two: thirty terms of the power
series, the last one first. -/
def fixedExp (r : Nat) : Nat :=
  (List.range 30).foldr
    (fun i sum => 1 <<< fixedPlaces + (r * sum) >>> fixedPlaces / (i + 1)) (1 <<< fixedPlaces)

/-- The exponential. Its argument is a multiple of the logarithm of two and a rest, and what is
below `2 ^ -200` is zero. -/
def exp (x : Scalar) : Scalar :=
  if x.isNaN then nan
  else if x.isInfinite then if x.isNegative then zero else x
  else
    let v := x.toFixed
    let twos := v / (logTwo : Int)
    if twos < -200 then zero
    else round false (fixedExp (v % (logTwo : Int)).toNat) (twos - fixedPlaces)

/-! ## Functions of 64-bit numbers -/

/-- The word of 64 bits that holds the same number. -/
def widen (x : Scalar) : UInt64 :=
  let sign : UInt64 := if x.isNegative then 0x8000000000000000 else 0
  if x.isNaN then 0x7ff8000000000000
  else if x.isInfinite then sign + 0x7ff0000000000000
  else sign + (BinaryFormat.double.magnitude x.significand x.exponent).toUInt64

/-- The scalar nearest to the number held by a word of 64 bits. -/
def narrow (word : UInt64) : Scalar :=
  let negative : Bool := 0x8000000000000000 ≤ word
  let magnitude := word % 0x8000000000000000
  let field := magnitude / 0x10000000000000
  let fraction := magnitude % 0x10000000000000
  if 0x7ff0000000000000 < magnitude then nan
  else if magnitude = 0x7ff0000000000000 then infinity negative
  else if field = 0 then round negative fraction.toNat (-1074)
  else round negative (fraction + 0x10000000000000).toNat ((field.toNat : Int) - 1075)

/-- A function of 64-bit numbers as one of scalars. -/
def lift (f : Float → Float) (x : Scalar) : Scalar :=
  narrow (f (Float.ofBits x.widen)).toBits

/-- The hyperbolic tangent. -/
def tanh (x : Scalar) : Scalar := lift Float.tanh x

/-- The logarithm of `1 + x`. What the sum loses is made up for by the factor
`x / ((1 + x) - 1)`. -/
def logOnePlus (x : Scalar) : Scalar :=
  lift (fun v =>
    let u := 1.0 + v
    if u == 1.0 || u == v then if u == 1.0 then v else Float.log u
    else Float.log u * (v / (u - 1.0))) x

/-- The power `x ^ y`. -/
def pow (x y : Scalar) : Scalar := lift (fun v => Float.pow v (Float.ofBits y.widen)) x

end GridNet.Scalar
