import GridNet.Scalar.Arithmetic

/-!
# Whole numbers among the scalars

Rounding a scalar to a whole number, downwards, upwards or to the nearest, and reading one as an
integer of bounded size. A scalar with a nonnegative exponent is whole already; below that, its
significand splits into a whole part and a remainder.

* `Scalar.toNatWithin` — the whole part, cut to an upper limit; anything below zero is zero.
-/

namespace GridNet.Scalar

/-- The whole part of the absolute value of a finite scalar. -/
def wholePart (x : Scalar) : Nat :=
  if 0 ≤ x.exponent then x.significand <<< x.exponent.toNat
  else x.significand >>> (-x.exponent).toNat

/-- The scalar has a part behind the point. -/
def hasFraction (x : Scalar) : Bool :=
  x.exponent < 0 &&
    (x.significand >>> (-x.exponent).toNat) <<< (-x.exponent).toNat != x.significand

/-- Twice the part behind the point is at least one. -/
def reachesHalf (x : Scalar) : Bool :=
  x.exponent < 0 && (x.significand >>> ((-x.exponent).toNat - 1)) % 2 = 1

/-- A finite scalar replaced by a whole number of the same sign; all others stay. -/
def replaceWhole (x : Scalar) (n : Nat) : Scalar :=
  if x.isFinite then round x.isNegative n 0 else x

/-- The largest whole number not above. -/
def floor (x : Scalar) : Scalar :=
  x.replaceWhole (if x.isNegative && x.hasFraction then x.wholePart + 1 else x.wholePart)

/-- The smallest whole number not below. -/
def ceil (x : Scalar) : Scalar :=
  x.replaceWhole (if !x.isNegative && x.hasFraction then x.wholePart + 1 else x.wholePart)

/-- The nearest whole number; a half goes away from zero. -/
def nearest (x : Scalar) : Scalar :=
  x.replaceWhole (if x.reachesHalf then x.wholePart + 1 else x.wholePart)

/-- The whole part cut to `limit`; zero for what is below zero and for what is no number. -/
def toNatWithin (limit : Nat) (x : Scalar) : Nat :=
  if x.isNaN || x.isNegative then 0
  else if x.isInfinite then limit
  else Nat.min x.wholePart limit

end GridNet.Scalar
