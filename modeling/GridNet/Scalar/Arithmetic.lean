import GridNet.Scalar.Basic

/-!
# Arithmetic on scalars

Every operation computes the exact result and rounds it once. `Scalar.fma` rounds the exact
`x * y + z` and so differs from a product followed by a sum.

An exact sum that is zero is the positive zero, unless both terms are negative zeros.
-/

namespace GridNet.Scalar

/-- The exact value of a finite scalar is `signed * 2 ^ exponent`. -/
def signed (x : Scalar) : Int := if x.isNegative then -(x.significand : Int) else x.significand

/-- Rounds `a * 2 ^ i + b * 2 ^ j`; `zeroSign` is the sign of a sum that is exactly zero. -/
def roundSum (a : Int) (i : Int) (b : Int) (j : Int) (zeroSign : Bool) : Scalar :=
  let e := if i ≤ j then i else j
  let total := a * (1 <<< (i - e).toNat : Nat) + b * (1 <<< (j - e).toNat : Nat)
  if total = 0 then signedZero zeroSign else round (total < 0) total.natAbs e

/-- The rounded sum. -/
def add (x y : Scalar) : Scalar :=
  if x.isNaN || y.isNaN then nan
  else if x.isInfinite then
    if y.isInfinite && x.isNegative != y.isNegative then nan else x
  else if y.isInfinite then y
  else roundSum x.signed x.exponent y.signed y.exponent (x.isNegative && y.isNegative)

/-- The rounded difference. -/
def sub (x y : Scalar) : Scalar := x.add y.neg

/-- The rounded product. -/
def mul (x y : Scalar) : Scalar :=
  let negative := x.isNegative != y.isNegative
  if x.isNaN || y.isNaN then nan
  else if x.isInfinite || y.isInfinite then
    if x.isZero || y.isZero then nan else infinity negative
  else round negative (x.significand * y.significand) (x.exponent + y.exponent)

/-- The rounded quotient. -/
def div (x y : Scalar) : Scalar :=
  let negative := x.isNegative != y.isNegative
  if x.isNaN || y.isNaN then nan
  else if x.isInfinite then
    if y.isInfinite then nan else infinity negative
  else if y.isInfinite then signedZero negative
  else if y.isZero then
    if x.isZero then nan else infinity negative
  else
    ofWord negative
      (BinaryFormat.single.quotient x.significand y.significand (x.exponent - y.exponent))

/-- The product of two scalars plus a third, rounded once. -/
def fma (x y z : Scalar) : Scalar :=
  let negative := x.isNegative != y.isNegative
  if x.isNaN || y.isNaN || z.isNaN then nan
  else if x.isInfinite || y.isInfinite then
    if x.isZero || y.isZero then nan
    else if z.isInfinite && z.isNegative != negative then nan
    else infinity negative
  else if z.isInfinite then z
  else
    roundSum (x.signed * y.signed) (x.exponent + y.exponent) z.signed z.exponent
      (negative && z.isNegative)

/-- The rounded square root; there is none below zero. -/
def sqrt (x : Scalar) : Scalar :=
  if x.isNaN then nan
  else if x.isZero then x
  else if x.isNegative then nan
  else if x.isInfinite then x
  else
    let shift := 30 + (x.exponent % 2).toNat
    ofWord false
      (BinaryFormat.single.squareRoot (x.significand <<< (shift + 24))
        ((x.exponent - (shift + 24 : Nat)) / 2) 40)

instance : Add Scalar := ⟨add⟩
instance : Sub Scalar := ⟨sub⟩
instance : Mul Scalar := ⟨mul⟩
instance : Div Scalar := ⟨div⟩

/-- The scalar nearest to a quotient of two natural numbers that scalars hold exactly. -/
def ratio (n d : Nat) : Scalar := ofNat n / ofNat d

end GridNet.Scalar
