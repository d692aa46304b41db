import GridNet.Proofs.ExactValues

/-!
# The nearest whole number

A number that is not below zero is rounded to a whole one by adding a half and rounding down, since
a half goes away from zero. In units of the smallest scalar this is a division of natural numbers.

* `Scalar.nearest_eq` — the nearest whole number, from the value in units.
* `Scalar.toNatWithin_nearest` — the natural number that is read from it.
-/

namespace GridNet.Scalar

variable {x : Scalar}

/-- The digit behind the point, in units. -/
theorem reachesHalf_iff (x : Scalar) : x.reachesHalf = true ↔
    x.significand * 2 ^ (x.exponent + 149).toNat / 2 ^ 148 % 2 = 1 := by
  have hexponent := exponent_ge x
  rw [reachesHalf, Bool.and_eq_true, decide_eq_true_eq, decide_eq_true_eq]
  by_cases hwhole : 0 ≤ x.exponent
  · refine iff_of_false (fun h => absurd h.1 (by omega)) ?_
    rw [show (x.exponent + 149).toNat = x.exponent.toNat + 1 + 148 by omega, Nat.pow_add,
      ← Nat.mul_assoc,
      Nat.mul_div_cancel _ (Nat.two_pow_pos _), Nat.pow_succ, ← Nat.mul_assoc, Nat.mul_mod_left]
    exact Nat.zero_ne_one
  · have hunit : 2 ^ 148 = 2 ^ ((-x.exponent).toNat - 1) * 2 ^ (x.exponent + 149).toNat := by
      rw [← Nat.pow_add, show (-x.exponent).toNat - 1 + (x.exponent + 149).toNat = 148 by omega]
    rw [Nat.shiftRight_eq_div_pow, hunit, Nat.mul_div_mul_right _ _ (Nat.two_pow_pos _)]
    exact ⟨fun h => h.2, fun h => ⟨by omega, h⟩⟩

/-- **The nearest whole number** of a number without a sign: half a whole one more, rounded down. -/
theorem nearest_eq {u : Nat} (hx : x.isFinite = true) (hneg : x.isNegative = false)
    (hu : x.units = u) :
    nearest x = ofNat ((u + 2 ^ 148) / 2 ^ 149) := by
  have hvalue : x.significand * 2 ^ (x.exponent + 149).toNat = u := by
    rw [units, signed, hneg, if_neg Bool.false_ne_true] at hu
    exact_mod_cast hu
  have hhalf := reachesHalf_iff x
  rw [hvalue] at hhalf
  rw [nearest, replaceWhole, if_pos hx, hneg, wholePart_eq, hvalue]
  refine congrArg ofNat ?_
  by_cases hup : x.reachesHalf = true
  · rw [if_pos hup]
    have := hhalf.mp hup
    omega
  · rw [if_neg hup]
    have := mt hhalf.mpr hup
    omega

/-- Rounding keeps the sign, also where it comes to zero. -/
theorem isNegative_nearest (x : Scalar) : (nearest x).isNegative = x.isNegative := by
  rw [nearest, replaceWhole]
  split
  · exact (magnitude_ofWord_signed _ ((magnitude_le _ _).trans_lt (by decide))).2
  · rfl

/-- A number with a sign that is not below zero is the zero with a sign. -/
theorem eq_signedZero (hneg : x.isNegative = true) (hlow : 0 ≤ x.units) : x = signedZero true := by
  rw [units_eq, if_pos hneg] at hlow
  have hmagnitude : x.magnitude.toNat = 0 := by
    refine wordUnits_strictMono.injective ?_
    rw [wordUnits_zero]
    omega
  have hmod : x.bits.toNat % 0x80000000 = 0 := (UInt32.toNat_mod _ _).symm.trans hmagnitude
  have hsign : 0x80000000 ≤ x.bits.toNat := by
    rwa [isNegative, decide_eq_true_eq, UInt32.le_iff_toNat_le] at hneg
  have hlt : x.bits.toNat < 2 ^ 32 := x.bits.toNat_lt
  have hbits : x.bits = 0x80000000 := UInt32.toNat_inj.mp (show x.bits.toNat = 0x80000000 by omega)
  obtain ⟨bits⟩ := x
  rw [show bits = 0x80000000 from hbits]
  decide

/-- **A number that is not below zero**, rounded to a whole one and read. -/
theorem toNatWithin_nearest {u limit : Nat} (hx : x.isFinite = true) (hu : x.units = u)
    (hlarge : (u + 2 ^ 148) / 2 ^ 149 ≤ 0x1000000) :
    toNatWithin limit (nearest x) = Nat.min ((u + 2 ^ 148) / 2 ^ 149) limit := by
  by_cases hneg : x.isNegative = true
  · have hzero := eq_signedZero hneg (hu ▸ Int.natCast_nonneg u)
    subst hzero
    obtain rfl : u = 0 := by
      rw [(units_signedZero true).2] at hu
      exact_mod_cast hu.symm
    rw [toNatWithin, isNegative_nearest, hneg, Bool.or_true, if_pos rfl]
    exact (Nat.zero_min limit).symm
  · rw [nearest_eq hx (Bool.eq_false_iff.mpr hneg) hu, toNatWithin_ofNat hlarge]

end GridNet.Scalar
