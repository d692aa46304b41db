import GridNet.Proofs.ScalarOrder
import GridNet.Proofs.WholeScalars
import Mathlib.Algebra.Order.Ring.Int
import Mathlib.Data.Int.Order.Lemmas
import Mathlib.Order.Monotone.Basic
import Mathlib.Tactic.Ring

/-!
# Exact values

Every finite scalar is a whole multiple of the smallest one above zero, which is `2 ^ -149`. Counted
in these units, scalars are ordered as integers are, and a sum of two scalars is the sum of two
integers, rounded once: up to `2 ^ 24` units nothing is rounded, and above, 24 bits are kept.

* `Scalar.units` — the value of a finite scalar, in units.
* `Scalar.key_le_key_iff` — the order of scalars is that of their values.
* `Scalar.rounded`, `Scalar.units_round` — what a value is rounded to.
* `Scalar.units_add`, `Scalar.units_sub` — sums and differences.
* `Scalar.rounded_le_places` — a number of 24 bits bounds what is rounded.
* `Scalar.rounded_add_rounded_sub_le` — a rounded difference that is added again does not
  pass a whole bound.
-/

namespace GridNet

/-! ## Division by a power of two -/

section Shift

variable {n k M : Nat}

/-- The quotient and what it leaves, in terms of division. -/
theorem shiftRoundEven_eq (n k : Nat) : shiftRoundEven n k =
    if 2 ^ k < 2 * (n % 2 ^ k) ∨ (2 * (n % 2 ^ k) = 2 ^ k ∧ n / 2 ^ k % 2 = 1) then n / 2 ^ k + 1
    else n / 2 ^ k := by
  have hrest : n - n / 2 ^ k * 2 ^ k = n % 2 ^ k := by
    rw [Nat.mod_eq_sub_div_mul]
  simp only [shiftRoundEven, Nat.shiftRight_eq_div_pow, Nat.shiftLeft_eq, Nat.one_mul, hrest]

/-- The quotient is off by one half at most. -/
theorem two_mul_shiftRoundEven_le (n k : Nat) :
    2 * (shiftRoundEven n k * 2 ^ k) ≤ 2 * n + 2 ^ k := by
  have hsplit : n / 2 ^ k * 2 ^ k + n % 2 ^ k = n := Nat.div_add_mod' n (2 ^ k)
  rw [shiftRoundEven_eq]
  split
  · next hup =>
    rw [Nat.add_mul, Nat.one_mul]
    omega
  · omega

/-- A quotient up to `M` is not rounded above it. -/
theorem shiftRoundEven_le_of_le (h : n ≤ M * 2 ^ k) : shiftRoundEven n k ≤ M := by
  have hle : n / 2 ^ k ≤ M := Nat.div_le_of_le_mul (by rwa [Nat.mul_comm])
  rw [shiftRoundEven_eq]
  split
  · next hup =>
    -- there is a rest, so the quotient itself is below `M`
    refine Nat.lt_of_le_of_ne hle fun heq => ?_
    have hsplit : n / 2 ^ k * 2 ^ k + n % 2 ^ k = n := Nat.div_add_mod' n (2 ^ k)
    rw [heq] at hsplit
    omega
  · exact hle

/-- A quotient halfway above an even number is rounded down to it. -/
theorem shiftRoundEven_le_of_even (heven : M % 2 = 0) (h : 2 * n ≤ (2 * M + 1) * 2 ^ k) :
    shiftRoundEven n k ≤ M := by
  have hsplit : n / 2 ^ k * 2 ^ k + n % 2 ^ k = n := Nat.div_add_mod' n (2 ^ k)
  rw [Nat.add_mul, Nat.one_mul, Nat.mul_assoc] at h
  have hle : n / 2 ^ k ≤ M := by
    refine Nat.le_of_not_lt fun hlt => ?_
    have hfull : (M + 1) * 2 ^ k ≤ n / 2 ^ k * 2 ^ k := Nat.mul_le_mul_right _ hlt
    rw [Nat.succ_mul] at hfull
    omega
  rw [shiftRoundEven_eq]
  split
  · next hup =>
    refine Nat.lt_of_le_of_ne hle fun heq => ?_
    rw [heq] at hsplit hup
    omega
  · exact hle

/-- Zeros behind a number do not change how it is rounded. -/
theorem shiftRoundEven_mul (n j k : Nat) :
    shiftRoundEven (n * 2 ^ j) (k + j) = shiftRoundEven n k := by
  have hpos : 0 < 2 ^ j := Nat.two_pow_pos j
  have hdiv : n * 2 ^ j / (2 ^ k * 2 ^ j) = n / 2 ^ k := Nat.mul_div_mul_right _ _ hpos
  have hmod : n * 2 ^ j % (2 ^ k * 2 ^ j) = n % 2 ^ k * 2 ^ j := Nat.mul_mod_mul_right _ _ _
  simp only [shiftRoundEven_eq, Nat.pow_add, hdiv, hmod, ← Nat.mul_assoc, Nat.mul_lt_mul_right hpos,
    Nat.mul_left_inj hpos.ne']

end Shift

namespace Scalar

variable {x y : Scalar}

/-! ## Values of words -/

/-- The value of a word without a sign, in units. -/
def wordUnits (w : Nat) : Nat :=
  if w / 0x800000 = 0 then w else (w % 0x800000 + 0x800000) * 2 ^ (w / 0x800000 - 1)

/-- Larger words have larger values. -/
theorem wordUnits_strictMono : StrictMono wordUnits := by
  refine strictMono_nat_of_lt_succ fun w => ?_
  unfold wordUnits
  by_cases hlast : w % 0x800000 + 1 = 0x800000
  · -- the next word begins another binade
    have hfield : (w + 1) / 0x800000 = w / 0x800000 + 1 := by omega
    have hfraction : (w + 1) % 0x800000 = 0 := by omega
    rw [hfield, hfraction, if_neg (Nat.succ_ne_zero _), Nat.add_sub_cancel, Nat.zero_add]
    split
    · next hzero =>
      rw [hzero, Nat.pow_zero]
      omega
    · next hne =>
      obtain ⟨f, hf⟩ := Nat.exists_eq_succ_of_ne_zero hne
      rw [hf, Nat.succ_eq_add_one, Nat.add_sub_cancel, Nat.pow_succ]
      have hpos : 0 < 2 ^ f := Nat.two_pow_pos f
      have hfraction : w % 0x800000 = 0x7fffff := by omega
      rw [hfraction]
      omega
  · have hfield : (w + 1) / 0x800000 = w / 0x800000 := by omega
    have hfraction : (w + 1) % 0x800000 = w % 0x800000 + 1 := by omega
    rw [hfield, hfraction]
    split
    · exact Nat.lt_succ_self w
    · exact Nat.mul_lt_mul_of_pos_right (by omega) (Nat.two_pow_pos _)

theorem wordUnits_zero : wordUnits 0 = 0 := rfl

/-- A word of a binade and as many last places. -/
theorem wordUnits_place {s n : Nat} (hlow : s = 0 ∨ 0x800000 ≤ n) (hhigh : n ≤ 0x1000000) :
    wordUnits (s * 0x800000 + n) = n * 2 ^ s := by
  unfold wordUnits
  rcases Nat.lt_or_ge n 0x800000 with hsmall | hlarge
  · have hs : s = 0 := by omega
    subst hs
    rw [if_pos (by omega)]
    omega
  · rcases hhigh.lt_or_eq with hlt | rfl
    · have hfield : (s * 0x800000 + n) / 0x800000 = s + 1 := by omega
      have hfraction : (s * 0x800000 + n) % 0x800000 + 0x800000 = n := by omega
      rw [hfield, if_neg (Nat.succ_ne_zero _), hfraction, Nat.add_sub_cancel]
    · -- the places have been rounded up to the next binade
      have hfield : (s * 0x800000 + 0x1000000) / 0x800000 = s + 1 + 1 := by omega
      have hfraction : (s * 0x800000 + 0x1000000) % 0x800000 = 0 := by omega
      rw [hfield, if_neg (Nat.succ_ne_zero _), hfraction, Nat.add_sub_cancel, Nat.pow_succ]
      omega

/-! ## Values of scalars -/

/-- The **value of a finite scalar**, in units of the smallest one above zero. -/
def units (x : Scalar) : Int := x.signed * 2 ^ (x.exponent + 149).toNat

theorem significand_mul (x : Scalar) :
    x.significand * 2 ^ (x.exponent + 149).toNat = wordUnits x.magnitude.toNat := by
  have hfield : x.exponentField.toNat = x.magnitude.toNat / 0x800000 := by
    rw [exponentField, UInt32.toNat_div]
    rfl
  have hfraction : (x.magnitude % 0x800000).toNat = x.magnitude.toNat % 0x800000 := by
    rw [UInt32.toNat_mod]
    rfl
  unfold significand exponent wordUnits
  dsimp only
  by_cases hzero : x.exponentField = 0
  · have hsmall : x.magnitude.toNat / 0x800000 = 0 := by
      rw [← hfield, hzero]
      rfl
    rw [if_pos hzero, if_pos hzero, if_pos hsmall, hfraction, Nat.mod_eq_of_lt (by omega)]
    exact Nat.mul_one _
  · have hlarge : x.magnitude.toNat / 0x800000 ≠ 0 := by
      rw [← hfield]
      exact fun hnat => hzero (UInt32.toNat_inj.mp hnat)
    have hsum : (x.magnitude % 0x800000 + 0x800000).toNat = x.magnitude.toNat % 0x800000 +
        0x800000 := by
      rw [UInt32.toNat_add, hfraction]
      exact Nat.mod_eq_of_lt (show x.magnitude.toNat % 0x800000 + 0x800000 < 2 ^ 32 by omega)
    have hplaces : ((x.magnitude.toNat / 0x800000 : Nat) - 150 + 149 : Int).toNat =
        x.magnitude.toNat / 0x800000 - 1 := by omega
    rw [if_neg hzero, if_neg hzero, if_neg hlarge, hsum, hfield, hplaces]

theorem units_eq (x : Scalar) : x.units =
    if x.isNegative then -(wordUnits x.magnitude.toNat : Int) else wordUnits x.magnitude.toNat := by
  rw [← significand_mul, units, signed]
  push_cast
  split
  · exact neg_mul _ _
  · rfl

/-- **Scalars are ordered as their values are.** -/
theorem key_le_key_iff (x y : Scalar) : x.key ≤ y.key ↔ x.units ≤ y.units := by
  have hle : ∀ w w' : Nat, w ≤ w' ↔ wordUnits w ≤ wordUnits w' := fun _ _ =>
    wordUnits_strictMono.le_iff_le.symm
  have hzero : ∀ w : Nat, w = 0 ↔ wordUnits w = 0 := fun _ =>
    (wordUnits_strictMono.injective.eq_iff' wordUnits_zero).symm
  have hxy := hle x.magnitude.toNat y.magnitude.toNat
  have hyx := hle y.magnitude.toNat x.magnitude.toNat
  have hx := hzero x.magnitude.toNat
  have hy := hzero y.magnitude.toNat
  rw [units_eq, units_eq, key, key]
  split <;> split <;> omega

/-- Finite scalars are compared by their values. -/
theorem le_iff_units (hx : x.isFinite = true) (hy : y.isFinite = true) :
    x.le y = true ↔ x.units ≤ y.units := by
  rw [le_iff, key_le_key_iff]
  exact ⟨fun h => h.2.2, fun h => ⟨isNaN_of_isFinite hx, isNaN_of_isFinite hy, h⟩⟩

/-! ## Signs -/

theorem magnitude_ofWord_signed (negative : Bool) {w : Nat} (h : w < 0x80000000) :
    (ofWord negative w).magnitude.toNat = w ∧ (ofWord negative w).isNegative = negative := by
  cases negative with
  | false => exact ⟨magnitude_ofWord h, isNegative_ofWord h⟩
  | true =>
    have hbits : (ofWord true w).bits.toNat = 0x80000000 + w := by
      have hw : w.toUInt32.toNat = w := UInt32.toNat_ofNat_of_lt' (h.trans (by decide))
      rw [ofWord, if_pos rfl, UInt32.toNat_add, hw]
      exact Nat.mod_eq_of_lt (show 0x80000000 + w < 2 ^ 32 by omega)
    refine ⟨?_, ?_⟩
    · rw [magnitude, UInt32.toNat_mod, hbits]
      exact (Nat.add_mod_left _ _).trans (Nat.mod_eq_of_lt h)
    · rw [isNegative, decide_eq_true_eq, UInt32.le_iff_toNat_le, hbits]
      exact Nat.le_add_right _ _

theorem units_ofWord (negative : Bool) {w : Nat} (h : w < 0x80000000) :
    (ofWord negative w).units = if negative then -(wordUnits w : Int) else wordUnits w := by
  obtain ⟨hmagnitude, hsign⟩ := magnitude_ofWord_signed negative h
  rw [units_eq, hmagnitude, hsign]

/-- The other sign, and the same word behind it. -/
theorem neg_spec (x : Scalar) : (-x).magnitude = x.magnitude ∧ (-x).isNegative = !x.isNegative := by
  have hmagnitude : x.magnitude.toNat = x.bits.toNat % 0x80000000 := UInt32.toNat_mod _ _
  have hlt : x.magnitude.toNat < 0x80000000 := hmagnitude ▸ Nat.mod_lt _ (by decide)
  change (neg x).magnitude = _ ∧ (neg x).isNegative = _
  unfold neg
  by_cases hneg : x.isNegative = true
  · rw [if_pos hneg, hneg]
    refine ⟨?_, ?_⟩
    · exact UInt32.toNat_inj.mp ((UInt32.toNat_mod _ _).trans (Nat.mod_eq_of_lt hlt))
    · rw [isNegative, Bool.not_true, decide_eq_false_iff_not, UInt32.le_iff_toNat_le]
      exact Nat.not_le.mpr hlt
  · have hsum : (x.magnitude + 0x80000000).toNat = x.magnitude.toNat + 0x80000000 := by
      rw [UInt32.toNat_add]
      exact Nat.mod_eq_of_lt (show x.magnitude.toNat + 0x80000000 < 2 ^ 32 by omega)
    rw [if_neg hneg, Bool.eq_false_iff.mpr hneg]
    refine ⟨UInt32.toNat_inj.mp ?_, ?_⟩
    · rw [magnitude, UInt32.toNat_mod, hsum]
      exact (Nat.add_mod_right _ _).trans (Nat.mod_eq_of_lt hlt)
    · rw [isNegative, Bool.not_false, decide_eq_true_eq, UInt32.le_iff_toNat_le, hsum]
      exact Nat.le_add_left _ _

theorem units_neg (x : Scalar) : (-x).units = -x.units := by
  obtain ⟨hmagnitude, hsign⟩ := neg_spec x
  rw [units_eq, units_eq, hmagnitude, hsign]
  cases x.isNegative <;> simp

theorem isFinite_neg (x : Scalar) : (-x).isFinite = x.isFinite := by
  rw [isFinite, (neg_spec x).1, isFinite]

theorem isNaN_neg (x : Scalar) : (-x).isNaN = x.isNaN := by
  rw [isNaN, (neg_spec x).1, isNaN]

/-! ## Rounding -/

/-- A value in units **cut to 24 bits**: its last place is a power of two, and a half goes to the
even neighbour. -/
def rounded (t : Nat) : Nat := shiftRoundEven t (t.log2 - 23) * 2 ^ (t.log2 - 23)

/-- Rounding a signed value; both signs are rounded alike. -/
def roundedSigned (t : Int) : Int := if t < 0 then -(rounded t.natAbs : Int) else rounded t.natAbs

section Rounding

variable {t m : Nat} {e : Int}

/-- The places of a rounded value. -/
theorem places_spec (t : Nat) : (t.log2 - 23 = 0 ∨ 0x800000 ≤ shiftRoundEven t (t.log2 - 23)) ∧
    shiftRoundEven t (t.log2 - 23) ≤ 0x1000000 := by
  refine ⟨?_, shiftRoundEven_le_of_le ?_⟩
  · rw [or_iff_not_imp_left]
    intro hlarge
    have hne : t ≠ 0 := by
      rintro rfl
      exact hlarge (by decide)
    have hlow : 2 ^ t.log2 ≤ t := Nat.log2_self_le hne
    have hquotient : 0x800000 ≤ t / 2 ^ (t.log2 - 23) := by
      rw [Nat.le_div_iff_mul_le (Nat.two_pow_pos _)]
      calc 0x800000 * 2 ^ (t.log2 - 23) = 2 ^ (23 + (t.log2 - 23)) := by rw [Nat.pow_add]
        _ = 2 ^ t.log2 := by rw [show 23 + (t.log2 - 23) = t.log2 by omega]
        _ ≤ t := hlow
    rw [shiftRoundEven_eq]
    split
    · exact Nat.le_succ_of_le hquotient
    · exact hquotient
  · calc t ≤ 2 ^ (t.log2 + 1) := Nat.lt_log2_self.le
      _ ≤ 2 ^ (24 + (t.log2 - 23)) := Nat.pow_le_pow_right (by decide) (by omega)
      _ = 0x1000000 * 2 ^ (t.log2 - 23) := by rw [Nat.pow_add]

theorem log2_mul_two_pow (hm : m ≠ 0) (j : Nat) : (m * 2 ^ j).log2 = m.log2 + j := by
  have hne : m * 2 ^ j ≠ 0 := (Nat.mul_pos (Nat.pos_of_ne_zero hm) (Nat.two_pow_pos _)).ne'
  rw [Nat.log2_eq_iff hne, Nat.add_right_comm, Nat.pow_add, Nat.pow_add]
  exact ⟨Nat.mul_le_mul_right _ (Nat.log2_self_le hm),
    Nat.mul_lt_mul_of_pos_right Nat.lt_log2_self (Nat.two_pow_pos _)⟩

/-- The word of a value that is a natural number of units. -/
theorem magnitude_eq (hm : m ≠ 0) (he : -149 ≤ e) (ht : m * 2 ^ (e + 149).toNat = t) :
    BinaryFormat.single.magnitude m e =
      Nat.min ((t.log2 - 23) * 0x800000 + shiftRoundEven t (t.log2 - 23)) 0x7f800000 := by
  have hlog : t.log2 = m.log2 + (e + 149).toNat := ht ▸ log2_mul_two_pow hm _
  -- the last place, counted from the smallest exponent
  generalize hs : t.log2 - 23 = s
  have hplace : Max.max ((m.log2 : Int) + e - (23 : Nat)) (-149) = (s : Int) - 149 := by omega
  unfold BinaryFormat.magnitude
  rw [if_neg hm]
  dsimp only [BinaryFormat.single]
  rw [hplace, Nat.shiftLeft_eq, show (s : Int) - 149 - -149 = s by omega, Int.toNat_natCast]
  congr 2
  split
  · next hle =>
    -- nothing is cut off
    have hshift : (e - ((s : Int) - 149)).toNat + s = (e + 149).toNat := by omega
    rw [← ht, ← hshift, Nat.pow_add, ← Nat.mul_assoc, ← Nat.shiftLeft_eq, ← Nat.shiftLeft_eq,
      shiftRoundEven_shiftLeft]
  · next hgt =>
    have hshift : ((s : Int) - 149 - e).toNat + (e + 149).toNat = s := by omega
    rw [← ht, ← hshift, shiftRoundEven_mul, hshift]

/-- **Values below `2 ^ 250` units are rounded to finite scalars.** -/
theorem units_round (negative : Bool) (he : -149 ≤ e) (ht : m * 2 ^ (e + 149).toNat = t)
    (hsize : t < 2 ^ 250) :
    (round negative m e).isFinite = true ∧
      (round negative m e).units = if negative then -(rounded t : Int) else rounded t := by
  obtain ⟨w, hw, hword, hunits⟩ : ∃ w, BinaryFormat.single.magnitude m e = w ∧ w < 0x7f800000 ∧
      wordUnits w = rounded t := by
    refine ⟨_, rfl, ?_⟩
    rcases eq_or_ne m 0 with rfl | hm
    · rw [Nat.zero_mul] at ht
      subst ht
      have hzero : BinaryFormat.single.magnitude 0 e = 0 := if_pos rfl
      rw [hzero]
      exact ⟨by decide, by decide⟩
    · have hlog : t.log2 ≤ 249 := by
        have hne : t ≠ 0 := ht ▸ (Nat.mul_pos (Nat.pos_of_ne_zero hm) (Nat.two_pow_pos _)).ne'
        exact Nat.le_of_lt_succ ((Nat.log2_lt hne).mpr hsize)
      obtain ⟨hlow, hhigh⟩ := places_spec t
      have hword : BinaryFormat.single.magnitude m e =
          (t.log2 - 23) * 0x800000 + shiftRoundEven t (t.log2 - 23) :=
        (magnitude_eq hm he ht).trans (Nat.min_eq_left (by omega))
      rw [hword, wordUnits_place hlow hhigh]
      exact ⟨by omega, rfl⟩
  rw [round, hw]
  refine ⟨?_, ?_⟩
  · rw [isFinite_iff, (magnitude_ofWord_signed negative (by omega)).1]
    exact hword
  · rw [units_ofWord negative (by omega), hunits]

/-- Rounding is off by half of the last place at most. -/
theorem two_mul_rounded_le (t : Nat) : 2 * rounded t ≤ 2 * t + 2 ^ (t.log2 - 23) :=
  two_mul_shiftRoundEven_le t _

end Rounding

/-! ## Sums -/

theorem exponent_ge (x : Scalar) : -149 ≤ x.exponent := by
  unfold exponent
  split
  · exact Int.le_refl _
  · next hne =>
    have : x.exponentField.toNat ≠ 0 := fun hzero => hne (UInt32.toNat_inj.mp hzero)
    omega

theorem units_signedZero (negative : Bool) :
    (signedZero negative).isFinite = true ∧ (signedZero negative).units = 0 := by
  cases negative <;> decide

/-- The sum of two finite scalars is the exact one, in the smaller of their last places. -/
theorem units_roundSum {a b i j : Int} (hi : -149 ≤ i) (hj : -149 ≤ j) (zeroSign : Bool)
    (hsize : (a * 2 ^ (i + 149).toNat + b * 2 ^ (j + 149).toNat).natAbs < 2 ^ 250) :
    (roundSum a i b j zeroSign).isFinite = true ∧ (roundSum a i b j zeroSign).units =
      roundedSigned (a * 2 ^ (i + 149).toNat + b * 2 ^ (j + 149).toNat) := by
  obtain ⟨e, hmin⟩ : ∃ e, e = if i ≤ j then i else j := ⟨_, rfl⟩
  have he : -149 ≤ e := by
    rw [hmin]
    split <;> assumption
  have hlift : ∀ c k : Int, e ≤ k →
      c * (1 <<< (k - e).toNat : Nat) * 2 ^ (e + 149).toNat = c * 2 ^ (k + 149).toNat := by
    intro c k hk
    have hplaces : (k + 149).toNat = (k - e).toNat + (e + 149).toNat := by omega
    rw [hplaces, pow_add, Nat.one_shiftLeft, mul_assoc]
    push_cast
    rfl
  have htotal : (a * (1 <<< (i - e).toNat : Nat) + b * (1 <<< (j - e).toNat : Nat)) * 2 ^
      (e + 149).toNat =
      a * 2 ^ (i + 149).toNat + b * 2 ^ (j + 149).toNat := by
    rw [add_mul, hlift a i (by rw [hmin]; split <;> omega),
      hlift b j (by rw [hmin]; split <;> omega)]
  unfold roundSum
  dsimp only
  rw [← hmin]
  rw [← htotal] at hsize ⊢
  generalize a * (1 <<< (i - e).toNat : Nat) + b * (1 <<< (j - e).toNat : Nat) = total at hsize ⊢
  have hpos : (0 : Int) < 2 ^ (e + 149).toNat := pow_pos (by decide) _
  have habs : total.natAbs * 2 ^ (e + 149).toNat = (total * 2 ^ (e + 149).toNat).natAbs := by
    rw [Int.natAbs_mul, Int.natAbs_pow]
    rfl
  split
  · next hzero =>
    rw [hzero, zero_mul]
    exact units_signedZero zeroSign
  · obtain ⟨hfinite, hunits⟩ := units_round (decide (total < 0)) he habs hsize
    refine ⟨hfinite, hunits.trans ?_⟩
    have hsign : total < 0 ↔ total * 2 ^ (e + 149).toNat < 0 :=
      ⟨fun h => mul_neg_of_neg_of_pos h hpos, fun h => neg_of_mul_neg_left h hpos.le⟩
    simp only [decide_eq_true_eq, roundedSigned, hsign]

/-- **A sum is the exact one, rounded once.** -/
theorem units_add (hx : x.isFinite = true) (hy : y.isFinite = true)
    (hsize : (x.units + y.units).natAbs < 2 ^ 250) :
    (x + y).isFinite = true ∧ (x + y).units = roundedSigned (x.units + y.units) := by
  change (add x y).isFinite = true ∧ (add x y).units = _
  rw [add, isNaN_of_isFinite hx, isNaN_of_isFinite hy, isInfinite_of_isFinite hx,
    isInfinite_of_isFinite hy]
  exact units_roundSum (exponent_ge x) (exponent_ge y) _ hsize

/-- **A difference is the exact one, rounded once.** -/
theorem units_sub (hx : x.isFinite = true) (hy : y.isFinite = true)
    (hsize : (x.units - y.units).natAbs < 2 ^ 250) :
    (x - y).isFinite = true ∧ (x - y).units = roundedSigned (x.units - y.units) := by
  rw [Int.sub_eq_add_neg, ← units_neg] at hsize ⊢
  exact units_add hx ((isFinite_neg y).trans hy) hsize

/-- There is no difference with a missing number. -/
theorem isNaN_of_isNaN_sub (h : (x - y).isNaN = false) : x.isNaN = false ∧ y.isNaN = false := by
  change (add x (-y)).isNaN = false at h
  rw [← isNaN_neg y]
  by_contra hmissing
  have heither : (x.isNaN || (-y).isNaN) = true := by
    rcases hx : x.isNaN <;> rcases hy : (-y).isNaN <;> simp_all
  rw [add, if_pos heither] at h
  exact absurd h (by decide)

/-! ## Whole numbers -/

theorem units_exact {s : Nat} {e : Int} (h : Normal s e) :
    (exact s e).units = s * 2 ^ (e + 149).toNat := by
  obtain ⟨hneg, -, -, -, hsignificand, hexponent⟩ := exact_spec h
  rw [units, signed, hneg, hsignificand, hexponent]
  rfl

/-- The value of a natural number. -/
theorem units_ofNat {m : Nat} (hle : m ≤ 0x1000000) :
    (ofNat m).isFinite = true ∧ (ofNat m).units = m * 2 ^ 149 := by
  rcases m.eq_zero_or_pos with rfl | hpos
  · decide
  · obtain ⟨s, k, hnormal, heq, hscaled⟩ := ofNat_eq_scaled hpos hle
    refine ⟨heq ▸ (exact_spec hnormal).2.2.2.1, ?_⟩
    rw [heq, units_exact hnormal, show ((k : Int) - 23 + 149).toNat = k + 126 by omega]
    have hvalue : s * 2 ^ (k + 126) = m * 2 ^ 149 := by
      rw [Nat.pow_add, ← Nat.mul_assoc, hscaled, Nat.mul_assoc, ← Nat.pow_add]
    exact_mod_cast hvalue

/-- The whole part, from the value in units. -/
theorem wholePart_eq (x : Scalar) :
    x.wholePart = x.significand * 2 ^ (x.exponent + 149).toNat / 2 ^ 149 := by
  have hexponent := exponent_ge x
  unfold wholePart
  split
  · rw [show (x.exponent + 149).toNat = x.exponent.toNat + 149 by omega, Nat.pow_add,
      ← Nat.mul_assoc, Nat.mul_div_cancel _ (Nat.two_pow_pos _), Nat.shiftLeft_eq]
  · have hunit : 2 ^ 149 = 2 ^ (-x.exponent).toNat * 2 ^ (x.exponent + 149).toNat := by
      rw [← Nat.pow_add, show (-x.exponent).toNat + (x.exponent + 149).toNat = 149 by omega]
    rw [Nat.shiftRight_eq_div_pow, hunit, Nat.mul_div_mul_right _ _ (Nat.two_pow_pos _)]

/-- The whole part of a number that is not below zero, cut to a limit. -/
theorem toNatWithin_eq {limit : Nat} (hx : x.isFinite = true) (hlow : zero.le x = true) :
    x.toNatWithin limit = Nat.min (x.units / 2 ^ 149).toNat limit := by
  have hkey : 0 ≤ x.key := (le_iff.mp hlow).2.2
  rw [toNatWithin, isNaN_of_isFinite hx, isInfinite_of_isFinite hx, Bool.false_or]
  by_cases hneg : x.isNegative = true
  · -- only the negative zero is left
    have hzero : x.magnitude.toNat = 0 := by
      rw [key, if_pos hneg] at hkey
      omega
    rw [if_pos hneg, units_eq, if_pos hneg, hzero]
    exact (Nat.zero_min limit).symm
  · rw [if_neg hneg, if_neg Bool.false_ne_true, units, signed, if_neg hneg, wholePart_eq]
    congr 1

theorem toNatWithin_le (limit : Nat) (x : Scalar) : toNatWithin limit x ≤ limit := by
  rw [toNatWithin]
  split
  · exact Nat.zero_le limit
  · split
    · exact Nat.le_refl limit
    · exact Nat.min_le_right _ _

theorem zero_le_ofNat {m : Nat} (hle : m ≤ 0x1000000) : zero.le (ofNat m) = true := by
  obtain ⟨hfinite, hunits⟩ := units_ofNat hle
  rw [le_iff_units (by decide) hfinite, hunits]
  exact Int.mul_nonneg (Int.natCast_nonneg _) (by decide)

/-- A natural number is read back, up to a limit. -/
theorem toNatWithin_ofNat {m limit : Nat} (hle : m ≤ 0x1000000) :
    toNatWithin limit (ofNat m) = Nat.min m limit := by
  obtain ⟨hfinite, hunits⟩ := units_ofNat hle
  rw [toNatWithin_eq hfinite (zero_le_ofNat hle), hunits, Int.mul_ediv_cancel _ (by decide),
    Int.toNat_natCast]

/-! ## Bounds -/

section Bounds

variable {W a b t p : Nat}

/-- What does not exceed a number of 24 bits, at any places, is not rounded above it. -/
theorem rounded_le_places (hW : W < 0x1000000) (h : t ≤ W * 2 ^ p) : rounded t ≤ W * 2 ^ p := by
  have hplace : t.log2 - 23 ≤ p := by
    rcases eq_or_ne t 0 with rfl | hne
    · exact Nat.zero_le p
    · have hlog : t.log2 < 24 + p := (Nat.log2_lt hne).mpr <| by
        calc t ≤ W * 2 ^ p := h
          _ < 0x1000000 * 2 ^ p := Nat.mul_lt_mul_of_pos_right hW (Nat.two_pow_pos p)
          _ = 2 ^ (24 + p) := by rw [Nat.pow_add]
      omega
  have hsplit : W * 2 ^ p = W * 2 ^ (p - (t.log2 - 23)) * 2 ^ (t.log2 - 23) := by
    rw [Nat.mul_assoc, ← Nat.pow_add, Nat.sub_add_cancel hplace]
  rw [hsplit] at h ⊢
  exact Nat.mul_le_mul_right _ (shiftRoundEven_le_of_le h)

/-- The whole number behind `W` does not pass the end of its binade, in units. -/
theorem succ_mul_le_two_pow (W : Nat) : (W + 1) * 2 ^ 149 ≤ 2 ^ (W.log2 + 150) := by
  rw [show W.log2 + 150 = W.log2 + 1 + 149 by omega, Nat.pow_add 2 (W.log2 + 1)]
  exact Nat.mul_le_mul_right _ (Nat.succ_le_of_lt Nat.lt_log2_self)

/-- What exceeds a whole number by half of its last place, or by less, is rounded down to it. -/
theorem rounded_le_whole (hpos : 0 < W) (hW : W < 0x800000)
    (h : 2 * t ≤ 2 * (W * 2 ^ 149) + 2 ^ (W.log2 + 126)) : rounded t ≤ W * 2 ^ 149 := by
  have hlog : W.log2 ≤ 22 := Nat.le_of_lt_succ ((Nat.log2_lt hpos.ne').mpr hW)
  have hlow : 2 ^ (W.log2 + 149) ≤ W * 2 ^ 149 := by
    rw [Nat.pow_add]
    exact Nat.mul_le_mul_right _ (Nat.log2_self_le hpos.ne')
  have hhigh := succ_mul_le_two_pow W
  have hhalf : 2 ^ (W.log2 + 126) ≤ 2 ^ 148 := Nat.pow_le_pow_right (by decide) (by omega)
  have hlast : t.log2 ≤ W.log2 + 149 := by
    rcases eq_or_ne t 0 with rfl | ht
    · simp
    · refine Nat.le_of_lt_succ ((Nat.log2_lt ht).mpr (?_ : t < 2 ^ (W.log2 + 150)))
      omega
  rcases hlast.lt_or_eq with hbelow | hsame
  · -- the number belongs to a lower binade, which ends at a power of two
    have hend : t ≤ 1 * 2 ^ (W.log2 + 149) := by
      rw [Nat.one_mul]
      exact Nat.lt_log2_self.le.trans (Nat.pow_le_pow_right (by decide) hbelow)
    exact (rounded_le_places (by decide) hend).trans ((Nat.one_mul _).le.trans hlow)
  · have hplace : t.log2 - 23 = W.log2 + 126 := by omega
    have hunits : W * 2 ^ 149 = W * 2 ^ (23 - W.log2) * 2 ^ (W.log2 + 126) := by
      rw [Nat.mul_assoc, ← Nat.pow_add, show 23 - W.log2 + (W.log2 + 126) = 149 by omega]
    have heven : W * 2 ^ (23 - W.log2) % 2 = 0 := by
      rw [show 23 - W.log2 = 22 - W.log2 + 1 by omega, Nat.pow_succ, ← Nat.mul_assoc]
      exact Nat.mul_mod_left _ _
    rw [rounded, hplace, hunits]
    refine Nat.mul_le_mul_right _ (shiftRoundEven_le_of_even heven ?_)
    rw [Nat.add_mul, Nat.one_mul, Nat.mul_assoc, ← hunits]
    exact h

/-- What does not exceed a whole number is not rounded above it. -/
theorem rounded_le_of_le (hW : W < 0x800000) (h : t ≤ W * 2 ^ 149) : rounded t ≤ W * 2 ^ 149 :=
  rounded_le_places (hW.trans (by decide)) h

/-- **A rounded difference that is added again does not pass a whole bound** that both
numbers keep. -/
theorem rounded_add_rounded_sub_le (hW : W < 0x800000) (hab : a ≤ b) (hb : b ≤ W * 2 ^ 149) :
    rounded (a + rounded (b - a)) ≤ W * 2 ^ 149 := by
  rcases W.eq_zero_or_pos with rfl | hpos
  · have hzero : b = 0 := by omega
    have hzero' : a = 0 := by omega
    subst hzero hzero'
    decide
  · refine rounded_le_whole hpos hW ?_
    have hround := two_mul_rounded_le (b - a)
    have hlast : 2 ^ ((b - a).log2 - 23) ≤ 2 ^ (W.log2 + 126) := by
      refine Nat.pow_le_pow_right (by decide) ?_
      rcases eq_or_ne (b - a) 0 with hzero | hne
      · simp [hzero]
      · have hhigh := succ_mul_le_two_pow W
        have hlt : (b - a).log2 < W.log2 + 150 := (Nat.log2_lt hne).mpr (by omega)
        omega
    omega

end Bounds

end Scalar

end GridNet
