import GridNet.Graph.Recorder
import Mathlib.Order.Nat
import Mathlib.Tactic.Ring

/-!
# Natural numbers among the scalars

A scalar has 24 bits for its significand. Natural numbers up to `2 ^ 24` are therefore scalars
themselves, and multiplying or dividing them by one and rounding them down leaves them as they are.
This is what keeps the extent of an axis, and every position on it, when a grid is scaled by one
along that axis.

* `Scalar.exact` — the scalar of a significand of 24 bits and an exponent.
* `Scalar.ofNat_eq_exact` — a natural number as such a scalar.
* `Scalar.ofNat_mul_ofNat` — products that are such scalars as well.
* `Graph.scaledExtent_one`, `Tensor.sources_one` — an axis that is scaled by one.
* `Graph.scaledExtent_ofNat` — an axis that is scaled by any other natural number.
-/

namespace GridNet

namespace Scalar

/-! ## Words without a sign -/

section Words

variable {w : Nat}

theorem bits_ofWord (h : w < 0x80000000) : (ofWord false w).bits.toNat = w := by
  simp only [ofWord, Bool.false_eq_true, if_false, Nat.toUInt32_eq]
  exact UInt32.toNat_ofNat_of_lt' (h.trans (by decide))

theorem magnitude_ofWord (h : w < 0x80000000) : (ofWord false w).magnitude.toNat = w := by
  rw [magnitude, UInt32.toNat_mod, bits_ofWord h]
  exact Nat.mod_eq_of_lt h

theorem isNegative_ofWord (h : w < 0x80000000) : (ofWord false w).isNegative = false := by
  rw [isNegative, decide_eq_false_iff_not, UInt32.le_iff_toNat_le, bits_ofWord h]
  exact Nat.not_le.mpr h

theorem magnitude_le (m : Nat) (e : Int) : BinaryFormat.single.magnitude m e ≤ 0x7f800000 := by
  unfold BinaryFormat.magnitude
  split
  · exact Nat.zero_le _
  · exact Nat.min_le_right _ _

theorem isNegative_round (m : Nat) (e : Int) : (round false m e).isNegative = false :=
  isNegative_ofWord ((magnitude_le m e).trans_lt (by decide))

/-- A word below that of infinity is one of a finite number. -/
theorem finite_ofWord (h : w < 0x7f800000) :
    (ofWord false w).isNaN = false ∧ (ofWord false w).isInfinite = false ∧
      (ofWord false w).isFinite = true := by
  have hword : (ofWord false w).magnitude.toNat = w := magnitude_ofWord (by omega)
  have hbound : (0x7f800000 : UInt32).toNat = 0x7f800000 := rfl
  refine ⟨?_, ?_, ?_⟩
  · rw [isNaN, decide_eq_false_iff_not, UInt32.lt_iff_toNat_lt, hword, hbound]
    omega
  · rw [isInfinite, decide_eq_false_iff_not, ← UInt32.toNat_inj, hword, hbound]
    omega
  · rw [isFinite, decide_eq_true_eq, UInt32.lt_iff_toNat_lt, hword, hbound]
    exact h

theorem exponentField_ofWord (h : w < 0x80000000) :
    (ofWord false w).exponentField.toNat = w / 0x800000 := by
  rw [exponentField, UInt32.toNat_div, magnitude_ofWord h]
  rfl

/-- The exact value of a word with an exponent field. -/
theorem value_ofWord (h : w < 0x80000000) (hfield : 0x800000 ≤ w) :
    (ofWord false w).significand = w % 0x800000 + 0x800000 ∧
      (ofWord false w).exponent = (w / 0x800000 : Nat) - 150 := by
  have hne : (ofWord false w).exponentField ≠ 0 := by
    intro hzero
    have hnat := exponentField_ofWord h
    rw [hzero] at hnat
    have : 0 < w / 0x800000 := Nat.div_pos hfield (by decide)
    exact absurd hnat (by simpa using this.ne)
  refine ⟨?_, ?_⟩
  · have hfraction : ((ofWord false w).magnitude % 0x800000).toNat = w % 0x800000 := by
      rw [UInt32.toNat_mod, magnitude_ofWord h]
      rfl
    rw [significand, if_neg hne, UInt32.toNat_add, hfraction]
    exact Nat.mod_eq_of_lt (by simpa using (by omega : w % 0x800000 + 0x800000 < 0x100000000))
  · rw [exponent, if_neg hne, exponentField_ofWord h]

end Words

/-! ## Significands of 24 bits -/

/-- The scalar `s * 2 ^ e`, for a significand of 24 bits. -/
def exact (s : Nat) (e : Int) : Scalar := ofWord false ((e + 149).toNat * 0x800000 + s)

/-- A **significand of 24 bits**, and an exponent that is not extreme. -/
structure Normal (s : Nat) (e : Int) : Prop where
  above : 0x800000 ≤ s
  below : s < 0x1000000
  least : -149 ≤ e
  most : e ≤ 100

section Exact

variable {s : Nat} {e : Int}

theorem Normal.word_lt (h : Normal s e) : (e + 149).toNat * 0x800000 + s < 0x7f800000 := by
  obtain ⟨-, hbelow, -, hmost⟩ := h
  have : (e + 149).toNat ≤ 249 := by omega
  omega

/-- An exact scalar is finite and not negative, and its value is the one that it is made of. -/
theorem exact_spec (h : Normal s e) :
    (exact s e).isNegative = false ∧ (exact s e).isNaN = false ∧ (exact s e).isInfinite = false ∧
      (exact s e).isFinite = true ∧ (exact s e).significand = s ∧ (exact s e).exponent = e := by
  have hword := h.word_lt
  obtain ⟨habove, hbelow, hleast, -⟩ := h
  obtain ⟨hnan, hinfinite, hfinite⟩ := finite_ofWord hword
  obtain ⟨hsignificand, hexponent⟩ :=
    value_ofWord (w := (e + 149).toNat * 0x800000 + s) (by omega) (by omega)
  refine ⟨isNegative_ofWord (by omega), hnan, hinfinite, hfinite, hsignificand.trans ?_,
    hexponent.trans ?_⟩
  · omega
  · omega

theorem log2_normal (h : Normal s e) (j : Nat) : (s <<< j).log2 = 23 + j := by
  have hne : s <<< j ≠ 0 := by
    rw [Nat.shiftLeft_eq]
    exact (Nat.mul_pos (by have := h.above; omega) (Nat.two_pow_pos j)).ne'
  rw [Nat.log2_eq_iff hne, Nat.shiftLeft_eq]
  have hlow : 2 ^ 23 * 2 ^ j ≤ s * 2 ^ j := Nat.mul_le_mul_right _ h.above
  have hhigh : s * 2 ^ j < 2 ^ 24 * 2 ^ j := Nat.mul_lt_mul_of_pos_right h.below (Nat.two_pow_pos j)
  rw [← Nat.pow_add] at hlow hhigh
  exact ⟨hlow, by rwa [show 23 + j + 1 = 24 + j by omega]⟩

/-- Dividing by a power of two that divides needs no rounding. -/
theorem shiftRoundEven_shiftLeft (s j : Nat) : shiftRoundEven (s <<< j) j = s := by
  have hq : (s <<< j) >>> j = s := Nat.shiftLeft_shiftRight s j
  unfold shiftRoundEven
  rw [hq]
  dsimp only
  have hunit : 0 < 1 <<< j := by
    rw [Nat.one_shiftLeft]
    exact Nat.two_pow_pos j
  rw [Nat.sub_self, if_neg]
  omega

/-- **Exact values are not rounded**, however many zeros stand behind their significand. -/
theorem round_exact (h : Normal s e) (j : Nat) : round false (s <<< j) (e - j) = exact s e := by
  have hword := h.word_lt
  have hlog := log2_normal h j
  have hne : s <<< j ≠ 0 := by
    intro hzero
    rw [hzero, Nat.log2_zero] at hlog
    omega
  have hleast := h.least
  unfold round exact BinaryFormat.magnitude
  rw [if_neg hne, hlog]
  dsimp only [BinaryFormat.single]
  have hlast : Max.max (((23 + j : Nat) : Int) + (e - j) - (23 : Nat)) (-149) = e := by omega
  rw [hlast, show e - -149 = e + 149 by omega, show (e - (e - (j : Int))).toNat = j by omega,
    shiftRoundEven_shiftLeft]
  have hplaces : (if e ≤ e - (j : Int) then (s <<< j) <<< (e - j - e).toNat else s) = s := by
    split
    · have hj : j = 0 := by omega
      subst hj
      simp
    · rfl
  rw [hplaces, Nat.shiftLeft_eq, Nat.min_eq_left (by simpa using hword.le)]

theorem one_eq_exact : one = exact 0x800000 (-23) := by decide

theorem normal_one : Normal 0x800000 (-23) := ⟨by decide, by decide, by decide, by decide⟩

/-- Multiplying by one. -/
theorem exact_mul_one (h : Normal s e) : exact s e * one = exact s e := by
  obtain ⟨hneg, hnan, hinf, -, hsig, hexp⟩ := exact_spec h
  obtain ⟨hneg', hnan', hinf', -, hsig', hexp'⟩ := exact_spec normal_one
  change mul _ _ = _
  rw [one_eq_exact, mul, hneg, hnan, hinf, hsig, hexp, hneg', hnan', hinf', hsig', hexp']
  have hshift : s * 0x800000 = s <<< 23 := by rw [Nat.shiftLeft_eq]
  rw [hshift]
  exact round_exact h 23

/-- Dividing by one. -/
theorem exact_div_one (h : Normal s e) : exact s e / one = exact s e := by
  obtain ⟨hneg, hnan, hinf, -, hsig, hexp⟩ := exact_spec h
  obtain ⟨hneg', hnan', hinf', -, hsig', hexp'⟩ := exact_spec normal_one
  have hzero : (exact 0x800000 (-23)).isZero = false := by decide
  have hne : s ≠ 0 := by have := h.above; omega
  change div _ _ = _
  rw [one_eq_exact, div, hneg, hnan, hinf, hsig, hexp, hneg', hnan', hinf', hsig', hexp', hzero]
  simp only [bne_self_eq_false, Bool.or_self, Bool.false_eq_true, if_false]
  -- the dividend is widened by 27 bits, and the divisor takes 23 of them away
  have hlog : s.log2 = 23 := by simpa using log2_normal h 0
  have hlog' : (0x800000 : Nat).log2 = 23 := by decide
  have hquotient : s <<< 27 / 0x800000 = s * 16 := by
    rw [Nat.shiftLeft_eq]
    omega
  have hwide : BinaryFormat.single.quotient s 0x800000 (e - -23) =
      BinaryFormat.single.magnitude (s <<< 5) (e - (5 : Nat)) := by
    unfold BinaryFormat.quotient
    rw [if_neg hne, hlog, hlog']
    dsimp only [BinaryFormat.single]
    rw [hquotient, if_pos (by rw [Nat.shiftLeft_eq]; omega), Nat.shiftLeft_eq]
    congr 1
    · omega
    · omega
  rw [hwide]
  exact round_exact h 5

end Exact

/-! ## Natural numbers -/

section Naturals

variable {m n : Nat}

/-- A natural number of at most 24 bits, moved up until it has all of them. -/
theorem ofNat_of_lt (hpos : 0 < m) (hlt : m < 0x1000000) :
    Normal (m <<< (23 - m.log2)) (m.log2 - 23) ∧
      ofNat m = exact (m <<< (23 - m.log2)) (m.log2 - 23) := by
  have hne : m ≠ 0 := hpos.ne'
  have hlog : m.log2 ≤ 23 := Nat.le_of_lt_succ ((Nat.log2_lt hne).mpr hlt)
  have hlow : 2 ^ m.log2 ≤ m := Nat.log2_self_le hne
  have hhigh : m < 2 ^ (m.log2 + 1) := Nat.lt_log2_self
  have hnormal : Normal (m <<< (23 - m.log2)) (m.log2 - 23) := by
    have hscale : 2 ^ m.log2 * 2 ^ (23 - m.log2) = 0x800000 := by
      rw [← Nat.pow_add, Nat.add_sub_cancel' hlog]
    have hscale' : 2 ^ (m.log2 + 1) * 2 ^ (23 - m.log2) = 0x1000000 := by
      rw [Nat.pow_succ, Nat.mul_right_comm, hscale]
    rw [Nat.shiftLeft_eq]
    exact ⟨hscale ▸ Nat.mul_le_mul_right _ hlow,
      hscale' ▸ Nat.mul_lt_mul_of_pos_right hhigh (Nat.two_pow_pos _), by omega, by omega⟩
  refine ⟨hnormal, ?_⟩
  have hword := hnormal.word_lt
  unfold ofNat round exact BinaryFormat.magnitude
  rw [if_neg hne]
  dsimp only [BinaryFormat.single]
  have hlast : Max.max ((m.log2 : Int) + 0 - (23 : Nat)) (-149) = m.log2 - 23 := by omega
  rw [hlast, if_pos (by omega), show (0 - ((m.log2 : Int) - 23)).toNat = 23 - m.log2 by omega,
    show (m.log2 : Int) - 23 - -149 = m.log2 - 23 + 149 by omega, Nat.shiftLeft_eq _ 23,
    Nat.min_eq_left (by simpa using hword.le)]

/-- **Natural numbers up to `2 ^ 24` are scalars**: a significand and an exponent with exactly their
value. -/
theorem ofNat_eq_exact (hpos : 0 < m) (hle : m ≤ 0x1000000) :
    ∃ s e, Normal s e ∧ ofNat m = exact s e ∧ (exact s e).wholePart = m := by
  rcases hle.lt_or_eq with hlt | rfl
  · obtain ⟨hnormal, heq⟩ := ofNat_of_lt hpos hlt
    obtain ⟨-, -, -, -, hsig, hexp⟩ := exact_spec hnormal
    refine ⟨_, _, hnormal, heq, ?_⟩
    have hlog : m.log2 ≤ 23 := Nat.le_of_lt_succ ((Nat.log2_lt hpos.ne').mpr hlt)
    rw [wholePart, hsig, hexp]
    split
    · have hfull : m.log2 = 23 := by omega
      simp [hfull]
    · rw [show (-((m.log2 : Int) - 23)).toNat = 23 - m.log2 by omega]
      exact Nat.shiftLeft_shiftRight m _
  · -- the largest one has 25 bits, of which the last is zero
    exact ⟨0x800000, 1, ⟨by decide, by decide, by decide, by decide⟩, by decide, by decide⟩

theorem ofNat_mul_one (hle : m ≤ 0x1000000) : ofNat m * one = ofNat m := by
  rcases m.eq_zero_or_pos with rfl | hpos
  · decide
  · obtain ⟨s, e, hnormal, heq, -⟩ := ofNat_eq_exact hpos hle
    rw [heq, exact_mul_one hnormal]

theorem ofNat_div_one (hle : m ≤ 0x1000000) : ofNat m / one = ofNat m := by
  rcases m.eq_zero_or_pos with rfl | hpos
  · decide
  · obtain ⟨s, e, hnormal, heq, -⟩ := ofNat_eq_exact hpos hle
    rw [heq, exact_div_one hnormal]

/-- The significand and the exponent of a natural number, counted from the smallest
exponent that one has. -/
theorem ofNat_eq_scaled (hpos : 0 < m) (hle : m ≤ 0x1000000) :
    ∃ s k : Nat, Normal s ((k : Int) - 23) ∧ ofNat m = exact s (k - 23) ∧
      s * 2 ^ k = m * 2 ^ 23 := by
  rcases hle.lt_or_eq with hlt | rfl
  · obtain ⟨hnormal, heq⟩ := ofNat_of_lt hpos hlt
    have hlog : m.log2 ≤ 23 := Nat.le_of_lt_succ ((Nat.log2_lt hpos.ne').mpr hlt)
    refine ⟨_, m.log2, hnormal, heq, ?_⟩
    rw [Nat.shiftLeft_eq, Nat.mul_assoc, ← Nat.pow_add, Nat.sub_add_cancel hlog]
  · exact ⟨0x800000, 24, ⟨by decide, by decide, by decide, by decide⟩, by decide, by decide⟩

/-- **Products of natural numbers are exact** while they have at most 24 bits. -/
theorem ofNat_mul_ofNat (hm : 0 < m) (hn : 0 < n) (hle : m * n ≤ 0x1000000) :
    ofNat m * ofNat n = ofNat (m * n) := by
  obtain ⟨s, i, hs, heq, hscaled⟩ := ofNat_eq_scaled hm ((Nat.le_mul_of_pos_right m hn).trans hle)
  obtain ⟨t, j, ht, heq', hscaled'⟩ := ofNat_eq_scaled hn ((Nat.le_mul_of_pos_left n hm).trans hle)
  obtain ⟨u, k, hu, hproduct, hscaled''⟩ := ofNat_eq_scaled (Nat.mul_pos hm hn) hle
  -- the product of the significands is the significand of the product, with zeros behind it
  have hvalue : s * t * 2 ^ (i + j) = u * 2 ^ (k + 23) := by
    rw [Nat.pow_add, Nat.mul_mul_mul_comm, hscaled, hscaled', Nat.mul_mul_mul_comm, ← Nat.mul_assoc,
      ← hscaled'', Nat.pow_add, Nat.mul_assoc]
  have hlt : i + j < k + 23 := by
    by_contra hge
    have hlow : 0x800000 * 0x800000 * 2 ^ (k + 23) ≤ s * t * 2 ^ (i + j) :=
      Nat.mul_le_mul (Nat.mul_le_mul hs.above ht.above)
        (Nat.pow_le_pow_right (by decide) (Nat.le_of_not_lt hge))
    rw [hvalue] at hlow
    have := Nat.le_of_mul_le_mul_right hlow (Nat.two_pow_pos _)
    have := hu.below
    omega
  have hzeros : s * t = u <<< (k + 23 - (i + j)) := by
    refine Nat.eq_of_mul_eq_mul_right (Nat.two_pow_pos (i + j)) ?_
    rw [hvalue, Nat.shiftLeft_eq, Nat.mul_assoc, ← Nat.pow_add, Nat.sub_add_cancel hlt.le]
  have hexponent : (k : Int) - 23 - ((k + 23 - (i + j) : Nat) : Int) =
      (i : Int) - 23 + (j - 23) := by
    rw [Nat.cast_sub hlt.le]
    push_cast
    ring
  obtain ⟨hneg, hnan, hinf, -, hsig, hexp⟩ := exact_spec hs
  obtain ⟨hneg', hnan', hinf', -, hsig', hexp'⟩ := exact_spec ht
  change mul _ _ = _
  rw [heq, heq', hproduct, mul, hneg, hnan, hinf, hsig, hexp, hneg', hnan', hinf', hsig',
    hexp', hzeros, ← hexponent]
  exact round_exact hu _

/-- Reading a natural number back, when it has been rounded down. -/
theorem toNatWithin_floor_ofNat {limit : Nat} (hle : m ≤ 0x1000000) (hlimit : m ≤ limit) :
    toNatWithin limit (floor (ofNat m)) = m := by
  have hread : ∀ x : Scalar, x.isNegative = false → x.isNaN = false → x.isInfinite = false →
      x.wholePart = m → toNatWithin limit x = m := by
    intro x hneg hnan hinf hwhole
    rw [toNatWithin, hneg, hnan, hinf, hwhole]
    exact Nat.min_eq_left hlimit
  rcases m.eq_zero_or_pos with rfl | hpos
  · have hzero : floor (ofNat 0) = zero := by decide
    rw [hzero]
    exact hread zero (by decide) (by decide) (by decide) (by decide)
  · obtain ⟨s, e, hnormal, heq, hwhole⟩ := ofNat_eq_exact hpos hle
    obtain ⟨hneg, hnan, hinf, hfinite, -, -⟩ := exact_spec hnormal
    have hfloor : floor (ofNat m) = ofNat m := by
      rw [heq, floor, hneg, Bool.false_and, if_neg Bool.false_ne_true, replaceWhole, hfinite,
        if_pos rfl, hneg, hwhole, ← heq]
      rfl
    rw [hfloor, heq]
    exact hread _ hneg hnan hinf hwhole

end Naturals

end Scalar

/-! ## Axes that are scaled -/

/-- An axis that is scaled by one keeps its extent. -/
theorem Graph.scaledExtent_one {extent : Nat} (h : extent ≤ 0x1000000) :
    scaledExtent extent .one = extent := by
  rw [scaledExtent, Scalar.ofNat_mul_one h]
  exact Scalar.toNatWithin_floor_ofNat h (h.trans (by decide))

/-- An axis that is scaled by a natural number has as many times its extent. -/
theorem Graph.scaledExtent_ofNat {extent stride : Nat} (hextent : 0 < extent) (hstride : 0 < stride)
    (h : extent * stride ≤ 0x1000000) : scaledExtent extent (.ofNat stride) = extent * stride := by
  rw [scaledExtent, Scalar.ofNat_mul_ofNat hextent hstride h]
  exact Scalar.toNatWithin_floor_ofNat h (h.trans (by decide))

/-- Every position on an axis that is scaled by one takes the element that stood there. -/
theorem Tensor.sources_one {extent k : Nat} (hk : k < extent) (h : extent ≤ 0x1000000) :
    (sources .one extent extent)[k]? = some k := by
  have hle : k ≤ 0x1000000 := hk.le.trans h
  have hsource : Scalar.toNatWithin (Word.modulus - 1) (Scalar.floor (Scalar.ofNat k / .one)) =
      k := by
    rw [Scalar.ofNat_div_one hle]
    exact Scalar.toNatWithin_floor_ofNat hle (hle.trans (by decide))
  unfold sources
  rw [Array.getElem?_ofFn, dif_pos hk, hsource]
  exact congrArg some (Nat.min_eq_left (by omega))

end GridNet
