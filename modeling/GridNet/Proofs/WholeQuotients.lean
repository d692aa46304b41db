import GridNet.Proofs.ExactValues

/-!
# Quotients of natural numbers, rounded down

A quotient of two scalars is rounded to the nearest scalar, which may lie above it. Rounding it down
to a whole number afterwards could then give the number behind the right one. For natural numbers of
at most 24 bits it does not: a quotient that is not whole stays away from the next whole number by
more than the rounding moves it.

* `Scalar.ofNat_div_ofNat` — the quotient of two natural numbers, in units and before it is rounded.
* `Scalar.le_rounded`, `Scalar.rounded_lt_whole` — how far rounding moves a value.
* `Scalar.toNatWithin_floor_div` — the whole part of the rounded quotient is the quotient of the
  natural numbers.
* `Tensor.sources_ofNat` — every position on an axis that is scaled by a natural number.
-/

namespace GridNet

namespace Scalar

variable {k s t : Nat}

/-! ## The quotient before rounding -/

theorem isZero_exact {e : Int} (h : Normal s e) : (exact s e).isZero = false := by
  have hmagnitude : (exact s e).magnitude.toNat = (e + 149).toNat * 0x800000 + s :=
    magnitude_ofWord (h.word_lt.trans (by decide))
  have habove := h.above
  rw [isZero, decide_eq_false_iff_not]
  intro hzero
  rw [hzero, UInt32.toNat_zero] at hmagnitude
  omega

/-- The quotient of two exact scalars: 27 bits behind the point, and one more if something
is left over. -/
theorem exact_div_exact {a b : Nat} {e f : Int} (ha : Normal a e) (hb : Normal b f) :
    ∃ r ≤ 1, exact a e / exact b f = round false (2 * (a * 2 ^ 27 / b) + r) (e - f - 28) := by
  obtain ⟨hneg, hnan, hinf, -, hsig, hexp⟩ := exact_spec ha
  obtain ⟨hneg', hnan', hinf', -, hsig', hexp'⟩ := exact_spec hb
  have hlog : a.log2 = 23 := by simpa using log2_normal ha 0
  have hlog' : b.log2 = 23 := by simpa using log2_normal hb 0
  have hne : a ≠ 0 := by have := ha.above; omega
  refine ⟨if a * 2 ^ 27 / b * b = a * 2 ^ 27 then 0 else 1, by split <;> decide, ?_⟩
  change div _ _ = _
  rw [div, hneg, hnan, hinf, hsig, hexp, hneg', hnan', hinf', hsig', hexp', isZero_exact hb]
  simp only [bne_self_eq_false, Bool.or_self, Bool.false_eq_true, if_false]
  unfold BinaryFormat.quotient
  have hwide : BinaryFormat.single.fractionBits + 4 + 23 - 23 = 27 := rfl
  rw [if_neg hne, hlog, hlog', hwide]
  dsimp only
  rw [Nat.shiftLeft_eq, round, show e - f - ((27 : Nat) : Int) - 1 = e - f - 28 by omega]

/-- **The quotient of two natural numbers** as it is rounded: a whole number of places
`2 ^ (D + 1)`, in units, and half a place more if something is left over. The place is small against
the quotient. -/
theorem ofNat_div_ofNat (hk : 0 < k) (hk' : k ≤ 0x1000000) (hs : 0 < s) (hs' : s ≤ 0x1000000) :
    ∃ D r : Nat, r ≤ 1 ∧ D ≤ 145 ∧ 2 ^ D * s ≤ k * 2 ^ 122 ∧
      ofNat k / ofNat s = round false (2 * (k * 2 ^ 149 / (s * 2 ^ (D + 1))) + r)
        ((D : Int) - 149) := by
  obtain ⟨a, i, ha, heq, hscaled⟩ := ofNat_eq_scaled hk hk'
  obtain ⟨b, j, hb, heq', hscaled'⟩ := ofNat_eq_scaled hs hs'
  obtain ⟨r, hr, hquotient⟩ := exact_div_exact ha hb
  -- the exponents are those of the first bits
  have hi : 2 ^ i ≤ k := by
    have hlow : 2 ^ 23 * 2 ^ i ≤ a * 2 ^ i := Nat.mul_le_mul_right _ ha.above
    omega
  have hj : s ≤ 2 ^ j * 2 := by
    have hhigh : b * 2 ^ j ≤ 2 ^ 24 * 2 ^ j := Nat.mul_le_mul_right _ hb.below.le
    omega
  have hi' : i ≤ 24 := (Nat.pow_le_pow_iff_right (by decide)).mp (hi.trans hk')
  have hj' : j ≤ 24 := by
    have hlow : 2 ^ 23 * 2 ^ j ≤ b * 2 ^ j := Nat.mul_le_mul_right _ hb.above
    exact (Nat.pow_le_pow_iff_right (a := 2) (by decide)).mp (by omega)
  refine ⟨i + 121 - j, r, hr, by omega, ?_, ?_⟩
  · calc 2 ^ (i + 121 - j) * s ≤ 2 ^ (i + 121 - j) * (2 ^ j * 2) := Nat.mul_le_mul_left _ hj
      _ = 2 ^ i * 2 ^ 122 := by
        rw [← Nat.pow_succ, ← Nat.pow_add, ← Nat.pow_add, show i + 121 - j + (j + 1) =
          i + 122 by omega]
      _ ≤ k * 2 ^ 122 := Nat.mul_le_mul_right _ hi
  · have hcross : a * 2 ^ 27 * (s * 2 ^ (i + 121 - j + 1)) = k * 2 ^ 149 * b := by
      refine Nat.eq_of_mul_eq_mul_right (Nat.two_pow_pos j) ?_
      calc a * 2 ^ 27 * (s * 2 ^ (i + 121 - j + 1)) * 2 ^ j
        _ = a * 2 ^ 27 * s * 2 ^ (i + 121 - j + 1 + j) := by rw [Nat.pow_add]; ring
        _ = a * 2 ^ i * s * 2 ^ 149 := by
          rw [show i + 121 - j + 1 + j = i + 122 by omega, Nat.pow_add]; ring
        _ = k * 2 ^ 149 * (b * 2 ^ j) := by rw [hscaled, hscaled']; ring
        _ = k * 2 ^ 149 * b * 2 ^ j := (Nat.mul_assoc _ _ _).symm
    have hsame : a * 2 ^ 27 / b = k * 2 ^ 149 / (s * 2 ^ (i + 121 - j + 1)) := by
      have hb₀ : 0 < b := by have := hb.above; omega
      have hplace : 0 < s * 2 ^ (i + 121 - j + 1) := Nat.mul_pos hs (Nat.two_pow_pos _)
      rw [← Nat.mul_div_mul_right _ _ hplace, hcross, Nat.mul_comm b, Nat.mul_div_mul_right _ _ hb₀]
    rw [heq, heq', hquotient, hsame]
    congr 1
    omega

/-! ## How far rounding moves a value -/

theorem log2_lt_of_lt {n : Nat} (hn : 0 < n) (h : t < 2 ^ n) : t.log2 < n := by
  rcases eq_or_ne t 0 with rfl | hne
  · exact hn
  · exact (Nat.log2_lt hne).mpr h

/-- What is not below a multiple of its last place is not rounded below it. -/
theorem le_rounded {n p : Nat} (h : n * 2 ^ p ≤ t) (hp : t.log2 - 23 ≤ p) :
    n * 2 ^ p ≤ rounded t := by
  have hsplit : n * 2 ^ p = n * 2 ^ (p - (t.log2 - 23)) * 2 ^ (t.log2 - 23) := by
    rw [Nat.mul_assoc, ← Nat.pow_add, Nat.sub_add_cancel hp]
  rw [hsplit] at h ⊢
  refine Nat.mul_le_mul_right _ ?_
  have hquotient := (Nat.le_div_iff_mul_le (Nat.two_pow_pos _)).mpr h
  rw [shiftRoundEven_eq]
  split
  · exact Nat.le_succ_of_le hquotient
  · exact hquotient

/-- What stays below a whole number by more than half of its last place is not rounded up to it. -/
theorem rounded_lt_whole {N e : Nat} (hN : N ≤ 2 ^ e) (ht : t + 2 ^ (e + 124) < N * 2 ^ 149) :
    rounded t < N * 2 ^ 149 := by
  have hround := two_mul_rounded_le t
  have hlast : 2 ^ (t.log2 - 23) ≤ 2 ^ (e + 124) * 2 := by
    rw [← Nat.pow_succ]
    refine Nat.pow_le_pow_right (by decide) ?_
    have hhigh : N * 2 ^ 149 ≤ 2 ^ (e + 149) := by
      rw [Nat.pow_add]
      exact Nat.mul_le_mul_right _ hN
    have hlog := log2_lt_of_lt (by omega) (((Nat.le_add_right t _).trans_lt ht).trans_le hhigh)
    omega
  omega

/-! ## Between two whole numbers -/

section Bounds

variable {W M N D r : Nat}

theorem whole_le_quotient (hs : 0 < s) (hD : D ≤ 145) (h : W * s ≤ k) :
    W * 2 ^ 149 ≤ (2 * (k * 2 ^ 149 / (s * 2 ^ (D + 1))) + r) * 2 ^ D := by
  have hplaces : W * 2 ^ (148 - D) ≤ k * 2 ^ 149 / (s * 2 ^ (D + 1)) := by
    rw [Nat.le_div_iff_mul_le (Nat.mul_pos hs (Nat.two_pow_pos _))]
    calc W * 2 ^ (148 - D) * (s * 2 ^ (D + 1)) = W * s * (2 ^ (148 - D) * 2 ^ (D + 1)) :=
          Nat.mul_mul_mul_comm ..
      _ = W * s * 2 ^ 149 := by rw [← Nat.pow_add, show 148 - D + (D + 1) = 149 by omega]
      _ ≤ k * 2 ^ 149 := Nat.mul_le_mul_right _ h
  calc W * 2 ^ 149 = 2 * (W * 2 ^ (148 - D)) * 2 ^ D := by
        rw [show 149 = 148 - D + (D + 1) by omega, Nat.pow_add, Nat.pow_succ]
        ring
    _ ≤ (2 * (k * 2 ^ 149 / (s * 2 ^ (D + 1))) + r) * 2 ^ D := by
        refine Nat.mul_le_mul_right _ ?_
        omega

/-- A quotient below a number of whole places stays below it, whatever was left over. -/
theorem quotient_lt_places (hs : 0 < s) (hr : r ≤ 1) (h : k * 2 ^ 149 < M * 2 ^ (D + 1) * s) :
    (2 * (k * 2 ^ 149 / (s * 2 ^ (D + 1))) + r) * 2 ^ D < M * 2 ^ (D + 1) := by
  have hplaces : k * 2 ^ 149 / (s * 2 ^ (D + 1)) < M := by
    rw [Nat.div_lt_iff_lt_mul (Nat.mul_pos hs (Nat.two_pow_pos _))]
    calc k * 2 ^ 149 < M * 2 ^ (D + 1) * s := h
      _ = M * (s * 2 ^ (D + 1)) := by rw [Nat.mul_assoc, Nat.mul_comm (2 ^ (D + 1))]
  calc (2 * (k * 2 ^ 149 / (s * 2 ^ (D + 1))) + r) * 2 ^ D < 2 * M * 2 ^ D :=
        Nat.mul_lt_mul_of_pos_right (by omega) (Nat.two_pow_pos D)
    _ = M * 2 ^ (D + 1) := by
        rw [Nat.pow_succ]
        ring

/-- The first power of two that is not below a whole number. -/
theorem exists_two_pow (hN : 0 < N) : ∃ e, N ≤ 2 ^ e ∧ 2 ^ e < 2 * N := by
  have hbelow : 2 ^ (2 * N - 1).log2 ≤ 2 * N - 1 := Nat.log2_self_le (by omega)
  have habove : 2 * N - 1 < 2 ^ ((2 * N - 1).log2 + 1) := Nat.lt_log2_self
  rw [Nat.pow_succ] at habove
  exact ⟨(2 * N - 1).log2, by omega, by omega⟩

/-- The quotient stays below the next whole number by **more than half of its last place**. -/
theorem quotient_lt_whole (hs : 0 < s) (hr : r ≤ 1) (hD : D ≤ 145)
    (hplace : 2 ^ D * s ≤ k * 2 ^ 122) (hk : k < N * s) (hle : N * s ≤ 0x1000000) :
    ∃ e, N ≤ 2 ^ e ∧ (2 * (k * 2 ^ 149 / (s * 2 ^ (D + 1))) + r) * 2 ^ D + 2 ^ (e + 124) <
      N * 2 ^ 149 := by
  have hN : 0 < N := Nat.pos_of_mul_pos_right (Nat.zero_lt_of_lt hk)
  obtain ⟨e, hlow, hhigh⟩ := exists_two_pow hN
  have hDe : D < e + 122 := by
    refine (Nat.pow_lt_pow_iff_right (a := 2) (by decide)).mp
      (Nat.lt_of_mul_lt_mul_right (a := s) ?_)
    calc 2 ^ D * s ≤ k * 2 ^ 122 := hplace
      _ < 2 ^ e * s * 2 ^ 122 :=
        Nat.mul_lt_mul_of_pos_right (hk.trans_le (Nat.mul_le_mul_right _ hlow)) (Nat.two_pow_pos _)
      _ = 2 ^ (e + 122) * s := by rw [Nat.pow_add, Nat.mul_right_comm]
  have hslack : 2 ^ (e + 124) * s < 2 ^ 149 := by
    have hsmall : 2 ^ e * s < 2 ^ 25 := by
      have := Nat.mul_lt_mul_of_pos_right hhigh hs
      rw [Nat.mul_assoc] at this
      omega
    calc 2 ^ (e + 124) * s = 2 ^ e * s * 2 ^ 124 := by rw [Nat.pow_add, Nat.mul_right_comm]
      _ < 2 ^ 25 * 2 ^ 124 := Nat.mul_lt_mul_of_pos_right hsmall (Nat.two_pow_pos _)
      _ = 2 ^ 149 := by decide
  -- half a last place below the whole number there is a number of whole places
  have hplaces : (N * 2 ^ (148 - D) - 2 ^ (e + 123 - D)) * 2 ^ (D + 1) = N * 2 ^ 149 - 2 ^
      (e + 124) := by
    rw [Nat.sub_mul, Nat.mul_assoc, ← Nat.pow_add, ← Nat.pow_add,
      show 148 - D + (D + 1) = 149 by omega,
      show e + 123 - D + (D + 1) = e + 124 by omega]
  have hbelow : k * 2 ^ 149 < (N * 2 ^ 149 - 2 ^ (e + 124)) * s := by
    rw [Nat.sub_mul, Nat.mul_right_comm]
    omega
  have hquotient := quotient_lt_places (M := N * 2 ^ (148 - D) - 2 ^ (e + 123 - D)) hs hr
    (by rwa [hplaces])
  rw [hplaces] at hquotient
  exact ⟨e, hlow, Nat.add_lt_of_lt_sub hquotient⟩

end Bounds

/-! ## Whole parts -/

/-- A number that is not negative is rounded down to its whole part. -/
theorem toNatWithin_floor {x : Scalar} {limit : Nat} (hx : x.isFinite = true)
    (hneg : x.isNegative = false)
    (hwhole : x.wholePart ≤ 0x1000000) (hlimit : x.wholePart ≤ limit) :
    toNatWithin limit (floor x) = x.wholePart := by
  have hfloor : floor x = ofNat x.wholePart := by
    rw [floor, hneg, Bool.false_and, if_neg Bool.false_ne_true, replaceWhole, hx, if_pos rfl, hneg]
    rfl
  rw [hfloor, toNatWithin_ofNat hwhole]
  exact Nat.min_eq_left hlimit

theorem wholePart_of_units {x : Scalar} {u : Nat} (hneg : x.isNegative = false) (hu : x.units = u) :
    x.wholePart = u / 2 ^ 149 := by
  rw [units, signed, hneg, if_neg Bool.false_ne_true] at hu
  rw [wholePart_eq]
  congr 1
  exact_mod_cast hu

/-- The whole part of a quotient is the quotient of the whole numbers. -/
theorem wholePart_div (hk : 0 < k) (hs : 0 < s) (hle : (k / s + 1) * s ≤ 0x1000000) :
    (ofNat k / ofNat s).isFinite = true ∧ (ofNat k / ofNat s).isNegative = false ∧
      (ofNat k / ofNat s).wholePart = k / s := by
  have hnext : k < (k / s + 1) * s := by
    rw [Nat.mul_comm]
    exact Nat.lt_mul_div_succ k hs
  have hs' : s ≤ 0x1000000 := (Nat.le_mul_of_pos_left s (Nat.succ_pos _)).trans hle
  have hwhole : k / s + 1 ≤ 0x1000000 := (Nat.le_mul_of_pos_right _ hs).trans hle
  obtain ⟨D, r, hr, hD, hplace, hquotient⟩ := ofNat_div_ofNat hk (hnext.le.trans hle) hs hs'
  have hlow := whole_le_quotient (r := r) hs hD (Nat.div_mul_le_self k s)
  obtain ⟨e, he, hhigh⟩ := quotient_lt_whole hs hr hD hplace hnext hle
  obtain ⟨t, ht⟩ : ∃ t, (2 * (k * 2 ^ 149 / (s * 2 ^ (D + 1))) + r) * 2 ^ D = t := ⟨_, rfl⟩
  rw [ht] at hlow hhigh
  -- the value before rounding is far below the largest scalar
  have hlarge : t < 2 ^ 173 := by
    calc t ≤ t + 2 ^ (e + 124) := Nat.le_add_right _ _
      _ < (k / s + 1) * 2 ^ 149 := hhigh
      _ ≤ 2 ^ 24 * 2 ^ 149 := Nat.mul_le_mul_right _ hwhole
      _ = 2 ^ 173 := by decide
  obtain ⟨hfinite, hunits⟩ := units_round false (m := 2 * (k * 2 ^ 149 / (s * 2 ^ (D + 1))) + r)
    (e := (D : Int) - 149) (t := t) (by omega) (by rw [Int.sub_add_cancel, Int.toNat_natCast, ht])
    (hlarge.trans (by decide))
  rw [← hquotient] at hfinite hunits
  have hneg : (ofNat k / ofNat s).isNegative = false := hquotient ▸ isNegative_round _ _
  refine ⟨hfinite, hneg, ?_⟩
  rw [wholePart_of_units hneg hunits]
  have hlog : t.log2 - 23 ≤ 149 := by
    have := log2_lt_of_lt (by decide) hlarge
    omega
  exact Nat.div_eq_of_lt_le (le_rounded hlow hlog) (rounded_lt_whole he hhigh)

/-- **Dividing and rounding down** natural numbers: the whole part of the rounded quotient is that
of the exact one. -/
theorem toNatWithin_floor_div {limit : Nat} (hs : 0 < s) (hle : (k / s + 1) * s ≤ 0x1000000)
    (hlimit : 0x1000000 ≤ limit) : toNatWithin limit (floor (ofNat k / ofNat s)) = k / s := by
  have hwhole : k / s ≤ 0x1000000 :=
    (Nat.le_succ _).trans ((Nat.le_mul_of_pos_right _ hs).trans hle)
  rcases k.eq_zero_or_pos with rfl | hk
  · have hzero : ofNat 0 / ofNat s = zero := by
      obtain ⟨b, j, hb, heq, -⟩ :=
        ofNat_eq_scaled hs ((Nat.le_mul_of_pos_left s (Nat.succ_pos _)).trans hle)
      obtain ⟨hneg, hnan, hinf, -, -, -⟩ := exact_spec hb
      change div _ _ = _
      rw [heq, div, hneg, hnan, hinf, isZero_exact hb]
      rfl
    rw [hzero, Nat.zero_div]
    exact toNatWithin_floor (x := zero) (by decide) (by decide) (by decide) (Nat.zero_le limit)
  · obtain ⟨hfinite, hneg, hpart⟩ := wholePart_div hk hs hle
    rw [← hpart] at hwhole ⊢
    exact toNatWithin_floor hfinite hneg hwhole (hwhole.trans hlimit)

end Scalar

/-- **Every position on an axis that is scaled by a natural number** takes the element of
the quotient. -/
theorem Tensor.sources_ofNat {extent stride k : Nat} (hstride : 0 < stride)
    (h : extent * stride ≤ 0x1000000)
    (hk : k < extent * stride) :
    (sources (.ofNat stride) extent (extent * stride))[k]? = some (k / stride) := by
  have hlt : k / stride < extent := (Nat.div_lt_iff_lt_mul hstride).mpr hk
  have hsource : Scalar.toNatWithin (Word.modulus - 1)
      (Scalar.floor (Scalar.ofNat k / .ofNat stride)) = k / stride :=
    Scalar.toNatWithin_floor_div hstride ((Nat.mul_le_mul_right _ hlt).trans h) (by decide)
  unfold sources
  rw [Array.getElem?_ofFn, dif_pos hk, hsource]
  exact congrArg some (Nat.min_eq_left (by omega))

end GridNet
