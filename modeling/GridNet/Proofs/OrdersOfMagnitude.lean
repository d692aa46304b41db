import GridNet.Proofs.WholeQuotients

/-!
# Orders of magnitude

Products and quotients of natural numbers are rounded, and what they come to exactly says little.
That they are finite and not zero follows from their order of magnitude alone: exponents are added
or subtracted, and rounding moves them by one at most.

* `Scalar.OfOrder` — the first bit of a scalar is close to the point.
* `Scalar.ofOrder_ofNat`, `Scalar.OfOrder.div`, `Scalar.OfOrder.mul` — what natural numbers,
  quotients and products come to.
* `Scalar.neg_mul_eq_neg`, `Scalar.product_cancels` — signs of products, and sums that cancel.
-/

namespace GridNet.Scalar

variable {x y : Scalar} {k a b m n : Nat} {e : Int}

/-- A scalar above zero **of an order of magnitude**: so many places at most lie between its first
bit and the point. -/
def OfOrder (k : Nat) (x : Scalar) : Prop :=
  ∃ s e, Normal s e ∧ -(k : Int) ≤ e + 23 ∧ e + 23 ≤ k ∧ x = exact s e

theorem OfOrder.isFinite (h : OfOrder k x) : x.isFinite = true := by
  obtain ⟨s, e, hnormal, -, -, rfl⟩ := h
  exact (exact_spec hnormal).2.2.2.1

theorem OfOrder.mono (h : OfOrder k x) (hle : k ≤ n) : OfOrder n x := by
  obtain ⟨s, e, hnormal, hlow, hhigh, heq⟩ := h
  exact ⟨s, e, hnormal, by omega, by omega, heq⟩

theorem ofOrder_one : OfOrder 0 one :=
  ⟨0x800000, -23, normal_one, by decide, by decide, one_eq_exact⟩

/-- What a value is rounded to is of its order, or of the next one. -/
theorem ofOrder_round (hm : m ≠ 0) (he : -149 ≤ e) (hk : k ≤ 123) (hlow : -(k : Int) ≤ m.log2 + e)
    (hhigh : m.log2 + e + 1 ≤ k) : OfOrder k (round false m e) := by
  obtain ⟨t, ht⟩ : ∃ t, m * 2 ^ (e + 149).toNat = t := ⟨_, rfl⟩
  have hlog : t.log2 = m.log2 + (e + 149).toNat := ht ▸ log2_mul_two_pow hm _
  obtain ⟨hplaces, hlast⟩ := places_spec t
  have hword := magnitude_eq hm he ht
  obtain ⟨s, hs⟩ : ∃ s, t.log2 - 23 = s := ⟨_, rfl⟩
  rw [hs] at hplaces hlast hword
  have hfull : 0x800000 ≤ shiftRoundEven t s := hplaces.resolve_left (by omega)
  have hround : round false m e = ofWord false (s * 0x800000 + shiftRoundEven t s) := by
    rw [round, hword]
    exact congrArg (ofWord false) (Nat.min_eq_left (by omega))
  rcases hlast.lt_or_eq with hsame | hnext
  · refine ⟨shiftRoundEven t s, (s : Int) - 149,
      ⟨hfull, hsame, by omega, by omega⟩, by omega, by omega, ?_⟩
    rw [hround, exact, Int.sub_add_cancel, Int.toNat_natCast]
  · -- the value has been rounded up to a power of two
    refine ⟨0x800000, (s : Int) - 148,
      ⟨by decide, by decide, by omega, by omega⟩, by omega, by omega, ?_⟩
    rw [hround, hnext, exact, show ((s : Int) - 148 + 149).toNat = s + 1 by omega]
    exact congrArg (ofWord false) (by omega)

theorem ofOrder_ofNat (hpos : 0 < n) (hn : n < 2 ^ k) (hk : k ≤ 123) : OfOrder k (ofNat n) := by
  have hlog : n.log2 < k := (Nat.log2_lt hpos.ne').mpr hn
  exact ofOrder_round hpos.ne' (by decide) hk (by omega) (by omega)

theorem OfOrder.div (h : OfOrder a x) (h' : OfOrder b y) (hab : a + b ≤ 121) :
    OfOrder (a + b + 1) (x / y) := by
  obtain ⟨s, e, hs, hlow, hhigh, rfl⟩ := h
  obtain ⟨t, f, ht, hlow', hhigh', rfl⟩ := h'
  obtain ⟨r, hr, hquotient⟩ := exact_div_exact hs ht
  have hpos : 0 < t := Nat.zero_lt_of_lt ht.above
  have hbelow : 2 ^ 26 ≤ s * 2 ^ 27 / t := by
    rw [Nat.le_div_iff_mul_le hpos]
    have := hs.above
    have := ht.below
    omega
  have habove : s * 2 ^ 27 / t < 2 ^ 28 := by
    rw [Nat.div_lt_iff_lt_mul hpos]
    have := hs.below
    have := ht.above
    omega
  have hne : 2 * (s * 2 ^ 27 / t) + r ≠ 0 := by omega
  have hlog : 27 ≤ (2 * (s * 2 ^ 27 / t) + r).log2 := (Nat.le_log2 hne).mpr (by omega)
  have hlog' : (2 * (s * 2 ^ 27 / t) + r).log2 < 29 := (Nat.log2_lt hne).mpr (by omega)
  rw [hquotient]
  exact ofOrder_round hne (by omega) (by omega) (by omega) (by omega)

theorem OfOrder.mul (h : OfOrder a x) (h' : OfOrder b y) (hab : a + b ≤ 103) :
    OfOrder (a + b + 2) (x * y) := by
  obtain ⟨s, e, hs, hlow, hhigh, rfl⟩ := h
  obtain ⟨t, f, ht, hlow', hhigh', rfl⟩ := h'
  obtain ⟨hneg, hnan, hinf, -, hsig, hexp⟩ := exact_spec hs
  obtain ⟨hneg', hnan', hinf', -, hsig', hexp'⟩ := exact_spec ht
  have hproduct : exact s e * exact t f = round false (s * t) (e + f) := by
    change mul _ _ = _
    rw [mul, hneg, hnan, hinf, hsig, hexp, hneg', hnan', hinf', hsig', hexp']
    rfl
  have hbelow : 0x800000 * 0x800000 ≤ s * t := Nat.mul_le_mul hs.above ht.above
  have habove : s * t < 0x1000000 * 0x1000000 := Nat.mul_lt_mul'' hs.below ht.below
  have hne : s * t ≠ 0 := by omega
  have hlog : 46 ≤ (s * t).log2 := (Nat.le_log2 hne).mpr hbelow
  have hlog' : (s * t).log2 < 48 := (Nat.log2_lt hne).mpr habove
  rw [hproduct]
  exact ofOrder_round hne (by omega) (by omega) (by omega) (by omega)

theorem OfOrder.min (h : OfOrder k x) (h' : OfOrder k y) : OfOrder k (x.min y) := by
  rw [Scalar.min]
  split
  · exact h'
  · split
    · exact h'
    · exact h

/-! ## Signs of products -/

theorem neg_ofWord (negative : Bool) {w : Nat} (h : w < 0x80000000) :
    -ofWord negative w = ofWord (!negative) w := by
  obtain ⟨hmagnitude, hsign⟩ := magnitude_ofWord_signed negative h
  have hword : (ofWord negative w).magnitude = w.toUInt32 :=
    UInt32.toNat_inj.mp (hmagnitude.trans (UInt32.toNat_ofNat_of_lt' (h.trans (by decide))).symm)
  change neg _ = _
  rw [neg, hword, hsign]
  cases negative <;> simp [ofWord, UInt32.add_comm]

theorem isInfinite_neg (x : Scalar) : (-x).isInfinite = x.isInfinite := by
  rw [isInfinite, (neg_spec x).1, isInfinite]

theorem significand_neg (x : Scalar) : (-x).significand = x.significand := by
  rw [significand, significand, exponentField, exponentField, (neg_spec x).1]

theorem exponent_neg (x : Scalar) : (-x).exponent = x.exponent := by
  rw [exponent, exponent, exponentField, exponentField, (neg_spec x).1]

/-- **The sign of a factor** is that of the product. -/
theorem neg_mul_eq_neg (hx : x.isFinite = true) (hy : y.isFinite = true) : -x * y = -(x * y) := by
  change mul _ _ = -mul _ _
  rw [mul, mul, isNaN_neg, isInfinite_neg, isNaN_of_isFinite hx, isNaN_of_isFinite hy,
    isInfinite_of_isFinite hx,
    isInfinite_of_isFinite hy, (neg_spec x).2, significand_neg, exponent_neg]
  simp only [Bool.or_self, Bool.false_eq_true, if_false]
  rw [round, round, neg_ofWord _ ((magnitude_le _ _).trans_lt (by decide))]
  cases x.isNegative <;> cases y.isNegative <;> rfl

/-! ## Sums that cancel -/

theorem signed_neg (x : Scalar) : (-x).signed = -x.signed := by
  rw [signed, signed, (neg_spec x).2, significand_neg]
  cases x.isNegative <;> simp

theorem roundSum_cancel {i j : Int} (h : i + j = 0) (e : Int) : roundSum i e j e false = zero := by
  have htotal : i * (1 <<< (e - e).toNat : Nat) + j * (1 <<< (e - e).toNat : Nat) = 0 := by
    rw [← add_mul, h, zero_mul]
  simp only [roundSum, ite_self, htotal, if_true]
  decide

/-- **A number and its opposite** come to the zero without a sign, in whichever order they
are added. -/
theorem add_neg_cancels (hx : x.isFinite = true) : x + -x = zero ∧ -x + x = zero := by
  refine ⟨?_, ?_⟩
  · change add _ _ = _
    rw [add, isNaN_neg, isInfinite_neg, isNaN_of_isFinite hx, isInfinite_of_isFinite hx,
      signed_neg, exponent_neg, (neg_spec x).2, Bool.and_not_self]
    exact roundSum_cancel (by omega) _
  · change add _ _ = _
    rw [add, isNaN_neg, isInfinite_neg, isNaN_of_isFinite hx, isInfinite_of_isFinite hx,
      signed_neg, exponent_neg, (neg_spec x).2, Bool.not_and_self]
    exact roundSum_cancel (by omega) _

/-- A product cancels with that of the opposite factor. -/
theorem product_cancels (hx : x.isFinite = true) (hy : y.isFinite = true)
    (hxy : (x * y).isFinite = true) :
    x * y + -x * y = zero ∧ -x * y + x * y = zero := by
  rw [neg_mul_eq_neg hx hy]
  exact add_neg_cancels hxy

end GridNet.Scalar
