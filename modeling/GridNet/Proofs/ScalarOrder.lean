import GridNet.Scalar.Basic
import Mathlib.Data.Int.Order.Basic
import Mathlib.Order.Nat

/-!
# The order of scalars

Numbers are compared by their keys, in which the two zeros are one. A missing number is neither
below nor above anything, not even itself, so every comparison that holds also says that there are
two numbers to compare.

* `Scalar.le_iff`, `Scalar.lt_iff` — comparisons as comparisons of keys.
* `Scalar.max_cases` — which of two numbers is the larger one.
* `Scalar.clamp_between` — what a number is clamped to.
* `Scalar.not_below_iff` — a finite number that has reached a bound.
* `Scalar.isFinite_of_between` — between finite numbers there are only finite ones.
-/

namespace GridNet.Scalar

variable {x y z low high : Scalar}

/-! ## Comparisons -/

theorem le_iff : x.le y = true ↔ x.isNaN = false ∧ y.isNaN = false ∧ x.key ≤ y.key := by
  simp [le, and_assoc]

theorem lt_iff : x.lt y = true ↔ x.isNaN = false ∧ y.isNaN = false ∧ x.key < y.key := by
  simp [lt, and_assoc]

theorem same_iff : x.same y = true ↔ x.isNaN = false ∧ y.isNaN = false ∧ x.key = y.key := by
  simp [same, and_assoc]

theorem le_refl (hx : x.isNaN = false) : x.le x = true :=
  le_iff.mpr ⟨hx, hx, Int.le_refl _⟩

theorem le_trans (h : x.le y = true) (h' : y.le z = true) : x.le z = true := by
  rw [le_iff] at h h' ⊢
  exact ⟨h.1, h'.2.1, h.2.2.trans h'.2.2⟩

theorem le_of_lt (h : x.lt y = true) : x.le y = true := by
  rw [lt_iff] at h
  exact le_iff.mpr ⟨h.1, h.2.1, h.2.2.le⟩

theorem lt_of_le_of_lt (h : x.le y = true) (h' : y.lt z = true) : x.lt z = true := by
  rw [le_iff] at h
  rw [lt_iff] at h' ⊢
  exact ⟨h.1, h'.2.1, h.2.2.trans_lt h'.2.2⟩

/-- Of two numbers, the one is below the other, or not below it. -/
theorem not_lt_iff (hx : x.isNaN = false) (hy : y.isNaN = false) :
    ¬ x.lt y = true ↔ y.le x = true := by
  simp [lt_iff, le_iff, hx, hy]

/-- Of two numbers, one is taken, and it is not below the other. -/
theorem max_cases (hx : x.isNaN = false) (hy : y.isNaN = false) :
    (x.max y = x ∧ y.le x = true) ∨ (x.max y = y ∧ x.le y = true) := by
  rw [Scalar.max, if_neg (Bool.eq_false_iff.mp hx)]
  by_cases hlt : x.lt y = true
  · rw [if_pos hlt]
    exact .inr ⟨rfl, le_of_lt hlt⟩
  · rw [if_neg hlt]
    exact .inl ⟨rfl, (not_lt_iff hx hy).mp hlt⟩

/-! ## Between two bounds -/

/-- A number that has been clamped lies between the bounds. -/
theorem clamp_between (hx : x.isNaN = false) (h : low.le high = true) :
    low.le (x.clamp low high) = true ∧ (x.clamp low high).le high = true := by
  obtain ⟨hlow, hhigh, -⟩ := le_iff.mp h
  unfold clamp
  by_cases hbelow : x.lt low = true
  · rw [if_pos hbelow, if_neg ((not_lt_iff hhigh hlow).mpr h)]
    exact ⟨le_refl hlow, h⟩
  · rw [if_neg hbelow]
    by_cases habove : high.lt x = true
    · rw [if_pos habove]
      exact ⟨h, le_refl hhigh⟩
    · rw [if_neg habove]
      exact ⟨(not_lt_iff hx hlow).mp hbelow, (not_lt_iff hhigh hx).mp habove⟩

/-- A missing number stays missing. -/
theorem clamp_of_isNaN (hx : x.isNaN = true) (low high : Scalar) : x.clamp low high = x := by
  simp [clamp, lt, hx]

theorem isFinite_iff : x.isFinite = true ↔ x.magnitude.toNat < 0x7f800000 := by
  rw [isFinite, decide_eq_true_eq, UInt32.lt_iff_toNat_lt]
  rfl

theorem isNaN_of_isFinite (h : x.isFinite = true) : x.isNaN = false := by
  rw [isFinite_iff] at h
  rw [isNaN, decide_eq_false_iff_not, UInt32.lt_iff_toNat_lt]
  exact Nat.not_lt.mpr h.le

theorem isInfinite_of_isFinite (h : x.isFinite = true) : x.isInfinite = false := by
  rw [isFinite_iff] at h
  rw [isInfinite, decide_eq_false_iff_not]
  exact fun heq => absurd (heq ▸ h) (by decide)

/-- A finite number that is not below a bound has reached it, or there is no bound. -/
theorem not_below_iff (x bound : Scalar) : (x.isFinite && !x.lt bound) = true ↔
    x.isFinite = true ∧ (bound.isNaN = true ∨ bound.le x = true) := by
  rw [Bool.and_eq_true, Bool.not_eq_true', ← Bool.not_eq_true]
  refine and_congr_right fun hfinite => ?_
  by_cases hmissing : bound.isNaN = true
  · simp [lt, hmissing]
  · rw [not_lt_iff (isNaN_of_isFinite hfinite) (Bool.eq_false_iff.mpr hmissing)]
    simp [hmissing]

theorem key_zero : zero.key = 0 := rfl

/-- What is not below zero has no sign, or is a zero. -/
theorem key_of_nonneg (h : 0 ≤ x.key) : x.key = x.magnitude.toNat := by
  unfold key at h ⊢
  split at h
  · next hneg =>
    rw [if_pos hneg]
    omega
  · next hneg => rw [if_neg hneg]

/-- What lies between zero and a finite number is finite. -/
theorem isFinite_of_between (hlow : zero.le x = true) (hhigh : x.le y = true)
    (hy : y.isFinite = true) :
    x.isFinite = true := by
  obtain ⟨-, -, hlow⟩ := le_iff.mp hlow
  obtain ⟨-, -, hhigh⟩ := le_iff.mp hhigh
  rw [key_zero] at hlow
  have hkey := key_of_nonneg hlow
  have hkey' := key_of_nonneg (hlow.trans hhigh)
  rw [isFinite_iff] at hy ⊢
  omega

end GridNet.Scalar
