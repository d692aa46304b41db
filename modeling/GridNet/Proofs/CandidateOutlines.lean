import GridNet.Detection.Outline
import GridNet.Proofs.KeptRows
import GridNet.Proofs.NearestWholes

/-!
# Outlines of candidates

The corners of a candidate are cut to the last pixel of a picture before they are rounded, and the
distance of the cut corners is rounded apart from them. Both may be rounded up, so that position and
side together come to one more than the last pixel, which is the extent of the picture, and to no
more than that. What is no number starts at zero and is a pixel wide.

* `Scalar.toInt32` — a number read with its sign.
* `Outline.position_add_side_le` — on one axis, position and side stay within the extent.
* `Outline.ofCandidate_inside` — every candidate has an outline inside the picture.
-/

namespace GridNet

namespace Scalar

variable {x : Scalar}

/-- A scalar read as an integer of 32 bits, one of which is the sign: cut at both ends, and zero for
what is no number. -/
def toInt32 (x : Scalar) : Int :=
  if x.isNegative then -(toNatWithin (Word.modulus32 / 2) (-x) : Int)
    else toNatWithin (Word.modulus32 / 2 - 1) x

theorem toNatWithin_of_isNaN (limit : Nat) (hx : x.isNaN = true) : toNatWithin limit x = 0 := by
  rw [toNatWithin, hx]
  rfl

theorem nearest_of_isNaN (hx : x.isNaN = true) : x.nearest = x := by
  have hinfinite : ¬ x.isFinite = true := fun hfinite => by
    rw [isNaN_of_isFinite hfinite] at hx
    exact Bool.false_ne_true hx
  rw [nearest, replaceWhole, if_neg hinfinite]

theorem max_one_of_le (h : one.le x = true) : x.max one = x := by
  have hnumber : x.isNaN = false := (le_iff.mp h).2.1
  rw [Scalar.max, if_neg (Bool.eq_false_iff.mp hnumber),
    if_neg ((not_lt_iff hnumber (by decide)).mpr h)]

/-- What is below one becomes one, and so does what is no number. -/
theorem max_one_of_not_le (h : ¬ one.le x = true) : x.max one = one := by
  rw [Scalar.max]
  split
  · rfl
  · next hnumber =>
    refine if_pos (by_contra fun hreached => h ?_)
    exact (not_lt_iff (Bool.eq_false_iff.mpr hnumber) (by decide)).mp hreached

end Scalar

namespace Outline

/-- An outline lies **inside an extent**: it has a pixel at least, and it does not pass the right
and the lower end. -/
structure Inside (extent : Size) (o : Outline) : Prop where
  one_le_width : 1 ≤ o.width
  one_le_height : 1 ≤ o.height
  right_le : o.left + o.width ≤ extent.width
  bottom_le : o.top + o.height ≤ extent.height

/-! ## One axis -/

section Axis

variable {n a : Nat} {x y : Scalar}

theorem position_of_isNaN (hx : x.isNaN = true) : position x = 0 := by
  rw [position, Scalar.nearest_of_isNaN hx]
  exact Scalar.toNatWithin_of_isNaN _ hx

theorem position_of_units (hn : n < 0x800000) (hx : x.isFinite = true) (hu : x.units = a)
    (ha : a ≤ n * 2 ^ 149) :
    position x = (a + 2 ^ 148) / 2 ^ 149 := by
  rw [position, Scalar.toNatWithin_nearest hx hu (by omega)]
  exact Nat.min_eq_left (show (a + 2 ^ 148) / 2 ^ 149 ≤ 0x7fffffff by omega)

theorem side_of_not_le (h : ¬ Scalar.one.le (y - x) = true) : side x y = 1 := by
  rw [side, Scalar.max_one_of_not_le h]
  decide

theorem side_of_units (h : Scalar.one.le (y - x) = true) (hfinite : (y - x).isFinite = true)
    (hu : (y - x).units = a)
    (ha : a ≤ 2 ^ 172) : 2 ^ 149 ≤ a ∧ side x y = (a + 2 ^ 148) / 2 ^ 149 := by
  have hunits := (Scalar.le_iff_units (by decide) hfinite).mp h
  rw [hu, show Scalar.one.units = 2 ^ 149 by decide] at hunits
  refine ⟨by exact_mod_cast hunits, ?_⟩
  rw [side, Scalar.max_one_of_le h, Scalar.toNatWithin_nearest hfinite hu (by omega)]
  exact Nat.min_eq_left (show (a + 2 ^ 148) / 2 ^ 149 ≤ 0xffffffff by omega)

/-- No corner lies behind the last pixel. -/
theorem position_le (hn : n < 0x800000) (x : Scalar) : position (x.clamp .zero (.ofNat n)) ≤ n := by
  cases hnumber : (x.clamp .zero (.ofNat n)).isNaN with
  | true =>
    rw [position_of_isNaN hnumber]
    exact Nat.zero_le n
  | false =>
    obtain ⟨hfinite, hlow, hhigh⟩ := Scalar.units_clamp hn hnumber
    obtain ⟨a, ha⟩ := Int.eq_ofNat_of_zero_le hlow
    have ha' : a ≤ n * 2 ^ 149 := by exact_mod_cast ha ▸ hhigh
    rw [position_of_units hn hfinite ha ha']
    omega

/-- **Position and side, both rounded, stay within the extent**, of which `n` is the last pixel. -/
theorem position_add_side_le (hn : n < 0x800000) (x y : Scalar) :
    1 ≤ side (x.clamp .zero (.ofNat n)) (y.clamp .zero (.ofNat n)) ∧
      position (x.clamp .zero (.ofNat n)) + side (x.clamp .zero (.ofNat n))
        (y.clamp .zero (.ofNat n)) ≤ n + 1 := by
  have hposition := position_le hn x
  by_cases hone : Scalar.one.le (y.clamp .zero (.ofNat n) - x.clamp .zero (.ofNat n)) = true
  · obtain ⟨a, b, hstart, ha, hab, hb, hlength, hdistance⟩ := Scalar.distance_clamp hn hone
    have hstartpixel := position_of_units hn hstart ha (hab.trans hb)
    -- the first corner has been rounded up by half a pixel at most, so that this is what is left
    -- for the distance
    have hroom : Scalar.rounded (b - a) ≤
        (2 * (n - position (x.clamp .zero (.ofNat n))) + 1) * 2 ^ 148 :=
      Scalar.rounded_le_places (by omega) (by omega)
    obtain ⟨hlong, hside⟩ := side_of_units hone hlength hdistance (by omega)
    rw [hside]
    omega
  · rw [side_of_not_le hone]
    exact ⟨Nat.le_refl 1, Nat.succ_le_succ hposition⟩

/-- The position is the one that is read with a sign: nothing lies below zero. -/
theorem position_eq_toInt32 (hn : n < 0x800000) (x : Scalar) :
    (position (x.clamp .zero (.ofNat n)) : Int) = (x.clamp .zero (.ofNat n)).nearest.toInt32 := by
  rw [Scalar.toInt32]
  split
  · next hneg =>
    cases hnumber : (x.clamp .zero (.ofNat n)).isNaN with
    | true =>
      rw [position_of_isNaN hnumber, Scalar.nearest_of_isNaN hnumber,
        Scalar.toNatWithin_of_isNaN _ ((Scalar.isNaN_neg _).trans hnumber)]
      rfl
    | false =>
      obtain ⟨hfinite, hlow, -⟩ := Scalar.units_clamp hn hnumber
      rw [Scalar.isNegative_nearest] at hneg
      rw [Scalar.eq_signedZero hneg hlow]
      decide
  · rfl

end Axis

/-! ## Both axes -/

/-- **Every candidate has an outline inside the picture**, also one whose numbers are infinite or
missing. Each corner is cut between zero and the last pixel, in this order, and where the outline
starts is not below zero. -/
theorem ofCandidate_inside (c : Candidate) {extent : Size}
    (hwidth : 1 ≤ extent.width ∧ extent.width ≤ 0x800000)
    (hheight : 1 ≤ extent.height ∧ extent.height ≤ 0x800000) :
    (ofCandidate c extent).Inside extent ∧
      (Scalar.zero.le (.ofNat (extent.width - 1)) = true ∧
        ((ofCandidate c extent).left : Int) =
          (c.left.clamp .zero (.ofNat (extent.width - 1))).nearest.toInt32) ∧
      Scalar.zero.le (.ofNat (extent.height - 1)) = true ∧
        ((ofCandidate c extent).top : Int) =
          (c.top.clamp .zero (.ofNat (extent.height - 1))).nearest.toInt32 := by
  have hright : extent.width - 1 < 0x800000 := by omega
  have hbottom : extent.height - 1 < 0x800000 := by omega
  obtain ⟨hwide, hacross⟩ := position_add_side_le hright c.left (c.left + c.width)
  obtain ⟨hhigh, hdown⟩ := position_add_side_le hbottom c.top (c.top + c.height)
  rw [Nat.sub_add_cancel hwidth.1] at hacross
  rw [Nat.sub_add_cancel hheight.1] at hdown
  exact ⟨⟨hwide, hhigh, hacross, hdown⟩,
    ⟨Scalar.zero_le_ofNat (hright.le.trans (by decide)), position_eq_toInt32 hright c.left⟩,
    Scalar.zero_le_ofNat (hbottom.le.trans (by decide)), position_eq_toInt32 hbottom c.top⟩

/-- A candidate that starts at half a pixel, has no end and no upper edge. -/
def boundlessCandidate : Candidate where
  left := .half
  top := .nan
  width := .infinity false
  height := .one
  classId := 0
  confidence := .one

/-- On a square of four pixels it starts at the second pixel and is three wide, since both are
rounded up. -/
theorem ofCandidate_inside_boundless :
    (1 ≤ (⟨4, 4⟩ : Size).width ∧ (⟨4, 4⟩ : Size).width ≤ 0x800000) ∧
      (1 ≤ (⟨4, 4⟩ : Size).height ∧ (⟨4, 4⟩ : Size).height ≤ 0x800000) ∧
      ofCandidate boundlessCandidate ⟨4, 4⟩ = ⟨1, 0, 3, 1⟩ ∧
      (ofCandidate boundlessCandidate ⟨4, 4⟩).Inside ⟨4, 4⟩ :=
  ⟨by decide, by decide, by decide +kernel,
    (ofCandidate_inside boundlessCandidate (by decide) (by decide)).1⟩

end Outline

end GridNet
