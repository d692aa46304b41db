import GridNet.Detection.Candidate
import GridNet.Proofs.ExactValues

/-!
# The rows that become candidates

A row is kept when its label and its score are usable numbers, the score reaches the threshold of
the row's class, and the box is a pixel wide and high at least after its corners were cut to the
extent. What is kept lies inside the extent, also when the left edge and the width are added up
again: both are rounded, and the border is a whole number.

* `RawRow.Kept` — the rows that are kept, in terms of the row alone.
* `Candidate.read` — what a row is read as.
* `Candidate.Inside` — a box of a pixel or more that does not pass the border.
* `Candidate.ofRows_kept` — the candidates of some rows.
-/

namespace GridNet

/-! ## Rows -/

namespace RawRow

/-- The **class of a row** is the whole part of its label, unless that is too large for a size. -/
def classId (r : RawRow) : Nat := Nat.min (r.label.units / 2 ^ 149).toNat (Word.modulus - 1)

/-- The corners of a row's box, cut to an extent. -/
def cut (format : BoxFormat) (extent : Size) (r : RawRow) : Corners :=
  (r.corners format).clamp extent

/-- A row is **kept** when it has a class, a score and a box. -/
structure Kept (thresholds : Thresholds) (extent : Size) (format : BoxFormat)
    (r : RawRow) : Prop where
  /-- the label is a number ... -/
  label_finite : r.label.isFinite = true
  /-- ... and not below zero -/
  label_nonneg : Scalar.zero.le r.label = true
  /-- the score is a number ... -/
  score_finite : r.score.isFinite = true
  /-- ... and reaches the threshold of the class; a missing threshold asks for nothing -/
  reaches : (thresholds.perClass.getD r.classId thresholds.fallback).isNaN = true ∨
    (thresholds.perClass.getD r.classId thresholds.fallback).le r.score = true
  /-- the box is a pixel wide ... -/
  wide : Scalar.one.le ((r.cut format extent).right - (r.cut format extent).left) = true
  /-- ... and a pixel high -/
  high : Scalar.one.le ((r.cut format extent).bottom - (r.cut format extent).top) = true

/-- What is asked of a row, in the order in which it is asked. -/
theorem kept_iff (thresholds : Thresholds) (extent : Size) (format : BoxFormat) (r : RawRow) :
    r.Kept thresholds extent format ↔ (r.label.isFinite = true ∧ Scalar.zero.le r.label = true) ∧
      (r.score.isFinite && !r.score.lt (thresholds.of r.classId)) = true ∧
      (Scalar.one.le ((r.cut format extent).right - (r.cut format extent).left) &&
        Scalar.one.le ((r.cut format extent).bottom - (r.cut format extent).top)) = true := by
  have hthreshold : thresholds.of r.classId =
      thresholds.perClass.getD r.classId thresholds.fallback :=
    List.getD_eq_getElem?_getD.symm
  rw [Scalar.not_below_iff, hthreshold, Bool.and_eq_true]
  exact ⟨fun ⟨h, h', h'', hreaches, hwide, hhigh⟩ => ⟨⟨h, h'⟩, ⟨h'', hreaches⟩, hwide, hhigh⟩,
    fun ⟨⟨h, h'⟩, ⟨h'', hreaches⟩, hwide, hhigh⟩ => ⟨h, h', h'', hreaches, hwide, hhigh⟩⟩

instance (thresholds : Thresholds) (extent : Size) (format : BoxFormat) :
    DecidablePred (Kept thresholds extent format) := fun r =>
  decidable_of_iff' _ (kept_iff thresholds extent format r)

end RawRow

/-! ## Boxes inside an extent -/

/-- A **span on an axis**: it starts from zero on, is a pixel long at least, and its end, computed
from its start and its length, does not pass the extent of the axis. -/
structure Scalar.Spans (extent : Nat) (start length : Scalar) : Prop where
  start_finite : start.isFinite = true
  length_finite : length.isFinite = true
  start_nonneg : Scalar.zero.le start = true
  one_le_length : Scalar.one.le length = true
  end_le : (start + length).le (.ofNat extent) = true

namespace Candidate

/-- The candidate that a row is read as. -/
def read (extent : Size) (format : BoxFormat) (r : RawRow) : Candidate where
  left := (r.cut format extent).left
  top := (r.cut format extent).top
  width := (r.cut format extent).right - (r.cut format extent).left
  height := (r.cut format extent).bottom - (r.cut format extent).top
  classId := r.classId
  confidence := r.score

/-- The box of a candidate lies **inside an extent**, on both axes. -/
structure Inside (extent : Size) (c : Candidate) : Prop where
  across : Scalar.Spans extent.width c.left c.width
  down : Scalar.Spans extent.height c.top c.height

end Candidate

/-! ## Corners that were cut -/

section Axis

variable {extent : Nat} {x y : Scalar}

/-- A corner that is a number after it was cut lies between zero and the extent. -/
theorem Scalar.units_clamp (hextent : extent < 0x800000)
    (hx : (x.clamp .zero (.ofNat extent)).isNaN = false) :
    (x.clamp .zero (.ofNat extent)).isFinite = true ∧
      0 ≤ (x.clamp .zero (.ofNat extent)).units ∧
      (x.clamp .zero (.ofNat extent)).units ≤ extent * 2 ^ 149 := by
  obtain ⟨hfinite, hunits⟩ := units_ofNat (m := extent) (by omega)
  have hzero : zero.isFinite = true ∧ zero.units = 0 := by decide
  have hnumber : x.isNaN = false := by
    by_contra hmissing
    rw [clamp_of_isNaN (Bool.not_eq_false _ ▸ hmissing)] at hx
    exact hmissing hx
  obtain ⟨hlow, hhigh⟩ := clamp_between hnumber (zero_le_ofNat (m := extent) (by omega))
  have hcut := isFinite_of_between hlow hhigh hfinite
  rw [le_iff_units hzero.1 hcut, hzero.2] at hlow
  rw [le_iff_units hcut hfinite, hunits] at hhigh
  exact ⟨hcut, hlow, hhigh⟩

/-- **Two corners that are a pixel apart** are in order, and their distance is the exact one,
rounded once. -/
theorem Scalar.distance_clamp (hextent : extent < 0x800000)
    (h : one.le (y.clamp .zero (.ofNat extent) - x.clamp .zero (.ofNat extent)) = true) :
    ∃ a b : Nat, (x.clamp .zero (.ofNat extent)).isFinite = true ∧
      (x.clamp .zero (.ofNat extent)).units = a ∧
      a ≤ b ∧ b ≤ extent * 2 ^ 149 ∧
      (y.clamp .zero (.ofNat extent) - x.clamp .zero (.ofNat extent)).isFinite = true ∧
      (y.clamp .zero (.ofNat extent) - x.clamp .zero (.ofNat extent)).units = rounded (b - a) := by
  obtain ⟨hy, hx⟩ := isNaN_of_isNaN_sub (le_iff.mp h).2.1
  obtain ⟨hstart, hlow, hhigh⟩ := units_clamp hextent hx
  obtain ⟨hstop, hlow', hhigh'⟩ := units_clamp hextent hy
  generalize x.clamp .zero (.ofNat extent) = start at *
  generalize y.clamp .zero (.ofNat extent) = stop at *
  obtain ⟨a, ha⟩ := Int.eq_ofNat_of_zero_le hlow
  obtain ⟨b, hb⟩ := Int.eq_ofNat_of_zero_le hlow'
  have hb' : b ≤ extent * 2 ^ 149 := by exact_mod_cast hb ▸ hhigh'
  obtain ⟨hlength, hdistance⟩ := units_sub hstop hstart (by omega)
  -- the distance is above zero, so the corners are in order
  have hone : one.isFinite = true ∧ 0 < one.units := by decide
  have hab : a ≤ b := by
    have hpositive := hone.2.trans_le ((le_iff_units hone.1 hlength).mp h)
    rw [hdistance, roundedSigned] at hpositive
    split at hpositive <;> omega
  refine ⟨a, b, hstart, ha, hab, hb', hlength, ?_⟩
  rw [hdistance, roundedSigned, if_neg (by omega), show (stop.units - start.units).natAbs =
    b - a by omega]

/-- **Two corners that are a pixel apart span a part of the axis**, although their
distance was rounded. -/
theorem Scalar.spans_clamp (hextent : extent < 0x800000)
    (h : one.le (y.clamp .zero (.ofNat extent) - x.clamp .zero (.ofNat extent)) = true) :
    Spans extent (x.clamp .zero (.ofNat extent))
      (y.clamp .zero (.ofNat extent) - x.clamp .zero (.ofNat extent)) := by
  obtain ⟨a, b, hstart, ha, hab, hb, hlength, hround⟩ := distance_clamp hextent h
  generalize x.clamp .zero (.ofNat extent) = start at *
  generalize y.clamp .zero (.ofNat extent) = stop at *
  have hlimit : rounded (b - a) ≤ extent * 2 ^ 149 :=
    rounded_le_of_le hextent ((Nat.sub_le b a).trans hb)
  obtain ⟨hend, hsum⟩ := units_add hstart hlength (by omega)
  obtain ⟨hborder, hunits⟩ := units_ofNat (m := extent) (by omega)
  refine ⟨hstart, hlength, ?_, h, ?_⟩
  · have hzero : zero.isFinite = true ∧ zero.units = 0 := by decide
    rw [le_iff_units hzero.1 hstart, hzero.2]
    omega
  · rw [le_iff_units hend hborder, hsum, hunits, hround, ha, roundedSigned, if_neg (by omega)]
    exact_mod_cast rounded_add_rounded_sub_le hextent hab hb

end Axis

namespace Candidate

variable {thresholds : Thresholds} {extent : Size} {format : BoxFormat}
  {rows : List RawRow} {r : RawRow}

theorem classOf_eq (r : RawRow) : classOf r.label =
    if r.label.isFinite = true ∧ Scalar.zero.le r.label = true then some r.classId else none := by
  have husable : (r.label.isFinite && !r.label.lt .zero) = true ↔
      r.label.isFinite = true ∧ Scalar.zero.le r.label = true := by
    rw [Scalar.not_below_iff, show Scalar.zero.isNaN = false by decide]
    simp
  unfold classOf
  by_cases hlabel : r.label.isFinite = true ∧ Scalar.zero.le r.label = true
  · rw [if_pos hlabel, if_pos (husable.mpr hlabel), Scalar.toNatWithin_eq hlabel.1 hlabel.2]
    rfl
  · rw [if_neg hlabel, if_neg (mt husable.mp hlabel)]

/-- A row that is kept is read, and nothing else is. -/
theorem ofRow_eq (thresholds : Thresholds) (extent : Size) (format : BoxFormat) (r : RawRow) :
    ofRow thresholds extent format r =
      if r.Kept thresholds extent format then some (read extent format r) else none := by
  have hasked : (!r.score.isFinite || r.score.lt (thresholds.of r.classId)) =
      !(r.score.isFinite && !r.score.lt (thresholds.of r.classId)) := by
    rw [Bool.not_and, Bool.not_not]
  unfold ofRow
  rw [classOf_eq]
  simp only [RawRow.kept_iff]
  by_cases hlabel : r.label.isFinite = true ∧ Scalar.zero.le r.label = true
  · rw [if_pos hlabel, Option.bind_eq_bind, Option.bind_some, hasked]
    cases r.score.isFinite && !r.score.lt (thresholds.of r.classId) with
    | false =>
      rw [Bool.not_false, if_pos rfl]
      exact (if_neg fun hkept => Bool.false_ne_true hkept.2.1).symm
    | true =>
      rw [Bool.not_true, if_neg Bool.false_ne_true]
      simp only [hlabel, true_and, and_self]
      rfl
  · rw [if_neg hlabel, if_neg fun hkept => hlabel hkept.1]
    rfl

/-- A row that is kept is read as a box inside the extent. -/
theorem inside_read (hwidth : extent.width < 0x800000) (hheight : extent.height < 0x800000)
    (h : r.Kept thresholds extent format) : (read extent format r).Inside extent :=
  ⟨Scalar.spans_clamp hwidth h.wide, Scalar.spans_clamp hheight h.high⟩

/-- **The candidates of some rows** are the rows that are kept, in their order, and each of them
lies inside the extent. -/
theorem ofRows_kept (thresholds : Thresholds) (format : BoxFormat) (rows : List RawRow)
    (hwidth : extent.width < 0x800000) (hheight : extent.height < 0x800000) :
    ofRows thresholds extent format rows =
        (rows.filter fun r => r.Kept thresholds extent format).map (read extent format) ∧
      ∀ c ∈ ofRows thresholds extent format rows, c.Inside extent := by
  have hrows : ofRows thresholds extent format rows =
      (rows.filter fun r => r.Kept thresholds extent format).map (read extent format) := by
    induction rows with
    | nil => rfl
    | cons r rows ih =>
      by_cases hkept : r.Kept thresholds extent format
      · rw [ofRows, List.filterMap_cons, ofRow_eq, if_pos hkept,
          List.filter_cons_of_pos (by simpa using hkept), List.map_cons, ← ih]
        rfl
      · rw [ofRows, List.filterMap_cons, ofRow_eq, if_neg hkept,
          List.filter_cons_of_neg (by simpa using hkept), ← ih]
        rfl
  refine ⟨hrows, fun c hc => ?_⟩
  rw [hrows, List.mem_map] at hc
  obtain ⟨r, hr, rfl⟩ := hc
  exact inside_read hwidth hheight (of_decide_eq_true (List.mem_filter.mp hr).2)

/-- Six rows. The first and the last are kept; the others have no class, no score, no score that is
large enough, and no corners. -/
def sixRows : List RawRow :=
  [⟨.zero, .zero, .ofNat 40, .ofNat 40, .ratio 9 10, .zero⟩,
    ⟨.ofNat 10, .ofNat 10, .ofNat 5, .ofNat 5, .ratio 9 10, .nan⟩,
    ⟨.ofNat 10, .ofNat 10, .ofNat 5, .ofNat 5, .infinity false, .zero⟩,
    ⟨.ofNat 10, .ofNat 10, .ofNat 5, .ofNat 5, .ratio 9 10, .one⟩,
    ⟨.nan, .ofNat 10, .ofNat 5, .ofNat 5, .ratio 9 10, .zero⟩,
    ⟨.ofNat 95, .ofNat 75, .ofNat 60, .ofNat 60, .ratio 6 10, .ratio 79 10⟩]

/-- Two of six rows on an extent of 100 by 80 pixels: classes without an entry use the fallback, and
the missing threshold of the first class rejects nothing. -/
theorem ofRows_kept_sixRows :
    (⟨100, 80⟩ : Size).width < 0x800000 ∧ (⟨100, 80⟩ : Size).height < 0x800000 ∧
      (ofRows ⟨.half, [.nan, .ratio 95 100]⟩ ⟨100, 80⟩ .center sixRows).map Candidate.classId =
        [0, 7] ∧
      (ofRows ⟨.half, [.nan, .ratio 95 100]⟩ ⟨100, 80⟩ .center sixRows =
          (sixRows.filter fun r => r.Kept ⟨.half, [.nan, .ratio 95 100]⟩ ⟨100, 80⟩ .center).map
            (read ⟨100, 80⟩ .center) ∧
        ∀ c ∈ ofRows ⟨.half, [.nan, .ratio 95 100]⟩ ⟨100, 80⟩ .center sixRows,
          c.Inside ⟨100, 80⟩) :=
  ⟨by decide, by decide, by decide +kernel, ofRows_kept _ _ _ (by decide) (by decide)⟩

end Candidate

end GridNet
