import GridNet.Detection.Preparation
import GridNet.Proofs.FittedPictures
import GridNet.Proofs.NearestWholes
import GridNet.Proofs.OrdersOfMagnitude
import GridNet.Proofs.Outcomes

/-!
# Maps of fitted pictures

The map that goes with a fitted picture is computed apart from the picture, from the two extents.
Its scale is a quotient that is rounded, and its offset a product of that, rounded again. Where the
picture starts, that product is computed once more with the other sign, so the two cancel, however
they were rounded: the corner of the picture goes to the origin, and not only close to it.

* `Scalar.corner_cancels` — a place on an axis, scaled, and the offset that undoes it.
* `coverSize_self` — a picture that has the extent already is scaled by one.
* `Picture.centerCrop_eq_crop` — so it may be cropped like every other one.
* `CoordinateMap.Describes` — the map says how a picture was fitted.
* `PreparedBatch.prepareOne_describes` — the map of a prepared picture does.
-/

namespace GridNet

/-- An extent **with sides that scalars hold**, of a pixel at least. -/
structure Size.Held (s : Size) : Prop where
  width_pos : 1 ≤ s.width
  width_le : s.width ≤ 0x1000000
  height_pos : 1 ≤ s.height
  height_le : s.height ≤ 0x1000000

/-! ## Places on an axis -/

namespace Scalar

variable {x : Scalar} {k n d : Nat}

theorem zero_mul_ofOrder (hx : OfOrder k x) : zero * x = zero := by
  obtain ⟨s, e, hs, -, -, rfl⟩ := hx
  obtain ⟨hneg, hnan, hinf, -, hsig, hexp⟩ := exact_spec hs
  have hzero : zero.significand = 0 := by decide
  change mul _ _ = _
  rw [mul, hneg, hnan, hinf, hsig, hexp, hzero, Nat.zero_mul]
  rfl

/-- A ratio of sides; the second one may have been scaled. -/
theorem ofOrder_ratio (hn : 1 ≤ n) (hn' : n ≤ 0x1000000) (hd : 1 ≤ d) (hd' : d < Word.modulus32) :
    OfOrder 58 (ratio n d) :=
  (ofOrder_ofNat (k := 25) hn (hn'.trans_lt (by decide)) (by decide)).div
    (ofOrder_ofNat (k := 32) hd hd' (by decide)) (by decide)

theorem ratio_self (hn : 1 ≤ n) (hn' : n ≤ 0x1000000) : ratio n n = one := by
  obtain ⟨s, e, hs, heq, -⟩ := ofNat_eq_exact hn hn'
  obtain ⟨r, hr, hquotient⟩ := exact_div_exact hs hs
  have hpos : 0 < s := Nat.zero_lt_of_lt hs.above
  rw [ratio, heq, hquotient, Nat.mul_div_cancel_left _ hpos, Int.sub_self]
  -- what would be left over lies behind the last place
  rcases Nat.le_one_iff_eq_zero_or_eq_one.mp hr with rfl | rfl <;> decide

/-- **A place on an axis**, scaled, and the same with the other sign cancel. -/
theorem corner_cancels (hn : n < Word.modulus32) (hx : OfOrder 59 x) :
    ofNat n * x + -ofNat n * x = zero ∧ -ofNat n * x + ofNat n * x = zero := by
  rcases n.eq_zero_or_pos with rfl | hpos
  · refine product_cancels (by decide) hx.isFinite ?_
    rw [show ofNat 0 = zero by decide, zero_mul_ofOrder hx]
    decide
  · have hplace : OfOrder 32 (ofNat n) := ofOrder_ofNat hpos hn (by decide)
    exact product_cancels hplace.isFinite hx.isFinite (hplace.mul hx (by decide)).isFinite

end Scalar

/-! ## Extents -/

section Extents

variable {source target s : Size} {n : Nat}

theorem scaledSide_one (hn : n ≤ 0x1000000) : scaledSide n .one = n := by
  obtain ⟨hfinite, hunits⟩ := Scalar.units_ofNat hn
  have hwhole : (n * 2 ^ 149 + 2 ^ 148) / 2 ^ 149 = n := by omega
  rw [scaledSide, Scalar.ofNat_mul_one hn,
    Scalar.toNatWithin_nearest (u := n * 2 ^ 149) hfinite (by exact_mod_cast hunits)
    (by rwa [hwhole]), hwhole]
  exact Nat.min_eq_left (hn.trans (by decide))

theorem scaledSide_lt (n : Nat) (factor : Scalar) : scaledSide n factor < Word.modulus32 :=
  (Scalar.toNatWithin_le _ _).trans_lt (by decide)

theorem coverFactor_self (hs : s.Held) : coverFactor s s = .one := by
  rw [coverFactor, Scalar.ratio_self hs.width_pos hs.width_le,
    Scalar.ratio_self hs.height_pos hs.height_le]
  decide

/-- An extent is covered by itself. -/
theorem coverSize_self (hs : s.Held) : coverSize s s = s := by
  simp only [coverSize, coverFactor_self hs, scaledSide_one hs.width_le,
    scaledSide_one hs.height_le]
  exact congrArg₂ Size.mk (Nat.max_self _) (Nat.max_self _)

theorem margin_self (s : Size) : margin s s = ⟨0, 0⟩ := by
  simp only [margin, Nat.sub_self, Nat.zero_div]

theorem margin_lt {outer : Size} (inner : Size) (hwidth : outer.width < Word.modulus32)
    (hheight : outer.height < Word.modulus32) :
    (margin outer inner).width < Word.modulus32 ∧ (margin outer inner).height < Word.modulus32 :=
  ⟨(Nat.div_le_self _ _).trans_lt ((Nat.sub_le _ _).trans_lt hwidth),
    (Nat.div_le_self _ _).trans_lt ((Nat.sub_le _ _).trans_lt hheight)⟩

/-- The scaled sides can be counted with 32 bits. -/
theorem coverSize_between (source : Size) (htarget : target.Held) :
    (1 ≤ (coverSize source target).width ∧ (coverSize source target).width < Word.modulus32) ∧
      1 ≤ (coverSize source target).height ∧ (coverSize source target).height < Word.modulus32 :=
  ⟨⟨htarget.width_pos.trans (Nat.le_max_right _ _),
      Nat.max_lt.mpr ⟨scaledSide_lt _ _, htarget.width_le.trans_lt (by decide)⟩⟩,
    htarget.height_pos.trans (Nat.le_max_right _ _),
      Nat.max_lt.mpr ⟨scaledSide_lt _ _, htarget.height_le.trans_lt (by decide)⟩⟩

theorem ofOrder_containFactor (hsource : source.Held) (htarget : target.Held) :
    (containFactor source target).OfOrder 58 :=
  (Scalar.ofOrder_ratio htarget.width_pos htarget.width_le hsource.width_pos
      (hsource.width_le.trans_lt (by decide))).min
    (Scalar.ofOrder_ratio htarget.height_pos htarget.height_le hsource.height_pos
      (hsource.height_le.trans_lt (by decide)))

end Extents

/-! ## Pictures that are cropped -/

namespace Picture

variable {p : Picture} {target : Size}

/-- A picture is made of its samples. -/
theorem ofFn_sample (p : Picture) : ofFn p.mode p.depth p.size p.sample = p := by
  obtain ⟨mode, depth, size, samples, hsize⟩ := p
  have hsamples : (ofFn mode depth size (sample ⟨mode, depth, size, samples, hsize⟩)).samples =
      samples := by
    refine Array.ext ((ofFn _ _ _ _).size_eq.trans hsize.symm) fun i hi hi' => ?_
    simp only [ofFn, sample, Array.getElem_ofFn, Nat.div_add_mod', Array.getElem?_eq_getElem hi',
      Option.getD_some]
  simp only [ofFn] at hsamples ⊢
  simp only [hsamples]

theorem resample_self (filter : ResampleFilter) (p : Picture) :
    p.resample filter p.size = p := if_pos rfl

/-- Nothing is cut away at no place. -/
theorem crop_self (p : Picture) : p.crop ⟨0, 0⟩ p.size = p := by
  simp only [crop, Nat.zero_add]
  exact ofFn_sample p

/-- **Every picture is cropped alike**, also one that has the extent already: it is scaled by one
and nothing is cut away. -/
theorem centerCrop_eq_crop (filter : ResampleFilter) (htarget : target.Held) (p : Picture) :
    p.centerCrop filter target = (p.resample filter (coverSize p.size target)).crop
      (margin (coverSize p.size target) target) target := by
  rw [centerCrop]
  split
  · next hsame =>
    subst hsame
    rw [coverSize_self htarget, margin_self, resample_self, crop_self]
  · rfl

end Picture

/-! ## Maps -/

namespace CoordinateMap

/-- A map **describes how a picture was fitted** into an input. The point of the input at which the
corner of the picture stands goes to the origin of the picture, exactly. -/
inductive Describes (f : InputFormat) (p fitted : Picture) (m : CoordinateMap) : Prop
  /-- the picture fills the input -/
  | stretch (mode : f.fit = .stretch)
      (content : fitted = (p.resample f.filter f.size).toRgb)
      (scaleX : m.scaleX = .ratio p.size.width f.size.width)
      (scaleY : m.scaleY = .ratio p.size.height f.size.height)
      (corner : m.toSource .zero .zero = (.zero, .zero))
  /-- it stands behind the padding -/
  | letterbox (placement : Letterbox) (mode : f.fit = .letterbox)
      (content : p.toRgb.letterbox f.filter f.size = .ok (fitted, placement))
      (placed : p.toRgb.Letterboxed f.filter (containSize p.size f.size) placement.pad fitted)
      (scaleX : m.scaleX = .one / placement.scale)
      (scaleY : m.scaleY = .one / placement.scale)
      (corner : m.toSource (.ofNat placement.pad.width) (.ofNat placement.pad.height) =
        (.zero, .zero))
  /-- it starts in front of the input, by what was cut away -/
  | centerCrop (scaled cut : Size) (mode : f.fit = .centerCrop)
      (scaled_eq : scaled = coverSize p.size f.size)
      (cut_eq : cut = margin scaled f.size)
      (content : fitted = p.toRgb.centerCrop f.filter f.size)
      (cropped : fitted = (p.toRgb.resample f.filter scaled).crop cut f.size)
      (scaleX : m.scaleX = .ratio p.size.width scaled.width)
      (scaleY : m.scaleY = .ratio p.size.height scaled.height)
      (corner : m.toSource (-.ofNat cut.width) (-.ofNat cut.height) = (.zero, .zero))
      (unchanged : p.size = f.size → fitted = p.toRgb ∧ (m.scaleX = .one ∧ m.scaleY = .one) ∧
        m.offsetX = .zero ∧ m.offsetY = .zero)

variable {f : InputFormat} {p : Picture}

theorem describes_stretch (hsource : p.size.Held) (htarget : f.size.Held)
    (mode : f.fit = .stretch) :
    (ofStretch p.size f.size).Describes f p (p.stretch f.filter f.size) := by
  have hx : Scalar.OfOrder 58 (.ratio p.size.width f.size.width) :=
    Scalar.ofOrder_ratio hsource.width_pos hsource.width_le htarget.width_pos
      (htarget.width_le.trans_lt (by decide))
  have hy : Scalar.OfOrder 58 (.ratio p.size.height f.size.height) :=
    Scalar.ofOrder_ratio hsource.height_pos hsource.height_le htarget.height_pos
      (htarget.height_le.trans_lt (by decide))
  refine .stretch mode rfl rfl rfl ?_
  simp only [toSource, ofStretch, Scalar.zero_mul_ofOrder hx, Scalar.zero_mul_ofOrder hy]
  decide

theorem describes_letterbox (hsource : p.size.Held) (htarget : f.size.Held)
    (mode : f.fit = .letterbox) :
    ∃ canvas placement, p.toRgb.letterbox f.filter f.size = .ok (canvas, placement) ∧
      canvas.size = f.size ∧
      (ofLetterbox p.size placement).Describes f p canvas := by
  have hletterbox := Picture.letterbox_eq f.filter p.toRgb htarget.width_pos htarget.height_pos
  have hplaced := Picture.letterboxed_at f.filter
    (p.size.scaledBy (containFactor p.size f.size)) p.toRgb htarget.width_pos htarget.height_pos
  rw [← containSize_eq] at hplaced
  rw [Picture.size_toRgb] at hletterbox
  have hinverse : Scalar.OfOrder 59 (.one / containFactor p.size f.size) :=
    Scalar.ofOrder_one.div (ofOrder_containFactor hsource htarget) (by decide)
  obtain ⟨hleft, habove⟩ :=
    margin_lt (containSize p.size f.size) (htarget.width_le.trans_lt (by decide))
    (htarget.height_le.trans_lt (by decide))
  refine ⟨_, _, hletterbox, rfl, .letterbox _ mode hletterbox hplaced rfl rfl ?_⟩
  exact Prod.ext (Scalar.corner_cancels hleft hinverse).1 (Scalar.corner_cancels habove hinverse).1

theorem describes_centerCrop (hsource : p.size.Held) (htarget : f.size.Held)
    (mode : f.fit = .centerCrop) :
    (ofCenterCrop p.size f.size).Describes f p (p.toRgb.centerCrop f.filter f.size) := by
  obtain ⟨⟨hwide, hwide'⟩, hhigh, hhigh'⟩ := coverSize_between p.size htarget
  have hx := (Scalar.ofOrder_ratio hsource.width_pos hsource.width_le hwide hwide').mono
    (Nat.le_succ 58)
  have hy := (Scalar.ofOrder_ratio hsource.height_pos hsource.height_le hhigh hhigh').mono
    (Nat.le_succ 58)
  obtain ⟨hleft, habove⟩ := margin_lt f.size hwide' hhigh'
  refine .centerCrop _ _ mode rfl rfl rfl ?_ rfl rfl ?_ ?_
  · rw [Picture.centerCrop_eq_crop f.filter htarget, Picture.size_toRgb]
  · exact Prod.ext (Scalar.corner_cancels hleft hx).2 (Scalar.corner_cancels habove hy).2
  · intro hsame
    have hone : Scalar.ofNat 0 * .one = .zero := by decide
    refine ⟨if_pos (Picture.size_toRgb.trans hsame), ?_⟩
    simp only [ofCenterCrop, ← hsame, coverSize_self hsource, margin_self,
      Scalar.ratio_self hsource.width_pos hsource.width_le,
      Scalar.ratio_self hsource.height_pos hsource.height_le, hone, and_self]

end CoordinateMap

namespace PreparedBatch

/-- **The map of a prepared picture describes how it was fitted**, whatever the two extents are, and
has the extent of the picture itself. -/
theorem prepareOne_describes (f : InputFormat) (p : Picture) (hsource : p.size.Held)
    (htarget : f.size.Held) :
    ∃ fitted map, p.fit f = .ok (fitted, map) ∧
      prepareOne f p = .ok (fitted.inputPlanes f.channels f.normalization, map) ∧
      fitted.size = f.size ∧ map.source = p.size ∧ map.Describes f p fitted := by
  have hprepared : ∀ {fitted map}, p.fit f = .ok (fitted, map) →
      prepareOne f p = .ok (fitted.inputPlanes f.channels f.normalization, map) := by
    intro fitted map hfit
    have hroom : (decide (0 < p.size.width) && decide (0 < p.size.height)) = true := by
      rw [Bool.and_eq_true, decide_eq_true_eq, decide_eq_true_eq]
      exact ⟨hsource.width_pos, hsource.height_pos⟩
    rw [prepareOne, hroom, hfit]
    rfl
  cases hmode : f.fit with
  | stretch =>
    have hfit : p.fit f = .ok (p.stretch f.filter f.size, .ofStretch p.size f.size) := by
      rw [Picture.fit, hmode]
    exact ⟨_, _, hfit, hprepared hfit,
      Picture.size_toRgb.trans (Picture.size_resample f.filter f.size), rfl,
      CoordinateMap.describes_stretch hsource htarget hmode⟩
  | letterbox =>
    obtain ⟨canvas, placement, hletterbox, hsize, hdescribes⟩ :=
      CoordinateMap.describes_letterbox hsource htarget hmode
    have hfit : p.fit f = .ok (canvas, .ofLetterbox p.size placement) := by
      rw [Picture.fit, hmode, hletterbox]
      rfl
    exact ⟨_, _, hfit, hprepared hfit, hsize, rfl, hdescribes⟩
  | centerCrop =>
    have hfit : p.fit f = .ok
        (p.toRgb.centerCrop f.filter f.size, .ofCenterCrop p.size f.size) := by
      rw [Picture.fit, hmode]
    exact ⟨_, _, hfit, hprepared hfit, Picture.size_centerCrop f.filter f.size, rfl,
      CoordinateMap.describes_centerCrop hsource htarget hmode⟩

/-- A square of four pixels with a letterbox. -/
def letterboxFormat : InputFormat := { size := ⟨4, 4⟩, fit := .letterbox }

/-- The strip of a thousand pixels stands in the second row of the square, and its corner goes to
the origin, although four thousandths are no scalar. -/
theorem prepareOne_describes_strip :
    Picture.strip.size.Held ∧ letterboxFormat.size.Held ∧
      ∃ planes map, prepareOne letterboxFormat Picture.strip = .ok (planes, map) ∧
      map.source = ⟨1000, 1⟩ ∧
        map.toSource .zero .one = (.zero, .zero) := by
  have hsource : Picture.strip.size.Held := ⟨by decide, by decide, by decide, by decide⟩
  have htarget : letterboxFormat.size.Held := ⟨by decide, by decide, by decide, by decide⟩
  refine ⟨hsource, htarget, ?_⟩
  obtain ⟨fitted, map, -, hprepared, -, hmap, hdescribes⟩ :=
    prepareOne_describes letterboxFormat Picture.strip hsource htarget
  refine ⟨_, map, hprepared, hmap, ?_⟩
  cases hdescribes with
  | stretch mode => cases mode
  | centerCrop _ _ mode => cases mode
  | letterbox placement mode content placed scaleX scaleY corner =>
    have hpad : placement.pad = ⟨0, 1⟩ := by
      rw [Picture.letterbox_eq _ _ htarget.width_pos htarget.height_pos] at content
      obtain ⟨-, rfl⟩ := Prod.mk.inj (Except.ok.inj content)
      have hsize : Picture.strip.toRgb.size = ⟨1000, 1⟩ := Picture.size_toRgb
      rw [hsize]
      decide +kernel
    have hzero : Scalar.ofNat 0 = .zero := by decide
    have hone : Scalar.ofNat 1 = .one := by decide
    rwa [hpad, hzero, hone] at corner

end PreparedBatch

end GridNet
