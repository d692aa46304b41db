import GridNet.Picture.Fit
import GridNet.Proofs.BatchMembers

/-!
# Pictures that are fitted

A picture is fitted into an extent by two computations with scalars, a factor and a product that is
rounded. Neither has to be exact: whatever the sides come to, they are brought into bounds before
anything is subtracted from them. So a letterboxed picture stands inside its canvas, and a cut lies
inside the scaled picture, both in the middle.

* `Centred` — a span in the middle of an axis.
* `Size.within`, `Size.covering` — rounded extents, brought into bounds.
* `Picture.sample_ofFn`, `Picture.sample_paste`, `Picture.sample_crop` — what the new pictures show.
* `Picture.Letterboxed`, `Picture.Cropped` — pictures that are fitted.
* `Picture.letterbox_and_centerCrop_fit` — every picture is, in any extent with a pixel.
-/

namespace GridNet

/-! ## Spans in the middle -/

/-- A span of an axis stands **in the middle**: it leaves some positions in front of it, and as many
or one more behind it. -/
def Centred (outer inner before : Nat) : Prop :=
  ∃ after, before + inner + after = outer ∧ (after = before ∨ after = before + 1)

theorem centred_half {outer inner : Nat} (h : inner ≤ outer) :
    Centred outer inner ((outer - inner) / 2) :=
  ⟨outer - inner - (outer - inner) / 2, by omega, by omega⟩

theorem Centred.fits {outer inner before : Nat} (h : Centred outer inner before) :
    before + inner ≤ outer := by
  obtain ⟨after, hsum, -⟩ := h
  omega

/-! ## Extents -/

/-- An extent multiplied by a factor and rounded, before it is brought into bounds. -/
def Size.scaledBy (factor : Scalar) (source : Size) : Size :=
  ⟨scaledSide source.width factor, scaledSide source.height factor⟩

/-- A rounded extent brought between one pixel and a target. -/
def Size.within (rounded target : Size) : Size :=
  ⟨Nat.min (Nat.max rounded.width 1) target.width, Nat.min (Nat.max rounded.height 1) target.height⟩

/-- A rounded extent raised to a target. -/
def Size.covering (rounded target : Size) : Size :=
  ⟨Nat.max rounded.width target.width, Nat.max rounded.height target.height⟩

theorem containSize_eq (source target : Size) :
    containSize source target = (source.scaledBy (containFactor source target)).within target := by
  simp only [containSize, Size.within, Size.scaledBy]

theorem coverSize_eq (source target : Size) :
    coverSize source target = (source.scaledBy (coverFactor source target)).covering target := by
  simp only [coverSize, Size.covering, Size.scaledBy]

namespace Picture

variable {p : Picture} {mode : ColorMode} {depth : Depth} {size target : Size}
  {f : Nat → Nat → Nat → UInt16}
  {x y c : Nat}

/-! ## Modes and extents -/

theorem mode_toRgb : p.toRgb.mode = .rgb := by
  rw [toRgb]
  split
  · next h => exact h.1
  · rfl

theorem size_toRgb : p.toRgb.size = p.size := by
  rw [toRgb]
  split <;> rfl

theorem mode_resample (filter : ResampleFilter) (size : Size) :
    (p.resample filter size).mode = p.mode := by
  rw [resample]
  split <;> rfl

theorem size_resample (filter : ResampleFilter) (size : Size) :
    (p.resample filter size).size = size := by
  rw [resample]
  split
  · next h => exact h.symm
  · rfl

theorem mode_centerCrop (filter : ResampleFilter) (target : Size) :
    (p.centerCrop filter target).mode = p.mode := by
  rw [centerCrop]
  split
  · rfl
  · exact mode_resample filter _

theorem size_centerCrop (filter : ResampleFilter) (target : Size) :
    (p.centerCrop filter target).size = target := by
  rw [centerCrop]
  split
  · next h => exact h
  · rfl

theorem mode_toLuma : p.toLuma.mode = .luma := by
  rw [toLuma]
  split
  · next h => exact h.1
  · rfl

theorem size_toLuma : p.toLuma.size = p.size := by
  rw [toLuma]
  split <;> rfl

/-! ## Samples -/

theorem sample_ofFn (hx : x < size.width) (hy : y < size.height) (hc : c < mode.channels) :
    (ofFn mode depth size f).sample x y c = f x y c := by
  have hplace : (y * size.width + x) * mode.channels + c <
      size.height * size.width * mode.channels :=
    place_lt (place_lt hy hx) hc
  obtain ⟨hpixel, hchannel⟩ := place_div_mod (y * size.width + x) hc
  obtain ⟨hrow, hcolumn⟩ := place_div_mod y hx
  simp only [sample, ofFn, Array.getElem?_ofFn, dif_pos hplace, Option.getD_some, hpixel, hchannel,
    hrow, hcolumn]

/-- A pasted picture is all that is not black. -/
theorem sample_paste {corner canvas : Size} (hx : x < canvas.width) (hy : y < canvas.height)
    (hc : c < p.mode.channels) :
    (p.paste corner canvas).sample x y c =
      if corner.width ≤ x ∧ x - corner.width < p.size.width ∧ corner.height ≤ y ∧
        y - corner.height < p.size.height then
        p.sample (x - corner.width) (y - corner.height) c
      else 0 :=
  sample_ofFn hx hy hc

theorem sample_crop {corner : Size} (hx : x < target.width) (hy : y < target.height)
    (hc : c < p.mode.channels) :
    (p.crop corner target).sample x y c = p.sample (corner.width + x) (corner.height + y) c :=
  sample_ofFn hx hy hc

/-! ## Fitted pictures -/

/-- A picture is **letterboxed** on a canvas: it has been scaled to one pixel at least and to the
canvas at most on each axis, stands in its middle, and all around it is black. -/
structure Letterboxed (filter : ResampleFilter) (scaled pad : Size)
    (p canvas : Picture) : Prop where
  width_between : 1 ≤ scaled.width ∧ scaled.width ≤ canvas.size.width
  height_between : 1 ≤ scaled.height ∧ scaled.height ≤ canvas.size.height
  across : Centred canvas.size.width scaled.width pad.width
  down : Centred canvas.size.height scaled.height pad.height
  mode_eq : canvas.mode = p.mode
  inside : ∀ x < scaled.width, ∀ y < scaled.height, ∀ c < canvas.mode.channels,
    canvas.sample (pad.width + x) (pad.height + y) c = (p.resample filter scaled).sample x y c
  outside : ∀ x < canvas.size.width, ∀ y < canvas.size.height, ∀ c < canvas.mode.channels,
    ¬ ((pad.width ≤ x ∧ x < pad.width + scaled.width) ∧
      (pad.height ≤ y ∧ y < pad.height + scaled.height)) →
      canvas.sample x y c = 0

/-- A picture is **cropped**: it has been scaled so that it is nowhere smaller than the cut, and the
cut is the window in its middle. -/
structure Cropped (filter : ResampleFilter) (scaled corner : Size) (p cut : Picture) : Prop where
  width_le : cut.size.width ≤ scaled.width
  height_le : cut.size.height ≤ scaled.height
  across : Centred scaled.width cut.size.width corner.width
  down : Centred scaled.height cut.size.height corner.height
  mode_eq : cut.mode = p.mode
  inside : ∀ x < cut.size.width, ∀ y < cut.size.height, ∀ c < cut.mode.channels,
    cut.sample x y c = (p.resample filter scaled).sample (corner.width + x) (corner.height + y) c

/-- The canvas for a picture whose sides have come to a rounded extent. -/
def letterboxAt (filter : ResampleFilter) (target rounded : Size) (p : Picture) : Picture :=
  (p.resample filter (rounded.within target)).paste (margin target (rounded.within target)) target

/-- The cut of a picture whose sides have come to a rounded extent. -/
def cropAt (filter : ResampleFilter) (target rounded : Size) (p : Picture) : Picture :=
  (p.resample filter (rounded.covering target)).crop
    (margin (rounded.covering target) target) target

theorem letterboxed_at (filter : ResampleFilter) (rounded : Size) (p : Picture)
    (hwidth : 1 ≤ target.width) (hheight : 1 ≤ target.height) :
    Letterboxed filter (rounded.within target) (margin target (rounded.within target)) p
      (p.letterboxAt filter target rounded) := by
  have hwide : 1 ≤ (rounded.within target).width ∧ (rounded.within target).width ≤ target.width :=
    ⟨Nat.le_min.mpr ⟨Nat.le_max_right _ _, hwidth⟩, Nat.min_le_right _ _⟩
  have hhigh : 1 ≤ (rounded.within target).height ∧
      (rounded.within target).height ≤ target.height :=
    ⟨Nat.le_min.mpr ⟨Nat.le_max_right _ _, hheight⟩, Nat.min_le_right _ _⟩
  have hacross : Centred target.width (rounded.within target).width
      (margin target (rounded.within target)).width :=
    centred_half hwide.2
  have hdown : Centred target.height (rounded.within target).height
      (margin target (rounded.within target)).height :=
    centred_half hhigh.2
  have hfits := hacross.fits
  have hfits' := hdown.fits
  refine ⟨hwide, hhigh, hacross, hdown, mode_resample filter _, ?_, ?_⟩
  · intro x hx y hy c hc
    refine (sample_paste (p := p.resample filter (rounded.within target)) (by omega)
      (by omega) hc).trans ?_
    rw [size_resample, Nat.add_sub_cancel_left, Nat.add_sub_cancel_left, if_pos (by omega)]
  · intro x hx y hy c hc hout
    refine (sample_paste (p := p.resample filter (rounded.within target)) hx hy hc).trans ?_
    rw [size_resample, if_neg]
    rintro ⟨hleft, hright, habove, hbelow⟩
    exact hout (by omega)

theorem cropped_at (filter : ResampleFilter) (target rounded : Size) (p : Picture) :
    Cropped filter (rounded.covering target) (margin (rounded.covering target) target) p
      (p.cropAt filter target rounded) := by
  have hwide : target.width ≤ (rounded.covering target).width := Nat.le_max_right _ _
  have hhigh : target.height ≤ (rounded.covering target).height := Nat.le_max_right _ _
  refine ⟨hwide, hhigh, centred_half hwide, centred_half hhigh, mode_resample filter _, ?_⟩
  intro x hx y hy c hc
  exact sample_crop hx hy hc

theorem letterbox_eq (filter : ResampleFilter) (p : Picture) (hwidth : 1 ≤ target.width)
    (hheight : 1 ≤ target.height) :
    p.letterbox filter target = .ok
      (p.letterboxAt filter target (p.size.scaledBy (containFactor p.size target)),
        { scale := containFactor p.size target,
          pad := margin target (containSize p.size target) }) := by
  have hroom : ¬ (target.width = 0 ∨ target.height = 0) := by omega
  simp only [letterbox, if_neg hroom, letterboxAt, containSize_eq]

theorem centerCrop_eq (filter : ResampleFilter) (target : Size) (p : Picture) :
    p.centerCrop filter target =
      if p.size = target then p
        else p.cropAt filter target (p.size.scaledBy (coverFactor p.size target)) := by
  simp only [centerCrop, cropAt, coverSize_eq]

/-- **Every picture fits.** Whatever the scaled sides come to, a picture that is letterboxed or
cropped lies inside, and so do those that are made from the actual factors. A picture that has the
extent already is not cropped. -/
theorem letterbox_and_centerCrop_fit (filter : ResampleFilter) (p : Picture)
    (hwidth : 1 ≤ target.width) (hheight : 1 ≤ target.height) :
    (∀ rounded, (p.letterboxAt filter target rounded).size = target ∧
        p.Letterboxed filter (rounded.within target) (margin target (rounded.within target))
          (p.letterboxAt filter target rounded)) ∧
      (∃ canvas, p.letterbox filter target =
          .ok (canvas, { scale := containFactor p.size target,
                         pad := margin target (containSize p.size target) }) ∧
        canvas.size = target ∧
        p.Letterboxed filter (containSize p.size target)
          (margin target (containSize p.size target)) canvas) ∧
      (∀ rounded, (p.cropAt filter target rounded).size = target ∧
        p.Cropped filter (rounded.covering target) (margin (rounded.covering target) target)
          (p.cropAt filter target rounded)) ∧
      (p.centerCrop filter target).size = target ∧
        if p.size = target then p.centerCrop filter target = p
        else p.Cropped filter (coverSize p.size target) (margin (coverSize p.size target) target)
          (p.centerCrop filter target) := by
  refine ⟨fun rounded => ⟨rfl, letterboxed_at filter rounded p hwidth hheight⟩, ?_,
    fun rounded => ⟨rfl, cropped_at filter target rounded p⟩, size_centerCrop filter target, ?_⟩
  · refine ⟨_, letterbox_eq filter p hwidth hheight, rfl, ?_⟩
    rw [containSize_eq]
    exact letterboxed_at filter _ p hwidth hheight
  · rw [centerCrop_eq, coverSize_eq]
    by_cases hsame : p.size = target
    · rw [if_pos hsame, if_pos hsame]
    · rw [if_neg hsame, if_neg hsame]
      exact cropped_at filter target _ p

/-- A strip of a thousand pixels. -/
def strip : Picture := ofFn .rgb .eight ⟨1000, 1⟩ fun _ _ _ => 200

/-- The strip in a square of four pixels: its height comes to nothing and is raised to a pixel, with
one row of black above it and two below. -/
theorem letterbox_and_centerCrop_fit_strip :
    1 ≤ (⟨4, 4⟩ : Size).width ∧ 1 ≤ (⟨4, 4⟩ : Size).height ∧
      (strip.size.scaledBy (containFactor strip.size ⟨4, 4⟩)).height = 0 ∧
      (∃ canvas, strip.letterbox .triangle ⟨4, 4⟩ =
          .ok (canvas, { scale := containFactor strip.size ⟨4, 4⟩, pad := ⟨0, 1⟩ }) ∧
        canvas.size = ⟨4, 4⟩ ∧ strip.Letterboxed .triangle ⟨4, 1⟩ ⟨0, 1⟩ canvas) ∧
      strip.Cropped .triangle ⟨4000, 4⟩ ⟨1998, 0⟩ (strip.centerCrop .triangle ⟨4, 4⟩) := by
  have hwidth : 1 ≤ (⟨4, 4⟩ : Size).width := by decide
  have hheight : 1 ≤ (⟨4, 4⟩ : Size).height := by decide
  obtain ⟨-, hcanvas, -, -, hcut⟩ := letterbox_and_centerCrop_fit .triangle strip hwidth hheight
  have hsize : strip.size = ⟨1000, 1⟩ := rfl
  have hcontain : containSize ⟨1000, 1⟩ ⟨4, 4⟩ = ⟨4, 1⟩ := by decide +kernel
  have hcover : coverSize ⟨1000, 1⟩ ⟨4, 4⟩ = ⟨4000, 4⟩ := by decide +kernel
  rw [hsize, hcontain] at hcanvas
  rw [hsize, if_neg (by decide), hcover] at hcut
  exact ⟨hwidth, hheight, by rw [hsize]; decide +kernel, hcanvas, hcut⟩

end Picture

end GridNet
