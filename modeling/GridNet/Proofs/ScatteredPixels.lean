import GridNet.Proofs.KernelPlanes
import Mathlib.Data.List.Nodup

/-!
# The pixels of a deconvolution

A deconvolution lets each input element change the part of a plane that lies under its kernel.
Turned inside out, every pixel takes in the input elements whose kernel lies above it, each through
one cell and once, in the order of the input. The steps may be any function, and the stride may be
larger or smaller than the kernel.

* `Kernel.Source` — the input elements that reach a pixel.
* `Kernel.getElem?_spread` — one input element, seen from one pixel.
* `Kernel.getElem?_deconvolvePlane` — one element of a plane.
* `Graph.deconvolution_scatters` — every pixel of a recorded deconvolution.
-/

namespace GridNet

namespace Kernel

variable {k : Kernel} {fma : Scalar → Scalar → Scalar → Scalar} {outHeight outWidth oy ox y x : Nat}

/-- The kernel, laid over its input position `i`, has a **cell above** the output position `o`. -/
def Above (k : Kernel) (o i : Nat) : Prop :=
  i * k.stride ≤ o + k.padding ∧ o + k.padding - i * k.stride < k.size

instance (k : Kernel) (o i : Nat) : Decidable (k.Above o i) := inferInstanceAs (Decidable (_ ∧ _))

/-- An input element that **reaches a pixel**, in one of `groupChannels` channels from
`first` on. -/
def Source (k : Kernel) (first groupChannels h w oy ox : Nat) (source : Nat × Nat × Nat) : Prop :=
  (first ≤ source.1 ∧ source.1 < first + groupChannels ∧ source.2.1 < h ∧ source.2.2 < w) ∧
    k.Above oy source.2.1 ∧ k.Above ox source.2.2

/-- A result is **scattered**: each pixel starts with the bias of its filter and takes in the input
elements that reach it, in order, each with the weight of the cell that is above the pixel. -/
structure Scatters (k : Kernel) (fma : Scalar → Scalar → Scalar → Scalar) (t weights : Tensor)
    (n c h w : Nat) (outHeight outWidth : Nat) (result : Tensor) : Prop where
  dims : result.dims = [n, k.filters, outHeight, outWidth]
  pixel : ∀ b < n, ∀ oc < k.filters, ∀ oy < outHeight, ∀ ox < outWidth, ∃ start sources,
    k.StartsAt oc start ∧
      GoesThrough (k.Source (oc / (k.filters / k.groups) * (c / k.groups))
        (c / k.groups) h w oy ox) sources ∧
      result.get [b, oc, oy, ox] = sources.foldl
        (fun sum (ic, iy, ix) => fma (t.get [b, ic, iy, ix])
          (weights.get [ic, oc % (k.filters / k.groups), oy + k.padding - iy * k.stride,
            ox + k.padding - ix * k.stride])
          sum)
        start

/-! ## One input element -/

/-- A position of the result is reached through a cell. -/
theorem reached_eq_some {extent i cell o : Nat} :
    k.reached extent i cell = some o ↔ i * k.stride + cell = o + k.padding ∧ o < extent := by
  unfold reached positionUnder
  dsimp only
  split
  · rw [Option.some.injEq]
    omega
  · simp only [reduceCtorEq, false_iff]
    omega

/-- One cell, seen from one pixel. -/
theorem getElem?_cell (k : Kernel) (y x ky kx : Nat) (hoy : oy < outHeight) (hox : ox < outWidth)
    (step : Scalar → Scalar) (plane : Array Scalar) :
    (match k.reached outHeight y ky with
      | none => plane
      | some oy' =>
        match k.reached outWidth x kx with
        | none => plane
        | some ox' => plane.modify (oy' * outWidth + ox') step)[oy * outWidth + ox]? =
      plane[oy * outWidth + ox]?.map fun sum =>
        if y * k.stride + ky = oy + k.padding ∧ x * k.stride + kx = ox + k.padding then step sum
          else sum := by
  cases hy : k.reached outHeight y ky with
  | none =>
    have hnot : ¬ y * k.stride + ky = oy + k.padding := fun heq => by
      rw [reached_eq_some.mpr ⟨heq, hoy⟩] at hy
      cases hy
    simp [hnot]
  | some oy' =>
    cases hx : k.reached outWidth x kx with
    | none =>
      have hnot : ¬ x * k.stride + kx = ox + k.padding := fun heq => by
        rw [reached_eq_some.mpr ⟨heq, hox⟩] at hx
        cases hx
      simp [hnot]
    | some ox' =>
      obtain ⟨hrow, -⟩ := reached_eq_some.mp hy
      obtain ⟨hcolumn, hox'⟩ := reached_eq_some.mp hx
      -- the cell reaches this pixel when row and column are the same
      have hsame : oy' * outWidth + ox' = oy * outWidth + ox ↔
          y * k.stride + ky = oy + k.padding ∧ x * k.stride + kx = ox + k.padding := by
        constructor
        · intro heq
          have hdiv := (place_div_mod oy' hox').1
          have hmod := (place_div_mod oy' hox').2
          rw [heq, (place_div_mod oy hox).1] at hdiv
          rw [heq, (place_div_mod oy hox).2] at hmod
          omega
        · rintro ⟨hrow', hcolumn'⟩
          obtain rfl : oy' = oy := by omega
          obtain rfl : ox' = ox := by omega
          rfl
      dsimp only
      rw [Array.getElem?_modify]
      by_cases hin : oy' * outWidth + ox' = oy * outWidth + ox
      · simp [hin, hsame.mp hin]
      · simp [hin, mt hsame.mpr hin]

/-- A pixel is under one cell of the kernel at most. -/
theorem filter_cells (k : Kernel) (oy ox y x : Nat) :
    (k.cells.filter fun cell => y * k.stride + cell.1 = oy + k.padding ∧ x * k.stride + cell.2 =
      ox + k.padding) =
      if k.Above oy y ∧ k.Above
        ox x then [(oy + k.padding - y * k.stride, ox + k.padding - x * k.stride)]
      else [] := by
  split
  · next habove =>
    obtain ⟨⟨hy, hky⟩, hx, hkx⟩ := habove
    have hnodup : k.cells.Nodup := List.Nodup.product List.nodup_range List.nodup_range
    have hmem : (oy + k.padding - y * k.stride, ox + k.padding - x * k.stride) ∈ k.cells :=
      mem_cells.mpr ⟨hky, hkx⟩
    have hcell : ∀ cell ∈ k.cells,
        decide (y * k.stride + cell.1 = oy + k.padding ∧ x * k.stride + cell.2 = ox + k.padding) =
          (cell == (oy + k.padding - y * k.stride, ox + k.padding - x * k.stride)) := by
      intro cell _
      rw [Bool.eq_iff_iff, decide_eq_true_eq, beq_iff_eq, Prod.ext_iff]
      dsimp only
      omega
    rw [List.filter_congr hcell, List.filter_beq, List.count_eq_one_of_mem hnodup hmem,
      List.replicate_one]
  · next habove =>
    rw [List.filter_eq_nil_iff]
    intro cell hmem
    obtain ⟨hky, hkx⟩ := mem_cells.mp hmem
    rw [decide_eq_true_eq]
    unfold Above at habove
    omega

/-- **One input element**, seen from one pixel. -/
theorem getElem?_spread (hoy : oy < outHeight) (hox : ox < outWidth) (value : Scalar) (offset : Nat)
    (plane : Array Scalar) :
    (k.spread fma outHeight outWidth y x value offset plane)[oy * outWidth + ox]? =
      plane[oy * outWidth + ox]?.map fun sum =>
        if k.Above oy y ∧ k.Above ox x then
          fma value (k.weight (offset + (oy + k.padding - y * k.stride) * k.size +
            (ox + k.padding - x * k.stride))) sum
        else sum := by
  unfold spread
  refine (getElem?_foldl (fun plane cell => getElem?_cell k y x cell.1 cell.2 hoy hox
    (fma value (k.weight (offset + cell.1 * k.size + cell.2))) plane) k.cells plane).trans ?_
  refine congrArg (fun f => plane[oy * outWidth + ox]?.map f) (funext fun sum => ?_)
  have hfilter := congrArg
    (List.foldl (fun sum cell => fma value (k.weight (offset + cell.1 * k.size + cell.2)) sum) sum)
    (filter_cells k oy ox y x)
  rw [List.foldl_filter] at hfilter
  simp only [decide_eq_true_eq] at hfilter
  rw [hfilter]
  split <;> rfl

/-- **One element of a plane** is the fold of the input elements that reach it. -/
theorem getElem?_deconvolvePlane (k : Kernel) (fma : Scalar → Scalar → Scalar → Scalar)
    (image : Image) (oc : Nat) (hoy : oy < outHeight) (hox : ox < outWidth) : ∃ sources,
    GoesThrough (k.Source (oc / (k.filters / k.groups) * (image.channels / k.groups))
      (image.channels / k.groups) image.height image.width oy ox) sources ∧
      (k.deconvolvePlane fma image outHeight outWidth oc)[oy * outWidth + ox]? = some (sources.foldl
        (fun sum (ic, iy, ix) => fma (image.element ic iy ix)
          (k.weight ((ic * (k.filters / k.groups) + oc % (k.filters / k.groups)) * k.size * k.size +
            (oy + k.padding - iy * k.stride) * k.size + (ox + k.padding - ix * k.stride))) sum)
        (k.start oc)) := by
  have hloop := (elements_goesThrough (image.channels / k.groups) image.height image.width).filter
    (Q := fun x => k.Above oy x.2.1 ∧ k.Above ox x.2.2)
  refine ⟨_, (hloop.shift (oc / (k.filters / k.groups) * (image.channels / k.groups))).congr
    fun source => ?_, ?_⟩
  · constructor
    · rintro ⟨hfirst, ⟨hi, hy, hx⟩, habove⟩
      exact ⟨⟨hfirst, Nat.sub_lt_iff_lt_add' hfirst |>.mp hi, hy, hx⟩, habove⟩
    · rintro ⟨⟨hfirst, hi, hy, hx⟩, habove⟩
      exact ⟨hfirst, ⟨Nat.sub_lt_iff_lt_add' hfirst |>.mpr hi, hy, hx⟩, habove⟩
  · have hpixel : oy * outWidth + ox < outHeight * outWidth := place_lt hoy hox
    unfold deconvolvePlane
    dsimp only
    rw [getElem?_foldl fun plane source => getElem?_spread hoy hox .., Array.getElem?_replicate,
      if_pos hpixel, Option.map_some, List.foldl_map, List.foldl_filter]
    simp only [decide_eq_true_eq]

/-- The extent that an axis is spread to. -/
theorem extentBehind_scattered {extent outExtent : Nat} (hkind : k.transposed = true)
    (h : k.extentBehind extent = some outExtent) :
    2 * k.padding ≤ (extent - 1) * k.stride + k.size ∧
      outExtent = (extent - 1) * k.stride + k.size - 2 * k.padding := by
  rw [extentBehind, if_pos hkind] at h
  dsimp only at h
  split at h
  · next hfits => exact ⟨hfits, (Option.some.inj h).symm⟩
  · cases h

/-- The kernel stays on the extent that the axis is spread to. -/
theorem placesSigned_scattered {extent : Nat}
    (hexact : (extent - 1) * k.stride + k.size < Word.signedModulus) :
    k.PlacesSigned extent := by
  intro i hi cell hcell
  have hlast : i * k.stride ≤ (extent - 1) * k.stride := Nat.mul_le_mul_right _ (by omega)
  omega

end Kernel

namespace Graph

variable {g : Graph} {input : TensorId} {k : Kernel} {r : Recorded} {t : Tensor}

/-- **Every pixel of a recorded deconvolution** takes in the input elements that reach it, and the
loops compute no place that is not a signed word. -/
theorem deconvolution_scatters (feeds : Feeds) (hrecorded : g.addConvolution input k = .ok r)
    (hkind : k.transposed = true) (hspans : g.Spans input t.dims)
    (hexact : (Operation.convolution k).Exact [t.dims]) :
    ∃ n c h w outHeight outWidth weights, t.dims = [n, c, h, w] ∧
      (2 * k.padding ≤ (h - 1) * k.stride + k.size ∧
        outHeight = (h - 1) * k.stride + k.size - 2 * k.padding) ∧
      (2 * k.padding ≤ (w - 1) * k.stride + k.size ∧
        outWidth = (w - 1) * k.stride + k.size - 2 * k.padding) ∧
      (k.PlacesSigned h ∧ k.PlacesSigned w) ∧
      Tensor.ofArray? [c, k.filters / k.groups, k.size, k.size] k.weights = some weights ∧
      r.1.Spans r.2 [n, k.filters, outHeight, outWidth] ∧
      (Operation.convolution k).apply feeds [t] [n, k.filters, outHeight, outWidth] =
        .ok [t.convolve Scalar.fma k outHeight outWidth] ∧
      ∀ fma, k.Scatters fma t weights n c h w outHeight outWidth
        (t.convolve fma k outHeight outWidth) := by
  obtain ⟨n, c, h, w, outHeight, outWidth, ht, hsuits, hh, hw, hresult, happly⟩ :=
    convolution_recorded hrecorded hspans
  obtain ⟨-, -, hsums⟩ := hexact n c h w (congrArg (fun dims => [dims]) ht)
  rw [hkind] at hsums
  have hplaces : k.PlacesSigned h ∧ k.PlacesSigned w :=
    ⟨Kernel.placesSigned_scattered (hsums h (by simp)),
      Kernel.placesSigned_scattered (hsums w (by simp))⟩
  have hvolume : k.weights.size = volume [c, k.filters / k.groups, k.size, k.size] := by
    have hcounts : k.filters * (c / k.groups) = c * (k.filters / k.groups) := by
      calc k.filters * (c / k.groups) = k.groups * (k.filters / k.groups) * (c / k.groups) := by
            rw [hsuits.filters_eq]
        _ = k.groups * (c / k.groups) * (k.filters / k.groups) := Nat.mul_right_comm ..
        _ = c * (k.filters / k.groups) := by rw [hsuits.channels_eq]
    rw [hsuits.weights_size, hcounts]
    simp only [volume, Nat.mul_one, Nat.mul_assoc]
  refine ⟨n, c, h, w, outHeight, outWidth, ⟨_, k.weights, hvolume⟩, ht,
    Kernel.extentBehind_scattered hkind hh, Kernel.extentBehind_scattered hkind hw, hplaces,
    dif_pos hvolume, hresult, happly feeds, fun fma => ⟨?_, ?_⟩⟩
  · simp [Tensor.convolve, Tensor.ofFn, Tensor.extent, ht]
  · intro b hb oc hoc oy hoy ox hox
    obtain ⟨hchannels, hheight, hwidth⟩ := Tensor.image_extents ht b
    obtain ⟨sources, hsources, hfold⟩ :=
      Kernel.getElem?_deconvolvePlane k fma (t.image b) oc hoy hox
    rw [hchannels, hheight, hwidth] at hsources
    refine ⟨_, sources, hsuits.startsAt hoc, hsources, ?_⟩
    rw [Tensor.get_convolve ht hb hoc hoy hox, Kernel.plane, if_pos hkind, hfold, Option.getD_some]
    -- every source lies inside the image, and its cell inside the weights
    refine List.foldl_ext _ _ _ fun sum source hsource => ?_
    obtain ⟨⟨hfirst, hlast, hy, hx⟩, hrow, hcolumn⟩ := (hsources.mem_iff source).mp hsource
    have hchannel : source.1 < c := by
      have hgroup := Kernel.fits_channel hsuits.fits hoc
        (show source.1 - oc / (k.filters / k.groups) * (c / k.groups) < c / k.groups by omega)
      rwa [Nat.add_sub_cancel' hfirst] at hgroup
    dsimp only
    rw [Tensor.element_image ht hb hchannel hy hx,
      Tensor.get_image rfl hchannel (Nat.mod_lt _ hsuits.groupFilters_pos) hrow.2 hcolumn.2]
    refine congrArg (fun weight => fma _ weight sum) (congrArg k.weight ?_)
    ring

/-- A batch of one image: neighbours meet in some pixels, and the border is cut off. -/
theorem deconvolution_scatters_twoGroups :
    ∃ r, twoChannels.addConvolution 0 (.twoGroups true) = .ok r ∧
      (Kernel.twoGroups true).transposed = true ∧
      twoChannels.Spans 0 [1, 2, 2, 3] ∧ (Operation.convolution (.twoGroups true)).Exact
        [[1, 2, 2, 3]] ∧
      ∃ weights, ∀ fma, (Kernel.twoGroups true).Scatters fma
        (.ofFn [1, 2, 2, 3] .ofNat) weights 1 2 2 3 3 5
        (Tensor.convolve fma (.twoGroups true) 3 5 (.ofFn [1, 2, 2, 3] .ofNat)) := by
  refine ⟨_, rfl, rfl, twoChannels_spans, twoGroups_exact true, ?_⟩
  obtain ⟨n, c, h, w, _, _, weights, ht, ⟨-, rfl⟩, ⟨-, rfl⟩, -, -, -, -, hpixels⟩ :=
    deconvolution_scatters (t := .ofFn [1, 2, 2, 3] .ofNat) [] rfl rfl twoChannels_spans
      (twoGroups_exact true)
  obtain ⟨rfl, rfl, rfl, rfl⟩ : 1 = n ∧ 2 = c ∧ 2 = h ∧ 3 = w := by simpa [Tensor.ofFn] using ht
  exact ⟨weights, hpixels⟩

end Graph

end GridNet
