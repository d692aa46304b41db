import GridNet.Proofs.KernelPlanes

/-!
# The pixels of a convolution

A convolution lets each tap change a whole plane. Every pixel is nevertheless what it would be if it
gathered its own taps, one after the other: those whose input position lies inside the image, in the
order in which loops over the channels of its group and the rows and columns of the kernel reach
them. The steps may be any function.

* `Kernel.Tap` — the taps of a pixel.
* `Kernel.getElem?_convolvePlane` — one element of a plane.
* `Graph.convolution_gathers` — every pixel of a recorded convolution.
-/

namespace GridNet

namespace Kernel

variable {k : Kernel} {fma : Scalar → Scalar → Scalar → Scalar} {image : Image}
  {outHeight outWidth oy ox : Nat}

/-- A **tap of a pixel**: a channel of its group and a cell of the kernel, above an
element of the image. -/
def Tap (k : Kernel) (c h w oy ox : Nat) (tap : Nat × Nat × Nat) : Prop :=
  (tap.1 < c / k.groups ∧ tap.2.1 < k.size ∧ tap.2.2 < k.size) ∧
    (k.padding ≤ oy * k.stride + tap.2.1 ∧ oy * k.stride + tap.2.1 - k.padding < h) ∧
    (k.padding ≤ ox * k.stride + tap.2.2 ∧ ox * k.stride + tap.2.2 - k.padding < w)

/-- A result is **gathered**: each pixel starts with the bias of its filter and takes in
its taps, in order. -/
structure Gathers (k : Kernel) (fma : Scalar → Scalar → Scalar → Scalar) (t weights : Tensor)
    (n c h w : Nat) (outHeight outWidth : Nat) (result : Tensor) : Prop where
  dims : result.dims = [n, k.filters, outHeight, outWidth]
  pixel : ∀ b < n, ∀ oc < k.filters, ∀ oy < outHeight, ∀ ox < outWidth, ∃ start taps,
    k.StartsAt oc start ∧ GoesThrough (k.Tap c h w oy ox) taps ∧
      result.get [b, oc, oy, ox] = taps.foldl
        (fun sum (i, ky, kx) => fma
          (t.get [b, oc / (k.filters / k.groups) * (c / k.groups) + i,
            oy * k.stride + ky - k.padding, ox * k.stride + kx - k.padding])
          (weights.get [oc, i, ky, kx]) sum)
        start

/-- A position is under a cell of the window, or the cell covers none. -/
theorem positionUnder_eq (stride padding extent o cell : Nat) :
    positionUnder stride padding extent o cell =
    if padding ≤ o * stride + cell ∧
      o * stride + cell - padding < extent then some (o * stride + cell - padding)
    else none := rfl

/-- One tap, seen from one pixel. -/
theorem getElem?_addTap (hox : ox < outWidth) (channel ky kx : Nat) (weight : Scalar)
    (plane : Array Scalar) :
    (k.addTap fma image outWidth channel ky kx weight plane)[oy * outWidth + ox]? =
      plane[oy * outWidth + ox]?.map fun sum =>
        if (k.padding ≤ oy * k.stride + ky ∧ oy * k.stride + ky - k.padding < image.height) ∧
            (k.padding ≤ ox * k.stride + kx ∧ ox * k.stride + kx - k.padding < image.width) then
          fma (image.element channel (oy * k.stride + ky - k.padding)
            (ox * k.stride + kx - k.padding)) weight sum
        else sum := by
  rw [addTap, Array.getElem?_mapIdx, (place_div_mod oy hox).1, (place_div_mod oy hox).2]
  refine congrArg (fun f => plane[oy * outWidth + ox]?.map f) (funext fun sum => ?_)
  rw [positionUnder_eq, positionUnder_eq]
  by_cases hy : k.padding ≤ oy * k.stride + ky ∧ oy * k.stride + ky - k.padding < image.height
  · by_cases hx : k.padding ≤ ox * k.stride + kx ∧ ox * k.stride + kx - k.padding < image.width
    · rw [if_pos hy, if_pos hx, if_pos ⟨hy, hx⟩]
    · rw [if_pos hy, if_neg hx, if_neg fun hin => hx hin.2]
  · rw [if_neg hy]
    exact (if_neg fun hin => hy hin.1).symm

/-- **One element of a plane** is the fold of its own taps. -/
theorem getElem?_convolvePlane (k : Kernel) (fma : Scalar → Scalar → Scalar → Scalar)
    (image : Image) (oc : Nat) (hoy : oy < outHeight) (hox : ox < outWidth) : ∃ taps,
    GoesThrough (k.Tap image.channels image.height image.width oy ox) taps ∧
      (k.convolvePlane fma image outHeight outWidth oc)[oy * outWidth + ox]? = some (taps.foldl
        (fun sum (i, ky, kx) => fma
          (image.element (oc / (k.filters / k.groups) * (image.channels / k.groups) + i)
            (oy * k.stride + ky - k.padding) (ox * k.stride + kx - k.padding))
          (k.weight (((oc * (image.channels / k.groups) + i) * k.size + ky) * k.size + kx)) sum)
        (k.start oc)) := by
  refine ⟨_, (elements_goesThrough (image.channels / k.groups) k.size k.size).filter, ?_⟩
  have hpixel : oy * outWidth + ox < outHeight * outWidth := place_lt hoy hox
  unfold convolvePlane
  dsimp only
  rw [taps_eq_elements, getElem?_foldl fun plane tap => getElem?_addTap hox ..,
    Array.getElem?_replicate, if_pos hpixel, Option.map_some, List.foldl_filter]
  simp only [decide_eq_true_eq]

/-- The places of the kernel on an axis. -/
theorem extentBehind_gathered {extent outExtent : Nat} (hkind : k.transposed = false)
    (h : k.extentBehind extent = some outExtent) :
    k.size ≤ extent + 2 * k.padding ∧
      outExtent = (extent + 2 * k.padding - k.size) / k.stride + 1 := by
  rw [extentBehind, hkind, if_neg Bool.false_ne_true, gatheredExtent, windowCount] at h
  split at h
  · next hfits => exact ⟨hfits, (Option.some.inj h).symm⟩
  · cases h

/-- The kernel stays on the padded extent. -/
theorem placesSigned_gathered {extent outExtent : Nat} (hsize : k.size ≤ extent + 2 * k.padding)
    (hout : outExtent = (extent + 2 * k.padding - k.size) / k.stride + 1)
    (hexact : extent + 2 * k.padding < Word.signedModulus) : k.PlacesSigned outExtent := by
  intro o ho cell hcell
  have hlast : o * k.stride ≤ extent + 2 * k.padding - k.size :=
    calc o * k.stride ≤ (extent + 2 * k.padding - k.size) / k.stride * k.stride :=
          Nat.mul_le_mul_right _ (by omega)
      _ ≤ extent + 2 * k.padding - k.size := Nat.div_mul_le_self _ _
  omega

end Kernel

namespace Graph

variable {g : Graph} {input : TensorId} {k : Kernel} {r : Recorded} {t : Tensor}

/-- **Every pixel of a recorded convolution** is gathered from its taps, and the loops compute no
place that is not a signed word. -/
theorem convolution_gathers (feeds : Feeds) (hrecorded : g.addConvolution input k = .ok r)
    (hkind : k.transposed = false) (hspans : g.Spans input t.dims)
    (hexact : (Operation.convolution k).Exact [t.dims]) :
    ∃ n c h w outHeight outWidth weights, t.dims = [n, c, h, w] ∧
      (k.size ≤ h + 2 * k.padding ∧ outHeight = (h + 2 * k.padding - k.size) / k.stride + 1) ∧
      (k.size ≤ w + 2 * k.padding ∧ outWidth = (w + 2 * k.padding - k.size) / k.stride + 1) ∧
      (k.PlacesSigned outHeight ∧ k.PlacesSigned outWidth) ∧
      Tensor.ofArray? [k.filters, c / k.groups, k.size, k.size] k.weights = some weights ∧
      r.1.Spans r.2 [n, k.filters, outHeight, outWidth] ∧
      (Operation.convolution k).apply feeds [t] [n, k.filters, outHeight, outWidth] =
        .ok [t.convolve Scalar.fma k outHeight outWidth] ∧
      ∀ fma, k.Gathers fma t weights n c h w outHeight outWidth
        (t.convolve fma k outHeight outWidth) := by
  obtain ⟨n, c, h, w, outHeight, outWidth, ht, hsuits, hh, hw, hresult, happly⟩ :=
    convolution_recorded hrecorded hspans
  have hvolume : k.weights.size = volume [k.filters, c / k.groups, k.size, k.size] := by
    rw [hsuits.weights_size]
    simp only [volume, Nat.mul_one, Nat.mul_assoc]
  have hheight := Kernel.extentBehind_gathered hkind hh
  have hwidth := Kernel.extentBehind_gathered hkind hw
  obtain ⟨-, -, hsums⟩ := hexact n c h w (congrArg (fun dims => [dims]) ht)
  rw [hkind] at hsums
  have hplaces : k.PlacesSigned outHeight ∧ k.PlacesSigned outWidth :=
    ⟨Kernel.placesSigned_gathered hheight.1 hheight.2 (hsums h (by simp)),
      Kernel.placesSigned_gathered hwidth.1 hwidth.2 (hsums w (by simp))⟩
  refine ⟨n, c, h, w, outHeight, outWidth, ⟨_, k.weights, hvolume⟩, ht, hheight, hwidth, hplaces,
    dif_pos hvolume, hresult, happly feeds, fun fma => ⟨?_, ?_⟩⟩
  · simp [Tensor.convolve, Tensor.ofFn, Tensor.extent, ht]
  · intro b hb oc hoc oy hoy ox hox
    obtain ⟨hchannels, hheight, hwidth⟩ := Tensor.image_extents ht b
    obtain ⟨taps, htaps, hfold⟩ := Kernel.getElem?_convolvePlane k fma (t.image b) oc hoy hox
    rw [hchannels, hheight, hwidth] at htaps
    rw [hchannels] at hfold
    refine ⟨_, taps, hsuits.startsAt hoc, htaps, ?_⟩
    rw [Tensor.get_convolve ht hb hoc hoy hox, Kernel.plane,
      if_neg (by rw [hkind]; exact Bool.false_ne_true), hfold, Option.getD_some]
    -- every tap lies inside the image and inside the weights
    refine List.foldl_ext _ _ _ fun sum tap htap => ?_
    obtain ⟨⟨hi, hky, hkx⟩, hy, hx⟩ := (htaps.mem_iff tap).mp htap
    have hchannel := Kernel.fits_channel hsuits.fits hoc hi
    dsimp only
    rw [Tensor.element_image ht hb hchannel hy.2 hx.2, Tensor.get_image rfl hoc hi hky hkx]
    rfl

/-- A batch of one image: each pixel starts with its bias and has four taps. -/
theorem convolution_gathers_twoGroups :
    ∃ r, twoChannels.addConvolution 0 (.twoGroups false) = .ok r ∧
      (Kernel.twoGroups false).transposed = false ∧
      twoChannels.Spans 0 [1, 2, 2, 3] ∧ (Operation.convolution (.twoGroups false)).Exact
        [[1, 2, 2, 3]] ∧
      ∃ weights, ∀ fma, (Kernel.twoGroups false).Gathers fma
        (.ofFn [1, 2, 2, 3] .ofNat) weights 1 2 2 3 1 2
        (Tensor.convolve fma (.twoGroups false) 1 2 (.ofFn [1, 2, 2, 3] .ofNat)) := by
  refine ⟨_, rfl, rfl, twoChannels_spans, twoGroups_exact false, ?_⟩
  obtain ⟨n, c, h, w, _, _, weights, ht, ⟨-, rfl⟩, ⟨-, rfl⟩, -, -, -, -, hpixels⟩ :=
    convolution_gathers (t := .ofFn [1, 2, 2, 3] .ofNat) [] rfl rfl twoChannels_spans
      (twoGroups_exact false)
  obtain ⟨rfl, rfl, rfl, rfl⟩ : 1 = n ∧ 2 = c ∧ 2 = h ∧ 3 = w := by simpa [Tensor.ofFn] using ht
  exact ⟨weights, hpixels⟩

end Graph

end GridNet
