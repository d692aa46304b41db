import GridNet.Proofs.BatchMembers
import GridNet.Proofs.LayerSizes

/-!
# Planes under a kernel

The loops of a convolution and of a deconvolution run over whole planes: every step changes many
elements of a plane, or none. Seen from one element, each step is a function of the sum so far, and
the loop is a fold of these functions.

* `Kernel.GoesThrough` — a list of triples in the order in which three nested loops reach them.
* `getElem?_foldl` — a loop over planes, seen from one element.
* `Tensor.get_convolve` — an element of the result is one of the plane of its image and filter.
* `Kernel.PlacesSigned` — places that the loops can compute.
* `Kernel.Suits`, `Graph.convolution_recorded` — what the recorder has checked, and what the
  evaluation makes of it.
-/

namespace GridNet

/-! ## Nested loops -/

namespace Kernel

/-- Three nested loops reach `a` before `b`: the outermost index counts first. -/
def Precedes (a b : Nat × Nat × Nat) : Prop :=
  a.1 < b.1 ∨ a.1 = b.1 ∧ (a.2.1 < b.2.1 ∨ a.2.1 = b.2.1 ∧ a.2.2 < b.2.2)

/-- A list **goes through** the triples with a property: it has each of them once, in the order of
nested loops. -/
structure GoesThrough (P : Nat × Nat × Nat → Prop) (l : List (Nat × Nat × Nat)) : Prop where
  ascending : l.Pairwise Precedes
  mem_iff : ∀ x, x ∈ l ↔ P x

section Loops

variable {P Q : Nat × Nat × Nat → Prop} {l : List (Nat × Nat × Nat)}

theorem GoesThrough.congr (h : GoesThrough P l) (hPQ : ∀ x, P x ↔ Q x) : GoesThrough Q l :=
  ⟨h.ascending, fun x => (h.mem_iff x).trans (hPQ x)⟩

/-- Some of the triples are passed over. -/
theorem GoesThrough.filter [DecidablePred Q] (h : GoesThrough P l) :
    GoesThrough (fun x => P x ∧ Q x) (l.filter fun x => Q x) :=
  ⟨h.ascending.filter _, fun x => by rw [List.mem_filter, h.mem_iff, decide_eq_true_eq]⟩

/-- The outermost index starts at `first`. -/
theorem GoesThrough.shift (h : GoesThrough P l) (first : Nat) :
    GoesThrough (fun x => first ≤ x.1 ∧ P (x.1 - first, x.2))
    (l.map fun x => (first + x.1, x.2)) := by
  refine ⟨List.pairwise_map.mpr (h.ascending.imp fun hab => ?_), fun x => ?_⟩
  · unfold Precedes at hab ⊢
    dsimp only
    omega
  · rw [List.mem_map]
    constructor
    · rintro ⟨y, hy, rfl⟩
      refine ⟨Nat.le_add_right _ _, ?_⟩
      rw [Nat.add_sub_cancel_left]
      exact (h.mem_iff y).mp hy
    · rintro ⟨hle, hx⟩
      refine ⟨(x.1 - first, x.2), (h.mem_iff _).mpr hx, ?_⟩
      rw [Nat.add_sub_cancel' hle]

/-- The loops over three ranges. -/
theorem elements_goesThrough (a b c : Nat) :
    GoesThrough (fun x => x.1 < a ∧ x.2.1 < b ∧ x.2.2 < c) (elements a b c) := by
  refine ⟨?_, fun x => ?_⟩
  · -- indices ascend within each loop, and a larger one of an outer loop comes later
    refine List.pairwise_flatMap.mpr ⟨fun i _ => List.pairwise_flatMap.mpr ⟨fun y _ => ?_, ?_⟩, ?_⟩
    · refine List.pairwise_map.mpr (List.pairwise_lt_range.imp fun hlt => ?_)
      exact .inr ⟨rfl, .inr ⟨rfl, hlt⟩⟩
    · refine List.pairwise_lt_range.imp fun hlt p hp q hq => ?_
      obtain ⟨x, -, rfl⟩ := List.mem_map.mp hp
      obtain ⟨x', -, rfl⟩ := List.mem_map.mp hq
      exact .inr ⟨rfl, .inl hlt⟩
    · refine List.pairwise_lt_range.imp fun hlt p hp q hq => ?_
      simp only [List.mem_flatMap, List.mem_map] at hp hq
      obtain ⟨_, _, _, _, rfl⟩ := hp
      obtain ⟨_, _, _, _, rfl⟩ := hq
      exact .inl hlt
  · obtain ⟨i, y, x⟩ := x
    simp [elements]

theorem taps_eq_elements (k : Kernel) (groupChannels : Nat) :
    k.taps groupChannels = elements groupChannels k.size k.size := by
  simp [taps, cells, elements, List.map_flatMap, Function.comp_def]

end Loops

end Kernel

/-- A loop over planes, seen from one element: every step is a function of the sum so far. -/
theorem getElem?_foldl {α β : Type} {step : Array α → β → Array α} {share : α → β → α} {p : Nat}
    (h : ∀ plane x, (step plane x)[p]? = plane[p]?.map (share · x)) (l : List β) (plane : Array α) :
    (l.foldl step plane)[p]? = plane[p]?.map fun sum => l.foldl share sum := by
  induction l generalizing plane with
  | nil => simp
  | cons x l ih => rw [List.foldl_cons, ih, h, Option.map_map]; rfl

/-! ## Elements of batches -/

namespace Tensor

variable {t : Tensor} {n c h w b p y x : Nat}

/-- An element of a batch of images. -/
theorem get_image (ht : t.dims = [n, c, h, w]) (hb : b < n) (hp : p < c) (hy : y < h) (hx : x < w) :
    t.get [b, p, y, x] = t.item (((b * c + p) * h + y) * w + x) := by
  rw [get, ht]
  simp only [ravel, if_pos hb, if_pos hp, if_pos hy, if_pos hx, volume,
    Option.map_some, Nat.mul_one]
  refine congrArg t.item ?_
  ring

/-- **An element of the result** is one of the plane of its image and filter. -/
theorem get_convolve {fma : Scalar → Scalar → Scalar → Scalar} {k : Kernel}
    {outHeight outWidth oc oy ox : Nat}
    (ht : t.dims = [n, c, h, w]) (hb : b < n) (hoc : oc < k.filters) (hoy : oy < outHeight)
    (hox : ox < outWidth) :
    (t.convolve fma k outHeight outWidth).get [b, oc, oy, ox] =
      ((k.plane fma (t.image b) outHeight outWidth oc)[oy * outWidth + ox]?).getD .zero := by
  have hbatch : t.extent 0 = n := by simp [extent, ht]
  have hdims : (t.convolve fma k outHeight outWidth).dims =
      [n, k.filters, outHeight, outWidth] := by
    simp [convolve, ofFn, hbatch]
  have hjob : b * k.filters + oc < n * k.filters := place_lt hb hoc
  have hpixel : oy * outWidth + ox < outHeight * outWidth := place_lt hoy hox
  have hplace : ((b * k.filters + oc) * outHeight + oy) * outWidth + ox =
      (b * k.filters + oc) * (outHeight * outWidth) + (oy * outWidth + ox) := by ring
  have hin : (b * k.filters + oc) * (outHeight * outWidth) + (oy * outWidth + ox) <
      volume [n, k.filters, outHeight, outWidth] := by
    simpa [volume, Nat.mul_assoc] using place_lt hjob hpixel
  rw [get_image hdims hb hoc hoy hox, hplace, convolve, hbatch, item_ofFn hin,
    (place_div_mod _ hpixel).1,
    (place_div_mod _ hpixel).2, Array.getElem?_ofFn, dif_pos hjob, Option.getD_some]
  dsimp only
  rw [(place_div_mod b hoc).1, (place_div_mod b hoc).2]

/-- The elements of a batch are those of its images. -/
theorem element_image (ht : t.dims = [n, c, h, w]) (hb : b < n) (hp : p < c) (hy : y < h)
    (hx : x < w) :
    (t.image b).element p y x = t.get [b, p, y, x] := by
  rw [get_image ht hb hp hy hx]
  simp [image, extent, ht]

/-- The extents of an image are those of the batch. -/
theorem image_extents (ht : t.dims = [n, c, h, w]) (b : Nat) :
    (t.image b).channels = c ∧ (t.image b).height = h ∧ (t.image b).width = w := by
  simp [image, extent, ht]

end Tensor

/-! ## Recorded kernels -/

namespace Kernel

/-- A kernel **suits** a number of channels: this is what the recorder has checked. -/
structure Suits (k : Kernel) (channels : Nat) : Prop where
  size_pos : 0 < k.size
  stride_pos : 0 < k.stride
  groups_pos : 0 < k.groups
  filters_pos : 0 < k.filters
  channels_mod : channels % k.groups = 0
  filters_mod : k.filters % k.groups = 0
  weights_size : k.weights.size = k.filters * (channels / k.groups) * k.size * k.size
  bias_size : ∀ bias, k.bias = some bias → bias.size = k.filters

/-- The plane of a filter **starts** with its bias, and with zero if there are none. -/
def StartsAt (k : Kernel) (filter : Nat) (start : Scalar) : Prop :=
  match k.bias with
  | none => start = .zero
  | some bias => bias[filter]? = some start

/-- The places of the kernel's cells, laid over the positions of an axis, are **signed words**: the
loop over this axis computes them with a sign, before it takes off the padding. -/
def PlacesSigned (k : Kernel) (extent : Nat) : Prop :=
  ∀ i < extent, ∀ cell < k.size, i * k.stride + cell < Word.signedModulus

variable {k : Kernel} {channels filter : Nat}

theorem Suits.startsAt (h : k.Suits channels) (hfilter : filter < k.filters) :
    k.StartsAt filter (k.start filter) := by
  unfold StartsAt start
  cases hbias : k.bias with
  | none => rfl
  | some bias =>
    have hin : filter < bias.size := by rwa [h.bias_size bias hbias]
    simp [hin]

/-- The recorder counts the weights that there are. -/
theorem Suits.kernelLength (h : k.Suits channels) (hchannels : 0 < channels)
    (hroom : k.weights.size < Word.modulus) :
    Graph.kernelLength k channels = .ok k.weights.size := by
  rw [h.weights_size] at hroom ⊢
  exact Graph.kernelLength_of_lt h.size_pos h.groups_pos hchannels h.channels_mod hroom

/-- The filters of a kernel come in as many equal parts as its channels. -/
theorem Suits.filters_eq (h : k.Suits channels) : k.groups * (k.filters / k.groups) = k.filters :=
  Nat.mul_div_cancel' (Nat.dvd_of_mod_eq_zero h.filters_mod)

theorem Suits.channels_eq (h : k.Suits channels) : k.groups * (channels / k.groups) = channels :=
  Nat.mul_div_cancel' (Nat.dvd_of_mod_eq_zero h.channels_mod)

theorem Suits.groupFilters_pos (h : k.Suits channels) : 0 < k.filters / k.groups :=
  Nat.pos_of_ne_zero fun hzero => by
    have := h.filters_eq
    rw [hzero, Nat.mul_zero] at this
    exact h.filters_pos.ne this

theorem Suits.fits (h : k.Suits channels) : k.fits channels = true :=
  Kernel.fits_of_size h.groups_pos h.filters_pos h.channels_mod h.filters_mod
    h.weights_size h.bias_size

end Kernel

namespace Graph

variable {g : Graph} {input : TensorId} {k : Kernel} {r : Recorded} {t : Tensor}

/-- **A recorded kernel** suits the channels of its operand, and the evaluation applies it. -/
theorem convolution_recorded (hrecorded : g.addConvolution input k = .ok r)
    (hspans : g.Spans input t.dims) :
    ∃ n c h w outHeight outWidth, t.dims = [n, c, h, w] ∧ k.Suits c ∧
      k.extentBehind h = some outHeight ∧ k.extentBehind w = some outWidth ∧
      r.1.Spans r.2 [n, k.filters, outHeight, outWidth] ∧
      ∀ feeds, (Operation.convolution k).apply feeds [t] [n, k.filters, outHeight, outWidth] =
        .ok [t.convolve Scalar.fma k outHeight outWidth] := by
  obtain ⟨shape, haccepts, hresult⟩ := (addConvolution_eq_ok hrecorded).spans
  cases haccepts with
  | @convolution _ _ source _ n c h w height width hsource hd hsize hstride hgroups hfilters
      hc hf hweights hbias hh hw hshape =>
    have ht : t.dims = [n, c, h, w] := ((spans_iff hsource).mp hspans).trans hd
    have hsuits : k.Suits c :=
      ⟨hsize, hstride, hgroups, hfilters, hc, hf, (kernelLength_eq_ok hweights).1, hbias⟩
    refine ⟨n, c, h, w, height, width, ht, hsuits, (kernelExtent_eq_ok.mp hh).2,
      (kernelExtent_eq_ok.mp hw).2, hshape ▸ hresult, fun feeds => ?_⟩
    simp [Operation.apply, operand, demand, ht, Tensor.extent, hsuits.fits]

end Graph

/-! ## A small kernel -/

/-- A kernel of nine cells for each of two groups, which have one channel and one filter. -/
def Kernel.twoGroups (transposed : Bool) : Kernel where
  transposed
  filters := 2
  size := 3
  stride := 2
  padding := 1
  groups := 2
  weights := Array.ofFn fun i : Fin 18 => .ofNat i
  bias := some #[.one, .two]

namespace Graph

/-- A graph with one input, an image of two channels. -/
def twoChannels : Graph :=
  (empty.pushOne (.input "data") [] ⟨[1, 2, 2, 3], by decide, by decide, by decide⟩).1

/-- The sizes of the kernel on this image are small. -/
theorem twoGroups_exact (transposed : Bool) :
    (Operation.convolution (.twoGroups transposed)).Exact [[1, 2, 2, 3]] := by
  intro n c h w heq
  obtain ⟨rfl, rfl, rfl, rfl⟩ : 1 = n ∧ 2 = c ∧ 2 = h ∧ 3 = w := by simpa using heq
  cases transposed <;> decide

theorem twoChannels_spans : twoChannels.Spans 0 [1, 2, 2, 3] := ⟨_, rfl, rfl⟩

end Graph

end GridNet
