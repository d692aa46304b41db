import GridNet.Proofs.Breakdowns
import GridNet.Proofs.LayerSizes
import GridNet.Proofs.RecordedGraphs

/-!
# The checks of the recorder, taken exactly

The recorder checks the parameters of a call, which may be any words, with sums and products that
are counted. A call whose sums and products leave the range may break down; one that succeeds has
counted all of them. What it has passed is therefore the exact check.

* `Slides` — how often a window finds a place, in inequalities.
* `Recording.Passed` — what a call has been checked for and what it has recorded.
* `Graph.perform_passed` — every call of the recorder, on every graph.
* `Graph.checks_break_down` — calls that should be refused, and break down.
-/

namespace GridNet

/-! ## Sliding windows -/

/-- A window of the given extent, moved on by the stride, has **exactly so many places**: it fits,
and the last place is inside, but not a further one. -/
structure Slides (extent window stride count : Nat) : Prop where
  fits : window ≤ extent
  last : (count - 1) * stride + window ≤ extent
  next : extent < count * stride + window

/-- The count that the recorder infers is that of the places. -/
theorem windowCount_slides {extent window stride count : Nat} (hstride : 0 < stride)
    (h : windowCount extent window stride = some count) : Slides extent window stride count := by
  have hfits := windowCount_le h
  rw [windowCount, if_pos hfits] at h
  obtain rfl := Option.some.inj h
  have hlast : (extent - window) / stride * stride ≤ extent - window := Nat.div_mul_le_self _ _
  have hnext : extent - window < ((extent - window) / stride + 1) * stride := by
    rw [Nat.mul_comm]
    exact Nat.lt_mul_div_succ _ hstride
  exact ⟨hfits, by rw [Nat.add_sub_cancel]; omega, by omega⟩

/-! ## Exact checks -/

/-- The window has a part for each axis of the given extents. Its extents and strides are positive,
and the **last position** that it reaches is inside. -/
structure SliceWindow.Stays (w : SliceWindow) (dims : List Nat) : Prop where
  start_rank : w.start.length = dims.length
  size_rank : w.size.length = dims.length
  stride_rank : w.stride.length = dims.length
  axes : ∀ (axis : Nat) {extent start size stride : Nat}, dims[axis]? = some extent →
    w.start[axis]? = some start → w.size[axis]? = some size → w.stride[axis]? = some stride →
      0 < size ∧ 0 < stride ∧ start + (size - 1) * stride < extent

/-- Every position that a window reaches is the last one of an axis. -/
theorem SliceWindow.Stays.reach_lt {w : SliceWindow} {dims : List Nat}
    (h : w.Stays dims) {bound : Nat}
    (hdims : ∀ d ∈ dims, d < bound) : ∀ n ∈ w.reach, n < bound := by
  intro n hn
  obtain ⟨axis, hn⟩ := List.mem_iff_getElem?.mp hn
  obtain ⟨start, _, hstart, hrest, rfl⟩ := List.getElem?_zipWith_eq_some.mp hn
  obtain ⟨size, stride, hsize, hstride, rfl⟩ := List.getElem?_zipWith_eq_some.mp hrest
  have haxis : axis < dims.length := h.start_rank ▸ (List.getElem?_eq_some_iff.mp hstart).1
  have hextent := List.getElem?_eq_getElem haxis
  exact (h.axes axis hextent hstart hsize hstride).2.2.trans
    (hdims _ (List.mem_of_getElem? hextent))

/-- The extent **behind a kernel**: a kernel that gathers slides over the padded extent, and one
that spreads reaches further than the padding, which is taken off. -/
def Kernel.Leads (k : Kernel) (extent behind : Nat) : Prop :=
  if k.transposed then
    2 * k.padding < (extent - 1) * k.stride + k.size ∧
      behind = (extent - 1) * k.stride + k.size - 2 * k.padding
  else Slides (extent + 2 * k.padding) k.size k.stride behind

/-- What a call that leads from `g` to `g'` has been **checked** for, with exact sums and products,
and what it has recorded. Calls of the other kinds compute none. -/
def Recording.Passed (g g' : Graph) : Recording → Prop
  | slice t w => ∃ dims, g.Spans t dims ∧ w.Stays dims ∧ g'.Spans g.tensors.size w.size
  | pool t p => ∃ n c h w height width, g.Spans t [n, c, h, w] ∧
      Slides (h + (p.before.rows + p.after.rows)) p.window.rows p.stride.rows height ∧
      Slides (w + (p.before.columns + p.after.columns)) p.window.columns p.stride.columns width ∧
      g'.Spans g.tensors.size [n, c, height, width]
  | convolution t k => ∃ n c h w height width, g.Spans t [n, c, h, w] ∧
      k.weights.size = k.filters * (c / k.groups) * k.size ^ 2 ∧
      k.Leads h height ∧ k.Leads w width ∧ g'.Spans g.tensors.size [n, k.filters, height, width]
  | concat inputs axis =>
    ∃ first rest, List.Forall₂ g.Spans inputs (first :: rest) ∧ axis < first.length ∧
      rest.all (agreeExcept axis · first) = true ∧
      g'.Spans g.tensors.size (first.set axis ((first :: rest).map fun dims =>
        (dims[axis]?).getD 0).sum)
  | constant shape values => values.size = shape.dims.prod ∧ g'.Spans g.tensors.size shape.dims
  | reshape t dims =>
    ∃ source, g.Spans t source ∧ dims.prod = source.prod ∧ g'.Spans g.tensors.size dims
  | decode inputs d => ∃ images,
      List.Forall₂ (fun t head => g.Spans t [images, head.boxes * (5 + head.classes),
        head.gridHeight, head.gridWidth]) inputs d.heads ∧
      d.rows = (d.heads.map fun head => head.boxes * head.gridWidth * head.gridHeight).sum ∧
      g'.Spans g.tensors.size [images, d.rows, 4]
  | _ => True

/-! ## What the recorder checks -/

/-- A checked window stays inside. -/
theorem SliceWindow.stays_of_check {w : SliceWindow} {dims : List Nat}
    (hstart : w.start.length = dims.length)
    (hsize : w.size.length = dims.length) (hstride : w.stride.length = dims.length)
    (hcheck : Graph.checkSlice dims 0 (dims.zip (w.start.zip (w.size.zip w.stride))) = .ok ()) :
    w.Stays dims where
  start_rank := hstart
  size_rank := hsize
  stride_rank := hstride
  axes axis extent start size stride h₁ h₂ h₃ h₄ := by
    have hpart : (extent, start, size, stride) ∈ dims.zip (w.start.zip (w.size.zip w.stride)) :=
      List.mem_of_getElem? (List.getElem?_zip_eq_some.mpr ⟨h₁, List.getElem?_zip_eq_some.mpr
        ⟨h₂, List.getElem?_zip_eq_some.mpr ⟨h₃, h₄⟩⟩⟩)
    exact Graph.checkSlice_eq_ok hcheck _ hpart

namespace Graph

variable {g g' : Graph}

/-- The extent that the recorder infers behind a kernel. -/
theorem extentBehind_leads {k : Kernel} {extent behind : Nat} (hstride : 0 < k.stride)
    (hbehind : 0 < behind) (h : k.extentBehind extent = some behind) : k.Leads extent behind := by
  unfold Kernel.extentBehind at h
  unfold Kernel.Leads
  split at h
  · next hspreads =>
    rw [if_pos hspreads]
    dsimp only at h
    split at h
    · obtain rfl := Option.some.inj h
      exact ⟨Nat.lt_of_sub_pos hbehind, rfl⟩
    · cases h
  · next hgathers =>
    rw [if_neg hgathers]
    exact windowCount_slides hstride h

theorem spans_pushed (g : Graph) (op : Operation) (ids : List TensorId) {shape : Shape}
    {dims : List Nat}
    (h : shape.dims = dims) : (g.pushOne op ids shape).1.Spans g.tensors.size dims :=
  ⟨shape, shapeOf_pushed g op ids shape, h.symm⟩

/-- A call **went through**: all that it has computed are words, and it has passed the
exact check. -/
def WentThrough (g g' : Graph) (call : Recording) : Prop :=
  (∀ n ∈ call.sums g, n < Word.modulus) ∧ call.Passed g g'

section Records

variable {t : TensorId} {r : Recorded}

theorem Records.slice_through {w : SliceWindow} (h : g.Records (.slice w) [t] r) :
    g.WentThrough r.1 (.slice t w) := by
  obtain ⟨shape, haccepts, rfl⟩ := h
  cases haccepts with
  | @slice _ _ source _ hsource hstart hsize hstride hcheck hshape =>
    have hspans : g.Spans t source.dims := ⟨source, hsource, rfl⟩
    have hstays := SliceWindow.stays_of_check hstart hsize hstride hcheck
    exact ⟨hstays.reach_lt hspans.extents.2.1, _, hspans, hstays, spans_pushed _ _ _ hshape⟩

theorem Records.pool_through {p : PoolWindow} (h : g.Records (.pool p) [t] r) :
    g.WentThrough r.1 (.pool t p) := by
  obtain ⟨shape, haccepts, rfl⟩ := h
  cases haccepts with
  | @pool _ _ source _ n c h w height width hsource hdims _ _ hdown hright hheight hwidth hshape =>
    have hspans : g.Spans t [n, c, h, w] := ⟨source, hsource, hdims.symm⟩
    obtain ⟨hrows, hheight⟩ := poolExtent_eq_ok.mp hheight
    obtain ⟨hcolumns, hwidth⟩ := poolExtent_eq_ok.mp hwidth
    refine ⟨?_, n, c, h, w, height, width, hspans, windowCount_slides hdown hheight,
      windowCount_slides hright hwidth, spans_pushed _ _ _ hshape⟩
    rw [Recording.sums, hspans.extentsOf_eq]
    exact List.forall_mem_cons.mpr ⟨hrows, List.forall_mem_singleton.mpr hcolumns⟩

theorem Records.convolution_through {k : Kernel} (h : g.Records (.convolution k) [t] r) :
    g.WentThrough r.1 (.convolution t k) := by
  obtain ⟨shape, haccepts, rfl⟩ := h
  cases haccepts with
  | @convolution _ _ source _ n c h w height width hsource hdims _ hstride _ _ _ _ hweights
      _ hheight hwidth hshape =>
    have hspans : g.Spans t [n, c, h, w] := ⟨source, hsource, hdims.symm⟩
    obtain ⟨hcount, hword⟩ := kernelLength_eq_ok hweights
    have hproduct : k.weights.size = k.filters * (c / k.groups) * k.size ^ 2 := by
      rw [hcount, Nat.pow_two, Nat.mul_assoc]
    obtain ⟨hdown, hheight⟩ := kernelExtent_eq_ok.mp hheight
    obtain ⟨hright, hwidth⟩ := kernelExtent_eq_ok.mp hwidth
    -- the recorded extents are those of a shape, so a padding that is taken off leaves something
    have hpositive := shape.positive
    rw [hshape] at hpositive
    refine ⟨?_, n, c, h, w, height, width, hspans, hproduct,
      extentBehind_leads hstride (hpositive height (by simp)) hheight,
      extentBehind_leads hstride (hpositive width (by simp)) hwidth, spans_pushed _ _ _ hshape⟩
    rw [Recording.sums, hspans.extentsOf_eq]
    exact List.forall_mem_cons.mpr ⟨hproduct ▸ hword, List.forall_mem_append.mpr ⟨hdown, hright⟩⟩

theorem Records.concat_through {ids : List TensorId} {axis : Nat}
    (h : g.Records (.concat axis) ids r) :
    g.WentThrough r.1 (.concat ids axis) := by
  obtain ⟨shape, haccepts, rfl⟩ := h
  cases haccepts with
  | @concat first rest _ source _ hfirst haxis hdims =>
    obtain ⟨others, hrest⟩ := spans_of_concatDims hdims
    rw [← List.set_getElem_self haxis] at hdims
    obtain ⟨hagree, hwhole⟩ := concatDims_eq_ok _ haxis hrest hdims
    have hall : List.Forall₂ g.Spans (first :: rest) (source.dims :: others) :=
      .cons ⟨source, hfirst, rfl⟩ hrest
    have hsum : source.dims[axis] + (others.map fun dims => (dims[axis]?).getD 0).sum =
        ((source.dims :: others).map fun dims => (dims[axis]?).getD 0).sum := by
      rw [List.map_cons, List.sum_cons, List.getElem?_eq_getElem haxis, Option.getD_some]
    rw [hsum] at hwhole
    have hnew := spans_pushed g (.concat axis) (first :: rest) hwhole
    refine ⟨?_, source.dims, others, hall, haxis, hagree, hnew⟩
    -- the sum is an extent of the new tensor
    rw [Recording.sums_concat hall]
    exact List.forall_mem_singleton.mpr
      (hnew.extents.2.1 _ (List.mem_of_getElem? (List.getElem?_set_self haxis)))

theorem Records.reshape_through {dims : List Nat} (h : g.Records (.reshape dims) [t] r) :
    g.WentThrough r.1 (.reshape t dims) := by
  obtain ⟨shape, haccepts, rfl⟩ := h
  cases haccepts with
  | reshape hsource hshape helements =>
    refine ⟨nofun, _, ⟨_, hsource, rfl⟩, ?_, spans_pushed _ _ _ hshape⟩
    rw [← hshape, ← Shape.volume_eq_prod, ← Shape.volume_eq_prod]
    exact helements

theorem Accepts.constant_through {shape : Shape} {values : Array Scalar}
    (h : g.Accepts (.constant values) [] [shape]) :
    g.WentThrough (g.pushOne (.constant values) [] shape).1 (.constant shape values) := by
  cases h with
  | constant hcount => exact ⟨nofun, hcount.trans (Shape.volume_eq_prod _), spans_pushed _ _ _ rfl⟩

theorem Accepts.decode_through {ids : List TensorId} {d : HeadDecoder} {shapes : List Shape}
    (h : g.Accepts (.decode d) ids shapes) :
    g.WentThrough (g.push (.decode d) ids shapes).1 (.decode ids d) := by
  cases h with
  | @decode _ _ sources _ hsources hshapes =>
    have hcounted := HeadDecoder.countable_of_outputShapes hshapes
    obtain ⟨hlength, -, hrows, images, boxes, scores, rfl, hboxes, -, hheads⟩ :=
      HeadDecoder.outputShapes_eq_ok hshapes
    obtain ⟨hcount, hids⟩ := List.forall₂_iff_get.mp (Outcome.mapM_eq_ok.mp hsources)
    refine ⟨List.forall_mem_cons.mpr ⟨hcounted.rows, fun n hn => ?_⟩, images,
      List.forall₂_iff_get.mpr ⟨hcount.trans hlength, fun i hid hhead => ?_⟩, hrows.symm,
      boxes, shapeOf_pushed g _ ids boxes, hboxes.symm⟩
    · obtain ⟨head, hhead, hn⟩ := List.mem_flatMap.mp hn
      rcases List.mem_pair.mp hn with rfl | rfl
      · exact hcounted.classes head hhead
      · exact hcounted.channels head hhead
    · have hsource : i < sources.length := hlength ▸ hhead
      have hpair : (d.heads[i], sources[i]) ∈ d.heads.zip sources :=
        List.mem_iff_getElem.mpr ⟨i, by simp [hhead, hsource], by simp⟩
      exact ⟨sources[i], hids i hid hsource, (hheads _ hpair).symm⟩

end Records

/-- **Every call that succeeds** went through its check. -/
theorem wentThrough_of_perform {call : Recording} (h : g.perform call = .ok g') :
    g.WentThrough g' call := by
  cases call with
  | slice t w =>
    obtain ⟨r, hr, rfl⟩ := Outcome.map_eq_ok.mp h
    exact (addSlice_eq_ok hr).slice_through
  | pool t p =>
    obtain ⟨r, hr, rfl⟩ := Outcome.map_eq_ok.mp h
    exact (addPool_eq_ok hr).pool_through
  | convolution t k =>
    obtain ⟨r, hr, rfl⟩ := Outcome.map_eq_ok.mp h
    exact (addConvolution_eq_ok hr).convolution_through
  | concat ids axis =>
    obtain ⟨r, hr, rfl⟩ := Outcome.map_eq_ok.mp h
    exact (addConcat_eq_ok hr).concat_through
  | constant shape values =>
    obtain ⟨r, hr, rfl⟩ := Outcome.map_eq_ok.mp h
    obtain ⟨haccepts, rfl⟩ := addConstant_eq_ok hr
    exact haccepts.constant_through
  | reshape t dims =>
    obtain ⟨r, hr, rfl⟩ := Outcome.map_eq_ok.mp h
    exact (addReshape_eq_ok hr).reshape_through
  | decode ids d =>
    obtain ⟨r, hr, rfl⟩ := Outcome.map_eq_ok.mp h
    obtain ⟨shapes, haccepts, rfl⟩ := addDecode_eq_ok hr
    exact haccepts.decode_through
  | _ => exact ⟨nofun, trivial⟩

/-- **The checks of the recorder**. A call breaks down only where a sum or a product of its check is
no word. One that succeeds has computed words only, and has passed the exact check of its kind. -/
theorem perform_passed (g : Graph) (call : Recording) :
    (g.perform call = .error .brokenDown → ∃ n ∈ call.sums g, Word.modulus ≤ n) ∧
    ∀ g', g.perform call = .ok g' → (∀ n ∈ call.sums g, n < Word.modulus) ∧ call.Passed g g' := by
  refine ⟨fun hbroken => ?_, fun _ h => wentThrough_of_perform h⟩
  by_contra hnone
  refine g.perform_steady (fun n hn => Nat.lt_of_not_le fun hle => ?_) hbroken
  exact hnone ⟨n, hn, hle⟩

/-- Three inputs: one element, half as many as there are words, and an image of one pixel. -/
def wideInputs : Graph := recorded
  [.input "one" ⟨[1], by decide, by decide, by decide⟩,
    .input "half" ⟨[Word.signedModulus], by decide, by decide, by decide⟩,
    .input "pixel" pixelShape]

/-- The second input with the first one behind it. -/
theorem perform_passed_wideInputs : ∃ g', wideInputs.perform (.concat [1, 0] 0) = .ok g' ∧
    (∀ n ∈ (Recording.concat [1, 0] 0).sums wideInputs, n < Word.modulus) ∧
    (Recording.concat [1, 0] 0).Passed wideInputs g' :=
  ⟨_, rfl, (perform_passed wideInputs (.concat [1, 0] 0)).2 _ rfl⟩

/-- A window that starts at the last word and has two positions. -/
def overrunningSlice : Recording := .slice 0 ⟨[Word.modulus - 1], [2], [1]⟩

/-- A window of one pixel with as much padding as there are words. -/
def overpaddedPool : Recording :=
  .pool 2 { kind := .max, window := ⟨1, 1⟩, stride := ⟨1, 1⟩,
            before := ⟨Word.modulus - 1, 0⟩, after := ⟨1, 0⟩ }

/-- A kernel of one weight, whose padding is as large on both sides together. -/
def overpaddedDeconvolution : Recording :=
  .convolution 2 { transposed := true, filters := 1, size := 1, stride := 1,
                   padding := Word.signedModulus, groups := 1, weights := #[.one], bias := none }

/-- A kernel without weights for so many filters that the four weights of each are as many
as there are words. -/
def overlargeConvolution : Recording :=
  .convolution 2 { transposed := false, filters := Word.modulus / 4, size := 2, stride := 2,
                   padding := 1, groups := 1, weights := #[], bias := none }

/-- The second input twice. -/
def overlongJoin : Recording := .concat [1, 1] 0

/-- A call **breaks down unrefused**: the exact check cannot be passed, but this is not
what the call says. -/
def BreaksDownUnrefused (g : Graph) (call : Recording) : Prop :=
  g.perform call = .error .brokenDown ∧ ∀ g', ¬ call.Passed g g'

/-- **The checks break down** over sums and products that are no words: the last position of a
window, padded extents, the padding on both sides, the number of weights and the sum of extents. -/
theorem checks_break_down :
    wideInputs.BreaksDownUnrefused overrunningSlice ∧
      wideInputs.BreaksDownUnrefused overpaddedPool ∧
      wideInputs.BreaksDownUnrefused overpaddedDeconvolution ∧
      wideInputs.BreaksDownUnrefused overlargeConvolution ∧
      wideInputs.BreaksDownUnrefused overlongJoin := by
  have hone : wideInputs.Spans 0 [1] := ⟨_, rfl, rfl⟩
  have hpixel : wideInputs.Spans 2 [1, 1, 1, 1] := ⟨_, rfl, rfl⟩
  refine ⟨⟨rfl, fun g' => ?slice⟩, ⟨rfl, fun g' => ?pool⟩, ⟨rfl, fun g' => ?deconvolution⟩,
    ⟨rfl, fun g' => ?convolution⟩, ⟨rfl, fun g' => ?join⟩⟩
  case slice =>
    rintro ⟨dims, hinput, hstays, -⟩
    obtain rfl := hone.unique hinput
    exact absurd (hstays.axes 0 rfl rfl rfl rfl).2.2 (by decide)
  case pool =>
    rintro ⟨n, c, h, w, height, width, hinput, hrows, -, hrecorded⟩
    obtain ⟨rfl, rfl, rfl, rfl⟩ : 1 = n ∧ 1 = c ∧ 1 = h ∧ 1 = w := by
      simpa using hpixel.unique hinput
    -- there are more places than words
    have hplaces := hrows.next
    have hword := hrecorded.extents.2.1 height (by simp)
    dsimp only at hplaces
    omega
  case deconvolution =>
    rintro ⟨n, c, h, w, height, width, hinput, -, hdown, -⟩
    obtain ⟨rfl, rfl, rfl, rfl⟩ : 1 = n ∧ 1 = c ∧ 1 = h ∧ 1 = w := by
      simpa using hpixel.unique hinput
    exact absurd hdown.1 (by decide)
  case convolution =>
    rintro ⟨n, c, h, w, height, width, hinput, hweights, -⟩
    obtain ⟨rfl, rfl, rfl, rfl⟩ : 1 = n ∧ 1 = c ∧ 1 = h ∧ 1 = w := by
      simpa using hpixel.unique hinput
    exact absurd hweights (by decide)
  case join =>
    rintro ⟨first, rest, hinputs, -, -, hrecorded⟩
    obtain ⟨rfl, rfl⟩ : [Word.signedModulus] = first ∧ [[Word.signedModulus]] = rest :=
      List.cons.inj (Graph.map_extentsOf hinputs)
    exact absurd (hrecorded.extents.2.1 Word.modulus (by decide)) (by decide)

end Graph

end GridNet
