import GridNet.Graph.Evaluation
import GridNet.Proofs.DecodeSoundness

/-!
# Every operation finds what it reads

The recorder infers the extents of a node's results from those of its operands; the evaluation works
them out again from the operands themselves, and reads operands, weights and start values at
positions of its own. What the recorder has counted is exact, so the two agree: no operation breaks
down on operands of the recorded extents, and its results have the inferred ones.

* `Operation.Exact` — the sizes that the recorder computes stay in range.
* `Kernel.fits_of_size` — a kernel of the right size has every weight that its planes read.
* `Graph.Accepts.apply_ok` — the agreement, one case for each kind of node.
-/

namespace GridNet

/-- **Exact sizes**: what the recorder computes for a node on operands of the given extents, taken
among the natural numbers, is a size that an array can have. -/
def Operation.Exact (operands : List (List Nat)) : Operation → Prop
  | .convolution k => ∀ n c h w, operands = [[n, c, h, w]] →
      k.filters * (c / k.groups) * k.size * k.size < Word.signedModulus ∧
      2 * k.padding < Word.signedModulus ∧
      ∀ extent ∈ [h, w],
        if k.transposed then (extent - 1) * k.stride + k.size < Word.signedModulus
        else extent + 2 * k.padding < Word.signedModulus
  | .concat axis => (operands.map fun dims => (dims[axis]?).getD 0).sum < Word.signedModulus
  | .slice w => ∀ last ∈ w.reach, last < Word.signedModulus
  | .pool p => ∀ n c h w, operands = [[n, c, h, w]] →
      h + (p.before.rows + p.after.rows) < Word.signedModulus ∧
      w + (p.before.columns + p.after.columns) < Word.signedModulus
  | .decode d => d.Exact
  | _ => True

/-- A decode node has anchors and values for all its boxes. -/
def Operation.Anchored : Operation → Prop
  | .decode d => d.Anchored
  | _ => True

/-- A tensor is recorded with the given extents. -/
def Graph.Spans (g : Graph) (t : TensorId) (dims : List Nat) : Prop :=
  ∃ s, g.shapeOf t = .ok s ∧ dims = s.dims

/-! ## Kernels -/

theorem place_lt {a A b B : Nat} (ha : a < A) (hb : b < B) : a * B + b < A * B :=
  calc a * B + b < a * B + B := Nat.add_lt_add_left hb _
    _ = (a + 1) * B := (Nat.succ_mul a B).symm
    _ ≤ A * B := Nat.mul_le_mul_right B ha

theorem Kernel.mem_cells {k : Kernel} {cell : Nat × Nat} :
    cell ∈ k.cells ↔ cell.1 < k.size ∧ cell.2 < k.size := by
  obtain ⟨ky, kx⟩ := cell
  simp [cells]

/-- The weights of one cell of the kernel come behind those of the cells in front of it. -/
theorem Kernel.place_lt_size {k : Kernel} {first total : Nat} (hfirst : first < total)
    {cell : Nat × Nat} (hcell : cell ∈ k.cells) (hsize : k.weights.size = total * k.size * k.size) :
    (first * k.size + cell.1) * k.size + cell.2 < k.weights.size := by
  obtain ⟨hy, hx⟩ := Kernel.mem_cells.mp hcell
  rw [hsize]
  exact place_lt (place_lt hfirst hy) hx

/-- **A kernel of the right size fits**: all weights, channels and start values that its planes read
are there. -/
theorem Kernel.fits_of_size {k : Kernel} {channels : Nat} (hgroups : 0 < k.groups)
    (hfilters : 0 < k.filters) (hc : channels % k.groups = 0) (hf : k.filters % k.groups = 0)
    (hweights : k.weights.size = k.filters * (channels / k.groups) * k.size * k.size)
    (hbias : ∀ bias, k.bias = some bias → bias.size = k.filters) : k.fits channels = true := by
  -- channels and filters both come in `groups` equal parts
  obtain ⟨cg, rfl⟩ := Nat.dvd_of_mod_eq_zero hc
  obtain ⟨fg, hfg⟩ := Nat.dvd_of_mod_eq_zero hf
  have hcg : k.groups * cg / k.groups = cg := Nat.mul_div_cancel_left cg hgroups
  have hdiv : k.filters / k.groups = fg := by rw [hfg, Nat.mul_div_cancel_left fg hgroups]
  have hfgpos : 0 < fg := Nat.pos_of_ne_zero fun h => by simp [hfg, h] at hfilters
  rw [hcg] at hweights
  simp only [fits, hcg, hdiv, Bool.and_eq_true, decide_eq_true_eq, List.all_eq_true, List.mem_range]
  refine ⟨⟨by omega, by omega⟩, fun filter hfilter => ⟨?_, fun i hi => ?_⟩⟩
  · rcases hb : k.bias with _ | bias
    · rfl
    · simpa [hbias bias hb] using hfilter
  have hgroup : filter / fg < k.groups :=
    Nat.div_lt_of_lt_mul (by rwa [Nat.mul_comm, ← hfg])
  have hchannel : filter / fg * cg + i < k.groups * cg := place_lt hgroup hi
  refine ⟨hchannel, fun cell hcell => Kernel.place_lt_size ?_ hcell hweights⟩
  split
  · -- transposed: the channels come first, and each has the filters of its group
    have hplace := place_lt hchannel (Nat.mod_lt filter hfgpos)
    rwa [show k.groups * cg * fg = k.filters * cg by rw [hfg]; ring] at hplace
  · exact place_lt hfilter hi

/-- The recorder's count of weights is exact. -/
theorem Graph.kernelLength_eq_ok {k : Kernel} {channels n : Nat}
    (h : kernelLength k channels = .ok n) :
    n = k.filters * (channels / k.groups) * k.size * k.size ∧ n < Word.modulus :=
  let ⟨hproduct, hlt⟩ := Word.product_eq_ok h
  ⟨hproduct.symm, hlt (List.cons_ne_nil _ _)⟩

/-- A count of weights that is in range is taken. -/
theorem Graph.kernelLength_of_lt {k : Kernel} {channels : Nat} (hsize : 0 < k.size)
    (hgroups : 0 < k.groups) (hchannels : 0 < channels) (hdivides : channels % k.groups = 0)
    (h : k.filters * (channels / k.groups) * k.size * k.size < Word.modulus) :
    kernelLength k channels = .ok (k.filters * (channels / k.groups) * k.size * k.size) := by
  have hgroup : 0 < channels / k.groups :=
    Nat.div_pos (Nat.le_of_dvd hchannels (Nat.dvd_of_mod_eq_zero hdivides)) hgroups
  exact Word.product_of_lt (by simp [hgroup, hsize]) h

/-! ## Windows -/

/-- Every axis of a checked window has a positive extent and step, and its last position
is inside. -/
theorem Graph.checkSlice_eq_ok {dims : List Nat} {axis : Nat}
    {parts : List (Nat × Nat × Nat × Nat)} (h : Graph.checkSlice dims axis parts = .ok ()) :
    ∀ part ∈ parts, 0 < part.2.2.1 ∧ 0 < part.2.2.2 ∧
      part.2.1 + (part.2.2.1 - 1) * part.2.2.2 < part.1 := by
  induction parts generalizing axis with
  | nil => exact fun _ hp => absurd hp List.not_mem_nil
  | cons part rest ih =>
    obtain ⟨extent, start, size, stride⟩ := part
    simp only [Graph.checkSlice, Outcome.bind_eq_ok, Outcome.ensure_eq_ok, Word.add_eq_ok,
      Word.mul_eq_ok, Bool.and_eq_true, decide_eq_true_eq] at h
    obtain ⟨-, ⟨hsize, hstride⟩, _, ⟨-, rfl⟩, _, ⟨-, rfl⟩, -, hlast, h⟩ := h
    intro part hp
    rcases List.mem_cons.mp hp with rfl | hp
    · exact ⟨hsize, hstride, hlast⟩
    · exact ih h part hp

/-- **A checked window fits.** -/
theorem SliceWindow.fits_of_check {w : SliceWindow} {dims : List Nat}
    (hstart : w.start.length = dims.length) (hsize : w.size.length = dims.length)
    (hstride : w.stride.length = dims.length)
    (hcheck : Graph.checkSlice dims 0 (dims.zip (w.start.zip (w.size.zip w.stride))) = .ok ()) :
    w.fits dims = true := by
  have hparts := Graph.checkSlice_eq_ok hcheck
  simp only [fits, hstart, hsize, hstride, decide_true, Bool.true_and, List.all_eq_true]
  intro inside hinside
  obtain ⟨i, hi, rfl⟩ := List.getElem_of_mem hinside
  simp only [reach, List.length_zipWith, hstart, hsize, hstride, Nat.lt_min] at hi
  obtain ⟨-, -, h⟩ := hparts (dims[i], w.start[i], w.size[i], w.stride[i])
    (List.mem_iff_getElem.mpr ⟨i, by simp [hstart, hsize, hstride, hi], by simp⟩)
  simpa [reach] using h

/-! ## Tensors laid end to end -/

theorem agreeExcept_set {axis n : Nat} {a b : List Nat} :
    agreeExcept axis a (b.set axis n) = agreeExcept axis a b := by
  simp only [agreeExcept, List.length_set]
  congr 1
  refine List.all_congr rfl fun i => ?_
  by_cases h : i = axis
  · simp [h]
  · simp [h, List.getElem?_set_ne (Ne.symm h)]

/-- The extents of tensors laid end to end, when each has the recorded ones: all agree with the
first, and the extents along the axis add up. -/
theorem Graph.concatDims_eq_ok {g : Graph} {axis : Nat} {source whole : List Nat} (n : Nat)
    {ids : List TensorId} {operands : List (List Nat)} (haxis : axis < source.length)
    (hids : List.Forall₂ g.Spans ids operands)
    (h : Graph.concatDims g axis (source.set axis n) ids = .ok whole) :
    operands.all (agreeExcept axis · source) = true ∧
      whole = source.set axis (n + (operands.map fun dims => (dims[axis]?).getD 0).sum) := by
  induction hids generalizing n with
  | nil => exact ⟨rfl, (Except.ok.inj h).symm⟩
  | @cons t dims ids operands hshape _ ih =>
    obtain ⟨s, hs, rfl⟩ := hshape
    simp only [Graph.concatDims, Outcome.bind_eq_ok, Outcome.ensure_eq_ok, Word.add_eq_ok, hs,
      Except.ok.injEq, exists_eq_left', agreeExcept_set] at h
    obtain ⟨-, hagree, _, ⟨-, rfl⟩, h⟩ := h
    rw [List.getElem?_set_self haxis, Option.getD_some, List.set_set] at h
    obtain ⟨hall, hwhole⟩ := ih _ h
    exact ⟨by simp [hagree, hall], by rw [hwhole, List.map_cons, List.sum_cons, ← Nat.add_assoc]⟩

/-! ## All kinds of node -/

theorem forall₂_singleton_left {α β : Type} {R : α → β → Prop} {a : α} {bs : List β} :
    List.Forall₂ R [a] bs ↔ ∃ b, R a b ∧ bs = [b] := by
  simp [List.forall₂_cons_left_iff]

namespace Graph

variable {g : Graph}

theorem spans_iff {t : TensorId} {s : Shape} (h : g.shapeOf t = .ok s) {dims : List Nat} :
    g.Spans t dims ↔ dims = s.dims := by
  simp [Spans, h]

/-- The only operand of a node. -/
theorem operand_of_spans {t : TensorId} {s : Shape} {operands : List Tensor}
    (h : g.shapeOf t = .ok s) (hspans : List.Forall₂ (g.Spans · ·.dims) [t] operands) :
    ∃ v, operands = [v] ∧ v.dims = s.dims := by
  obtain ⟨v, hv, rfl⟩ := forall₂_singleton_left.mp hspans
  exact ⟨v, rfl, (spans_iff h).mp hv⟩

/-- Tensors that are laid end to end are recorded. -/
theorem spans_of_concatDims {axis : Nat} {dims whole : List Nat} {ids : List TensorId}
    (h : concatDims g axis dims ids = .ok whole) :
    ∃ operands, List.Forall₂ g.Spans ids operands := by
  induction ids generalizing dims with
  | nil => exact ⟨[], .nil⟩
  | cons t ids ih =>
    simp only [concatDims, Outcome.bind_eq_ok] at h
    obtain ⟨s, hs, -, -, _, -, h⟩ := h
    obtain ⟨operands, hoperands⟩ := ih h
    exact ⟨s.dims :: operands, .cons ⟨s, hs, rfl⟩ hoperands⟩

/-- Concatenation succeeds: the extents found during evaluation are the recorded ones. -/
theorem concatExtents_eq {axis : Nat} {first : TensorId} {rest : List TensorId}
    {source shape : Shape} {operands : List (List Nat)} (hfirst : g.shapeOf first = .ok source)
    (haxis : axis < source.dims.length)
    (hdims : concatDims g axis source.dims rest = .ok shape.dims)
    (hspans : List.Forall₂ g.Spans (first :: rest) operands) :
    concatExtents axis operands = some shape.dims := by
  obtain ⟨dims, others, hd, hothers, rfl⟩ := List.forall₂_cons_left_iff.mp hspans
  obtain rfl := (spans_iff hfirst).mp hd
  rw [← List.set_getElem_self haxis] at hdims
  obtain ⟨hall, hwhole⟩ := concatDims_eq_ok _ haxis hothers hdims
  simp [concatExtents, haxis, hall, hwhole, List.sum_eq_foldr]

/-- **Every operation succeeds** on operands of the recorded extents, and its results have the
inferred ones. -/
theorem Accepts.apply_ok {op : Operation} {inputs : List TensorId} {shapes : List Shape}
    {operands : List Tensor} (feeds : Feeds) (h : g.Accepts op inputs shapes)
    (hspans : List.Forall₂ (g.Spans · ·.dims) inputs operands) (hanchored : op.Anchored) :
    ∃ results, op.apply feeds operands (((shapes.head?).map (·.dims)).getD []) = .ok results ∧
      results.map (·.dims) = shapes.map (·.dims) := by
  cases h with
  | @convolution _ k source shape n c h w height width hsource hd _ _ hgroups hfilters
      hc hf hweights hbias _ _ hshape =>
    obtain ⟨v, rfl, hv⟩ := operand_of_spans hsource hspans
    rw [hd] at hv
    have hfits : k.fits c = true := Kernel.fits_of_size hgroups hfilters hc hf
      (kernelLength_eq_ok hweights).1 hbias
    refine ⟨[v.convolve Scalar.fma k height width], ?_, ?_⟩
    · simp [Operation.apply, operand, demand, hv, hshape, Tensor.extent, hfits]
    · simp [Tensor.convolve, Tensor.ofFn, Tensor.extent, hv, hshape]
  | @scale _ m shape n c h w hsource hd _ =>
    obtain ⟨v, rfl, hv⟩ := operand_of_spans hsource hspans
    refine ⟨[v.mapChannels m], ?_, by simp [Tensor.mapChannels, Tensor.ofFn, hv]⟩
    simp [Operation.apply, operand, demand, hv, hd]
  | @combine left right c a b shape ha hb hdims =>
    obtain ⟨x, rest, hx, hrest, rfl⟩ := List.forall₂_cons_left_iff.mp hspans
    obtain ⟨y, rfl, hy⟩ := operand_of_spans hb hrest
    have hx := (spans_iff ha).mp hx
    refine ⟨[Tensor.broadcast c.apply shape.dims x y], ?_, rfl⟩
    simp [Operation.apply, operand, hx, hy, hdims]
  | @activation _ p shape hsource =>
    obtain ⟨v, rfl, hv⟩ := operand_of_spans hsource hspans
    exact ⟨[v.map p.apply], by simp [Operation.apply, operand], by simp [Tensor.map, hv]⟩
  | @constant values shape hsize =>
    refine ⟨[⟨shape.dims, values, hsize⟩], ?_, rfl⟩
    have hcount : values.size = volume shape.dims := hsize
    simp [Operation.apply, Tensor.ofArray?, hcount]
  | @concat first rest axis source shape hfirst haxis hdims =>
    have hwhole := concatExtents_eq hfirst haxis hdims (List.forall₂_map_right_iff.mpr hspans)
    exact ⟨[Tensor.concat axis shape.dims operands], by simp [Operation.apply, hwhole], rfl⟩
  | @slice _ w source shape hsource hstart hsize hstride hcheck hshape =>
    obtain ⟨v, rfl, hv⟩ := operand_of_spans hsource hspans
    have hfits := SliceWindow.fits_of_check hstart hsize hstride hcheck
    refine ⟨[v.slice w.start w.size w.stride], ?_, ?_⟩
    · simp [Operation.apply, operand, demand, hv, hfits]
    · simp [Tensor.slice, Tensor.tabulate, Tensor.ofFn, hshape]
  | @resize _ scales source shape hsource hscales hshape =>
    obtain ⟨v, rfl, hv⟩ := operand_of_spans hsource hspans
    have hrank : source.dims.length = shape.dims.length := by simp [hshape, hscales]
    refine ⟨[v.enlarge scales shape.dims], ?_, rfl⟩
    simp [Operation.apply, operand, demand, hv, ← hrank, hscales]
    rw [if_pos source.positive]
    rfl
  | @pool _ p source shape n c h w height width hsource hd _ _ _ _ _ _ hshape =>
    obtain ⟨v, rfl, hv⟩ := operand_of_spans hsource hspans
    refine ⟨[v.pool p height width], ?_, ?_⟩
    · simp [Operation.apply, operand, demand, hv, hd, hshape]
    · simp [Tensor.pool, Tensor.ofFn, Tensor.extent, hv, hd, hshape]
  | @reshape _ dims source shape hsource hshape helements =>
    obtain ⟨v, rfl, hv⟩ := operand_of_spans hsource hspans
    have hvolume : volume dims = volume v.dims := by
      rw [hv, ← hshape]
      exact helements
    refine ⟨[v.reshape dims], ?_, by simp [Tensor.reshape, Tensor.ofFn, hshape]⟩
    simp [Operation.apply, operand, demand, hvolume]
  | @transpose _ order source shape hsource hrank horder hshape =>
    obtain ⟨v, rfl, hv⟩ := operand_of_spans hsource hspans
    refine ⟨[v.transpose order], ?_, ?_⟩
    · simp [Operation.apply, operand, demand, hv, hrank, horder]
    · simp [Tensor.transpose, Tensor.tabulate, Tensor.ofFn, Tensor.extent, hv, hshape]
  | @decode _ d sources _ hsources hshapes =>
    have hdims : List.Forall₂ (fun t s => t.dims = s.dims) operands sources := by
      refine List.forall₂_iff_get.mpr ⟨?_, fun i hi hs => ?_⟩
      · rw [← hspans.length_eq, (Outcome.mapM_eq_ok.mp hsources).length_eq]
      · have ht : i < inputs.length := hspans.length_eq ▸ hi
        have hshape := (List.forall₂_iff_get.mp (Outcome.mapM_eq_ok.mp hsources)).2 i ht hs
        exact (spans_iff hshape).mp ((List.forall₂_iff_get.mp hspans).2 i ht hi)
    obtain ⟨r, hr, hresults⟩ := HeadDecoder.decode_ok hshapes hanchored hdims
    exact ⟨[r.boxes, r.scores, r.classes], by simp [Operation.apply, hr], hresults⟩

end Graph

end GridNet
