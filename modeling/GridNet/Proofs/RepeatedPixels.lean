import GridNet.Proofs.FoundValues
import GridNet.Proofs.LayerSizes
import GridNet.Proofs.MovedElements
import GridNet.Proofs.WholeQuotients

/-!
# Enlarged images repeat their pixels

Images are enlarged by a whole factor in both directions. Their extents and the places that the new
pixels are taken from are computed in scalars: extents by products, places by quotients that are
rounded down. While extents are scalars themselves, all of these are exact.

* `Emit.Enlargeable` — the extents for which this holds.
* `Tensor.get_enlarge` — an element of enlarged images.
* `Emit.upsample_accepted` — the layer is accepted, with the exact extents.
* `Emit.upsample_repeats` — both together, for whatever images are enlarged.
-/

namespace GridNet

/-- A resizing whose scaled extents make a shape is recorded. -/
theorem Graph.addResize_of_accepts {g : Graph} {input : TensorId} {scales : List Scalar}
    {shape : Shape} (h : g.Accepts (.resize scales) [input] [shape]) :
    g.addResize input scales = .ok (g.pushOne (.resize scales) [input] shape) := by
  cases h with
  | resize hsource hscales hshape =>
    simp [addResize, hsource, hscales, ensure, Shape.ofDims_eq_ok.mpr hshape, inContext,
      Except.mapError, pure, Except.pure]

/-- Images of the given extents, **enlarged by a factor** that scalars compute with, fit
into an array. -/
structure Emit.Enlargeable (n c h w stride : Nat) : Prop where
  positive : 0 < stride
  batch : n ≤ 0x1000000
  channels : c ≤ 0x1000000
  rows : h * stride ≤ 0x1000000
  columns : w * stride ≤ 0x1000000
  elements : n * c * (h * stride) * (w * stride) < Word.signedModulus

section Enlarged

variable {n c h w stride : Nat} (hexact : Emit.Enlargeable n c h w stride)

include hexact

/-- **An element of enlarged images**: the pixel that is repeated there. -/
theorem Tensor.get_enlarge {x : Tensor} (hdims : x.dims = [n, c, h, w]) {b p i j : Nat}
    (hb : b < n) (hp : p < c) (hi : i < h * stride) (hj : j < w * stride) :
    (x.enlarge [.one, .one, .ofNat stride, .ofNat stride] [n, c, h * stride, w * stride]).get
      [b, p, i, j] =
      x.get [b, p, i / stride, j / stride] := by
  have hinside : Inside [n, c, h * stride, w * stride] [b, p, i, j] := by
    simp [Inside, hb, hp, hi, hj]
  unfold enlarge
  rw [get_tabulate hinside, hdims]
  simp [sources_one hb hexact.batch, sources_one hp hexact.channels,
    sources_ofNat hexact.positive hexact.rows hi, sources_ofNat hexact.positive hexact.columns hj]

namespace Emit

variable {d : Draft} {input : TensorId}

/-- **The layer is accepted**, and records the exact extents. -/
theorem upsample_accepted (hinput : d.graph.Spans input [n, c, h, w]) :
    ∃ t d', upsample input stride d = .ok t d' ∧
      d'.graph.Spans t [n, c, h * stride, w * stride] := by
  obtain ⟨hpositive, -, -⟩ := hinput.extents
  obtain ⟨hn, hc, hh, hw⟩ := forall_mem_extents.mp hpositive
  obtain ⟨source, hsource, hdims⟩ := hinput
  have hscaled : List.zipWith Graph.scaledExtent source.dims
      [.one, .one, .ofNat stride, .ofNat stride] =
      [n, c, h * stride, w * stride] := by
    rw [← hdims]
    simp only [List.zipWith_cons_cons, List.zipWith_nil_right, Graph.scaledExtent_one hexact.batch,
      Graph.scaledExtent_one hexact.channels,
      Graph.scaledExtent_ofNat hh hexact.positive hexact.rows,
      Graph.scaledExtent_ofNat hw hexact.positive hexact.columns]
  have hvolume : volume [n, c, h * stride, w * stride] < Word.signedModulus := by
    simpa only [volume, Nat.mul_one, Nat.mul_assoc] using hexact.elements
  let shape : Shape := ⟨[n, c, h * stride, w * stride], List.cons_ne_nil _ _,
    forall_mem_extents.mpr ⟨hn, hc, Nat.mul_pos hh hexact.positive, Nat.mul_pos hw hexact.positive⟩,
    Word.lt_modulus hvolume⟩
  have haccepts : d.graph.Accepts (.resize [.one, .one, .ofNat stride, .ofNat stride])
      [input] [shape] :=
    .resize hsource (by simp [← hdims]) hscaled.symm
  have hrecorded := Graph.addResize_of_accepts haccepts
  exact ⟨_, _, record_eq_ok.mpr ⟨_, hrecorded, rfl⟩, shape, Graph.shapeOf_pushed _ _ _ _, rfl⟩

/-- **Enlarging repeats pixels exactly.** While the extents are scalars and an array can
hold the result, the layer is accepted with the enlarged extents, and an evaluation finds
at each place of the result the pixel of the images whose row and column are those of the
place, divided by the factor. -/
theorem upsample_repeats (hg : d.graph.Reachable) (hinput : d.graph.Spans input [n, c, h, w]) :
    ∃ t d', upsample input stride d = .ok t d' ∧ d'.graph.Spans t [n, c, h * stride, w * stride] ∧
      ∀ feeds x, d.graph.Finds feeds input x → ∃ y, d'.graph.Finds feeds t y ∧
        y.dims = [n, c, h * stride, w * stride] ∧
        ∀ b < n, ∀ p < c, ∀ i < h * stride, ∀ j < w * stride,
          y.get [b, p, i, j] = x.get [b, p, i / stride, j / stride] := by
  obtain ⟨t, d', hbuilt, hspans⟩ := upsample_accepted hexact hinput
  refine ⟨t, d', hbuilt, hspans, fun feeds x hx => ?_⟩
  obtain ⟨vs, hd, hvalue⟩ := valued_of_finds hg hx
  have hdims : x.dims = [n, c, h, w] := Graph.Spans.unique (hd.valued.shapeOf hvalue) hinput
  obtain ⟨shape, -, hspans', hfinds⟩ :=
    finds_of_recorded hd (fun _ _ => Graph.addResize_eq_ok) hbuilt (.cons hvalue .nil)
  have hshape : shape.dims = [n, c, h * stride, w * stride] := hspans'.unique hspans
  have hpositive : ∀ e ∈ [n, c, h, w], 0 < e := hdims ▸ extents_pos hd hvalue
  refine ⟨x.enlarge [.one, .one, .ofNat stride, .ofNat stride] shape.dims,
    hfinds _ ?_ rfl ?_, hshape, ?_⟩
  · simp [Operation.apply, operand, demand, hdims, hshape, forall_mem_extents.mp hpositive]
  · rw [Shape.elements, hshape]
    simpa only [volume, Nat.mul_one, Nat.mul_assoc] using hexact.elements
  · intro b hb p hp i hi j hj
    rw [hshape]
    exact Tensor.get_enlarge hexact hdims hb hp hi hj

end Emit

end Enlarged

/-- Images with two rows and two columns, enlarged by three: their last pixel stands in
the last corner. -/
theorem Emit.upsample_repeats_fourChannels :
    let x := Tensor.ofFn [1, 4, 2, 2] Scalar.ofNat
    ∃ t d', upsample 0 3 Draft.fourChannels = .ok t d' ∧ ∃ y, d'.graph.Finds [("data", x)] t y ∧
      y.dims = [1, 4, 6, 6] ∧ y.get [0, 3, 5, 5] = x.get [0, 3, 1, 1] := by
  intro x
  obtain ⟨hg, hx⟩ := Draft.fourChannels_finds Scalar.ofNat
  have hexact : Enlargeable 1 4 2 2 3 :=
    ⟨by decide, by decide, by decide, by decide, by decide, by decide⟩
  have hinput : Draft.fourChannels.graph.Spans 0 [1, 4, 2, 2] :=
    ⟨⟨[1, 4, 2, 2], by decide, by decide, by decide⟩, rfl, rfl⟩
  obtain ⟨t, d', hbuilt, -, hvalues⟩ := upsample_repeats hexact hg hinput
  obtain ⟨y, hfinds, hdims, hpixels⟩ := hvalues _ x hx
  exact ⟨t, d', hbuilt, y, hfinds, hdims, hpixels 0 (by decide) 3 (by decide) 5
    (by decide) 5 (by decide)⟩

end GridNet
