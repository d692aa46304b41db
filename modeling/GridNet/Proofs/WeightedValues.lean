import GridNet.Proofs.LayerValues

/-!
# The values of layers with weights

A layer with weights computes the operator of the interpreter with its own slice of the weights: the
kernel and the biases are read from the slice, and a normalisation is applied that was folded from
its first four lists.

* `Emit.convolution_value`, `Emit.normalization_value`, `Emit.implicit_value` — the layers.
-/

namespace GridNet

namespace Graph.Finished

variable {G g : Graph} {feeds : Feeds} {vs : List Tensor} {input : TensorId} {x : Tensor}
  {r : Graph.Recorded}

/-- The value behind a kernel. -/
theorem convolved (hG : G.Finished feeds vs) (hx : vs[input]? = some x) {k : Kernel}
    (h : g.Records (.convolution k) [input] r) (hfront : r.1.Within G) :
    ∃ height width, k.extentBehind (x.extent 2) = some height ∧
      k.extentBehind (x.extent 3) = some width ∧ 0 < k.filters ∧
      vs[r.2]? = some (x.convolve Scalar.fma k height width) := by
  obtain ⟨shape, operands, v, haccepts, hreads, hspans, -, happly, hvalue⟩ :=
    hG.valued.recorded hG.sizes h hfront
  obtain rfl := hreads.unique (.cons hx .nil)
  cases haccepts with
  | @convolution _ _ source _ n c h w height width hsource hdims _ _ _ hfilters _ _ _ _ hheight
      hwidth hshape =>
    obtain ⟨_, ⟨⟩, hd⟩ := Graph.operand_of_spans hsource hspans
    rw [hdims] at hd
    obtain ⟨-, hheight⟩ := Graph.kernelExtent_eq_ok.mp hheight
    obtain ⟨-, hwidth⟩ := Graph.kernelExtent_eq_ok.mp hwidth
    obtain ⟨-, rfl⟩ := Emit.demanded happly
    refine ⟨height, width, ?_, ?_, hfilters, ?_⟩
    · simpa [Tensor.extent, hd] using hheight
    · simpa [Tensor.extent, hd] using hwidth
    · simpa [hshape] using hvalue

/-- The value behind a map of channels. -/
theorem scaled (hG : G.Finished feeds vs) (hx : vs[input]? = some x) {m : ChannelMap}
    (h : g.Records (.scale m) [input] r) (hfront : r.1.Within G) :
    vs[r.2]? = some (x.mapChannels m) := by
  obtain ⟨shape, operands, v, -, hreads, -, -, happly, hvalue⟩ :=
    hG.valued.recorded hG.sizes h hfront
  obtain rfl := hreads.unique (.cons hx .nil)
  obtain ⟨-, rfl⟩ := Emit.demanded happly
  exact hvalue

end Graph.Finished

namespace Emit

variable {G : Graph} {feeds : Feeds} {vs : List Tensor} {x : Tensor} {input t : TensorId}
  {d d' : Draft}

/-- **A convolution** computes with its own slice of the weights. -/
theorem convolution_value (hG : G.Finished feeds vs) (hx : vs[input]? = some x) {c : Convolution}
    {transposed : Bool} {block : Nat} (h : convolution input c transposed block d = .ok t d')
    (hfront : d'.graph.Within G) :
    ∃ v, Interpreter.convolve c transposed (d.slice d') x = some v ∧ vs[t]? = some v := by
  obtain ⟨_, _, channels, _, _, _, d₁, convolved, normalized, -, -, -, htakes,
    hconvolved, hnormalized, hactivation⟩ := convolution_eq_ok h
  have hslice : d.slice d' = d.slice d₁ :=
    Draft.slice_congr (adds_closed.activation _ _ _ _ _ hactivation).2
  have hlast : normalized.1.Within G :=
    (extends_closed.activation _ _ _ _ _ hactivation).within.trans hfront
  have hfirst : convolved.1.Within G :=
    (Graph.grows_of_optional (P := fun _ => True) hnormalized trivial).within.trans hlast
  obtain ⟨height, width, hheight, hwidth, hfilters, hvalue⟩ := hG.convolved hx hconvolved hfirst
  generalize hy : x.convolve Scalar.fma _ height width = y at hvalue
  have hafter : vs[normalized.2]? =
      some (if c.normalized then y.normalize (d.slice d₁) else y) := by
    split at hnormalized
    · next hnormal =>
      have hextent : y.extent 1 = c.filters := by rw [← hy]; rfl
      have hsize : 4 * c.filters ≤ (d.slice d₁).size := by
        rw [Draft.size_slice d d₁ htakes.weights, htakes.position, Convolution.normalizationLength,
          if_pos hnormal]
        omega
      rw [if_pos hnormal, ← Tensor.mapChannels_normalizationOf hextent hfilters hsize]
      exact hG.scaled hvalue hnormalized hlast
    · next hnormal =>
      rw [if_neg hnormal, hnormalized]
      exact hvalue
  obtain ⟨v, hv, hvalue⟩ :=
    activation_computes hG hafter c.activation _ _ _ hactivation hlast hfront
  refine ⟨v, ?_, hvalue⟩
  simp only [Interpreter.convolve, hslice, hheight, hwidth]
  subst hy
  exact hv

/-- **A normalisation** computes with its own slice of the weights. -/
theorem normalization_value (hG : G.Finished feeds vs) (hx : vs[input]? = some x) {a : Activation}
    {block : Nat} (h : normalization input a block d = .ok t d') (hfront : d'.graph.Within G) :
    ∃ v, some ((x.normalize (d.slice d')).map a.apply) = some v ∧ vs[t]? = some v := by
  obtain ⟨source, n, channels, height, width, d₁, normalized, hsource, hdims, htakes, hnormalized,
    hactivation⟩ := normalization_eq_ok h
  have hslice : d.slice d' = d.slice d₁ :=
    Draft.slice_congr (adds_closed.activation _ _ _ _ _ hactivation).2
  have hlast : normalized.1.Within G :=
    (extends_closed.activation _ _ _ _ _ hactivation).within.trans hfront
  obtain ⟨s, hs, hd⟩ := hG.valued.shapeOf hx
  rw [(hnormalized.within.trans hlast).shapeOf hsource] at hs
  cases hs
  have hsize : 4 * channels ≤ (d.slice d₁).size := by
    rw [Draft.size_slice d d₁ htakes.weights, htakes.position]
    omega
  have hvalue := hG.scaled hx hnormalized hlast
  rw [Tensor.mapChannels_normalizationOf (by simp [Tensor.extent, hd, hdims])
    (source.positive channels (by simp [hdims])) hsize] at hvalue
  rw [hslice]
  exact activation_computes hG hvalue a _ _ _ hactivation hlast hfront

/-- **A constant** is its own slice of the weights. -/
theorem implicit_value (hG : G.Finished feeds vs) {filters block : Nat}
    (h : implicit filters block d = .ok t d') (hfront : d'.graph.Within G) :
    ∃ v, Tensor.ofArray? [1, filters, 1, 1] (d.slice d') = some v ∧ vs[t]? = some v := by
  obtain ⟨shape, d₁, hdims, -, haccepts, hpush, hcursor⟩ := implicit_eq_ok h
  have hslice : d.slice d' = d.slice d₁ := Draft.slice_congr hcursor
  obtain ⟨hgraph, rfl⟩ := Prod.mk.inj hpush
  obtain ⟨operands, results, -, hresults, -, happly⟩ := hG.valued.pushed (hgraph ▸ hfront)
  obtain ⟨v, hvalue, rfl⟩ := forall₂_singleton_left.mp hresults
  refine ⟨v, ?_, hvalue⟩
  rw [hslice, ← hdims]
  cases harray : Tensor.ofArray? shape.dims (d.slice d₁) with
  | none => simp [Operation.apply, harray] at happly
  | some y => simpa [Operation.apply, harray] using happly

end Emit

end GridNet
