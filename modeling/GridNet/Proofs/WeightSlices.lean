import GridNet.Proofs.Emission

/-!
# The weights of one layer

A layer takes its weights in one piece. What it makes of them is determined by this slice: the four
lists of a normalisation come first, the biases follow, and the kernel takes the rest.

* `LayerKind.weightCount` — how many weights a layer takes.
* `LayerKind.held` — the operations that hold a slice.
* `Emit.convolution_eq_ok`, `Emit.normalization_eq_ok`, `Emit.implicit_eq_ok` — what is taken and
  recorded.
-/

namespace GridNet

/-! ## Counts -/

/-- The weights of the normalisation that belongs to a convolution. -/
def Convolution.normalizationLength (c : Convolution) : Nat :=
  if c.normalized then 4 * c.filters else 0

/-- The biases of a convolution. -/
def Convolution.biasLength (c : Convolution) : Nat := if c.bias then c.filters else 0

/-- The weights of the kernel of a convolution that reads the given number of channels. -/
def Convolution.kernelCount (c : Convolution) (channels : Nat) : Nat :=
  c.filters * (channels / c.groups) * c.size ^ 2

/-- The **number of weights** that a layer takes when it reads the given number of channels. -/
def LayerKind.weightCount (channels : Nat) : LayerKind → Nat
  | convolution c | deconvolution c =>
    c.kernelCount channels + c.biasLength + c.normalizationLength
  | normalization _ => 4 * channels
  | implicit filters => filters
  | _ => 0

/-! ## What a slice stands for -/

/-- The normalisation at the start of a slice: biases, scales, means and variances, folded. -/
def normalizationOf (slice : Array Scalar) (channels : Nat) : ChannelMap :=
  foldNormalization (slice.extract 0 channels) (slice.extract channels (2 * channels))
    (slice.extract (2 * channels) (3 * channels)) (slice.extract (3 * channels) (4 * channels))

/-- The kernel that a slice stands for: the biases come behind the normalisation, and the weights
behind the biases. -/
def Convolution.kernelOf (c : Convolution) (transposed : Bool) (slice : Array Scalar) : Kernel where
  transposed
  filters := c.filters
  size := c.size
  stride := c.stride
  padding := c.padding
  groups := c.groups
  weights := slice.extract (c.normalizationLength + c.biasLength) slice.size
  bias :=
    if c.bias then
      some (slice.extract c.normalizationLength (c.normalizationLength + c.biasLength))
    else none

/-- The operations of a convolution that hold a slice. -/
def Convolution.held (c : Convolution) (transposed : Bool) (slice : Array Scalar) :
    List Operation :=
  .convolution (c.kernelOf transposed slice) ::
    if c.normalized then [.scale (normalizationOf slice c.filters)] else []

/-- The **operations that hold a slice**, for a layer that reads the given number of channels. -/
def LayerKind.held (slice : Array Scalar) (channels : Nat) : LayerKind → List Operation
  | convolution c => c.held false slice
  | deconvolution c => c.held true slice
  | normalization _ => [.scale (normalizationOf slice channels)]
  | implicit _ => [.constant slice]
  | _ => []

/-! ## Taking weights -/

/-- Only the place in the weights moves, by `count`. -/
structure Draft.Takes (d : Draft) (count : Nat) (d' : Draft) : Prop where
  graph : d'.graph = d.graph
  weights : d'.cursor.weights = d.cursor.weights
  position : d'.cursor.position = d.cursor.position + count

theorem Draft.Takes.refl (d : Draft) : d.Takes 0 d := ⟨rfl, rfl, rfl⟩

theorem Draft.Takes.trans {d d' d'' : Draft} {m n : Nat} (h : d.Takes m d') (h' : d'.Takes n d'') :
    d.Takes (m + n) d'' where
  graph := h'.graph.trans h.graph
  weights := h'.weights.trans h.weights
  position := by rw [h'.position, h.position, Nat.add_assoc]

/-- The weights between two drafts. -/
def Draft.slice (d d' : Draft) : Array Scalar :=
  d.cursor.weights.extract d.cursor.position d'.cursor.position

/-- A slice ends at the place in the weights; the graph has no part in it. -/
theorem Draft.slice_congr {d d₁ d' : Draft} (h : d'.cursor = d₁.cursor) :
    d.slice d' = d.slice d₁ := by
  rw [slice, slice, h]

/-- A slice within a slice. -/
theorem Draft.slice_eq_extract {d d₁ d₂ d' : Draft} {i j : Nat} (hd : d.Takes i d₁)
    (hlast : d₂.cursor.position = d.cursor.position + j)
    (hle : d.cursor.position + j ≤ d'.cursor.position) :
    d₁.slice d₂ = (d.slice d').extract i j := by
  rw [slice, slice, Array.extract_extract, Nat.min_eq_left hle, hd.weights, hd.position, hlast]

theorem Draft.size_slice (d d' : Draft) (h : d'.cursor.weights = d.cursor.weights) :
    (d.slice d').size = d'.cursor.position - d.cursor.position := by
  have := d'.cursor.position_le
  rw [h] at this
  rw [slice, Array.size_extract, Nat.min_eq_left this]

/-- The kernel of a convolution, from what is taken one after the other. -/
theorem Convolution.kernel_eq {c : Convolution} (transposed : Bool) {d dn db dw : Draft} {n : Nat}
    (hn : d.Takes c.normalizationLength dn) (hb : dn.Takes c.biasLength db) (hw : db.Takes n dw) :
    Kernel.mk transposed c.filters c.size c.stride c.padding c.groups (db.slice dw)
      (if c.bias then some (dn.slice db) else none) = c.kernelOf transposed (d.slice dw) := by
  have hnb := hn.trans hb
  have htakes := hnb.trans hw
  have hsecond := hnb.position
  have hend := htakes.position
  rw [kernelOf, Draft.size_slice d dw htakes.weights, hend, Nat.add_sub_cancel_left,
    ← Draft.slice_eq_extract hnb hend (by omega), ← Draft.slice_eq_extract hn hsecond (by omega)]

namespace Emit

variable {d d' : Draft}

theorem take_takes {count block : Nat} {values : Array Scalar}
    (h : take count block d = .ok values d') : d.Takes count d' ∧ values = d.slice d' := by
  obtain ⟨c, hc, rfl⟩ := take_eq_ok.mp h
  unfold WeightCursor.take at hc
  split at hc
  · obtain ⟨rfl, rfl⟩ := Prod.mk.inj (Except.ok.inj hc)
    exact ⟨⟨rfl, rfl, rfl⟩, rfl⟩
  · cases hc

theorem takeNormalization_takes {channels block : Nat} {m : ChannelMap}
    (h : takeNormalization channels block d = .ok m d') :
    d.Takes (4 * channels) d' ∧ m = normalizationOf (d.slice d') channels := by
  obtain ⟨biases, d₁, hbiases, h⟩ := bind_eq_ok.mp h
  obtain ⟨scales, d₂, hscales, h⟩ := bind_eq_ok.mp h
  obtain ⟨means, d₃, hmeans, h⟩ := bind_eq_ok.mp h
  obtain ⟨variances, d₄, hvariances, h⟩ := bind_eq_ok.mp h
  obtain ⟨rfl, rfl⟩ := pure_eq_ok.mp h
  obtain ⟨hfirst, rfl⟩ := take_takes hbiases
  obtain ⟨hsecond, rfl⟩ := take_takes hscales
  obtain ⟨hthird, rfl⟩ := take_takes hmeans
  obtain ⟨hfourth, rfl⟩ := take_takes hvariances
  have htwo : d.Takes (2 * channels) d₂ := Nat.two_mul channels ▸ hfirst.trans hsecond
  have hthree : d.Takes (3 * channels) d₃ := Nat.succ_mul 2 channels ▸ htwo.trans hthird
  have hfour : d.Takes (4 * channels) d₄ := Nat.succ_mul 3 channels ▸ hthree.trans hfourth
  have hend := hfour.position
  refine ⟨hfour, ?_⟩
  rw [normalizationOf, ← Draft.slice_eq_extract (.refl d) hfirst.position (by omega),
    ← Draft.slice_eq_extract hfirst htwo.position (by omega),
    ← Draft.slice_eq_extract htwo hthree.position (by omega),
    ← Draft.slice_eq_extract hthree hfour.position (by omega)]

/-- A normalisation is the same in a longer slice. -/
theorem normalizationOf_slice {d₁ : Draft} {channels : Nat} (h : d.Takes (4 * channels) d₁)
    (hle : d₁.cursor.position ≤ d'.cursor.position) :
    normalizationOf (d.slice d₁) channels = normalizationOf (d.slice d') channels := by
  have hpart : ∀ i j, j ≤ 4 * channels →
      (d.slice d₁).extract i j = (d.slice d').extract i j := fun i j hj => by
    rw [Draft.slice_eq_extract (.refl d) h.position (h.position ▸ hle), Array.extract_extract,
      Nat.zero_add, Nat.zero_add, Nat.min_eq_left hj]
  simp only [normalizationOf]
  rw [hpart 0 channels (by omega), hpart channels _ (by omega), hpart _ _ (by omega),
    hpart _ _ le_rfl]

/-- What is taken if it is present. -/
theorem takeIf_takes {α : Type} {present : Bool} {m : Emit α} {r : Option α} {count : Nat}
    {value : α} (hm : ∀ x, m d = .ok x d' → d.Takes count d' ∧ x = value)
    (h : takeIf present m d = .ok r d') :
    d.Takes (if present then count else 0) d' ∧ r = if present then some value else none := by
  cases present with
  | false =>
    obtain ⟨rfl, rfl⟩ := pure_eq_ok.mp h
    exact ⟨.refl d, rfl⟩
  | true =>
    obtain ⟨x, hx, rfl⟩ := map_eq_ok.mp h
    obtain ⟨htakes, rfl⟩ := hm x hx
    exact ⟨htakes, rfl⟩

/-- **A convolution** takes its slice and records the nodes that hold it, the activation
behind them. -/
theorem convolution_eq_ok {input t : TensorId} {c : Convolution} {transposed : Bool} {block : Nat}
    (h : convolution input c transposed block d = .ok t d') :
    ∃ source n channels height width length d₁ convolved normalized,
      d.graph.shapeOf input = .ok source ∧ source.dims = [n, channels, height, width] ∧
      kernelLength c channels = .ok length ∧
      d.Takes (c.normalizationLength + c.biasLength + length) d₁ ∧
      d.graph.Records (.convolution (c.kernelOf transposed (d.slice d₁))) [input] convolved ∧
      (if c.normalized then
        convolved.1.Records (.scale (normalizationOf (d.slice d₁) c.filters))
          [convolved.2] normalized
      else normalized = convolved) ∧
      activation normalized.2 c.activation { d₁ with graph := normalized.1 } = .ok t d' := by
  obtain ⟨s, _, hs, h⟩ := bind_eq_ok.mp h
  obtain ⟨⟨source, hsource, hdims⟩, rfl⟩ := nchw_eq_ok.mp hs
  obtain ⟨divisible, _, hdivides, h⟩ := bind_eq_ok.mp h
  obtain ⟨-, rfl⟩ := lift_eq_ok.mp hdivides
  obtain ⟨_, _, hensure, h⟩ := bind_eq_ok.mp h
  obtain ⟨-, rfl⟩ := lift_eq_ok.mp hensure
  obtain ⟨length, _, hcounted, h⟩ := bind_eq_ok.mp h
  obtain ⟨hlength, rfl⟩ := lift_eq_ok.mp hcounted
  obtain ⟨normalization, dn, hnormalization, h⟩ := bind_eq_ok.mp h
  obtain ⟨bias, db, hbias, h⟩ := bind_eq_ok.mp h
  obtain ⟨weights, dw, hweights, h⟩ := bind_eq_ok.mp h
  obtain ⟨convolved, _, hconvolved, h⟩ := bind_eq_ok.mp h
  obtain ⟨hn, rfl⟩ := takeIf_takes (fun _ => takeNormalization_takes) hnormalization
  obtain ⟨hb, rfl⟩ := takeIf_takes (fun _ => take_takes) hbias
  obtain ⟨hw, rfl⟩ := take_takes hweights
  obtain ⟨g, hg, rfl⟩ := record_eq_ok.mp hconvolved
  have htakes := (Draft.Takes.trans hn hb).trans hw
  rw [Convolution.kernel_eq transposed hn hb hw, htakes.graph] at hg
  refine ⟨source, s.batch, s.channels, s.height, s.width, length, dw, (g, convolved), ?_⟩
  dsimp only at h
  rcases hnormal : c.normalized with _ | _
  · simp only [hnormal] at h
    exact ⟨(g, convolved), hsource, hdims, hlength, htakes,
      Graph.addConvolution_eq_ok hg, rfl, h⟩
  · simp only [hnormal] at h
    obtain ⟨normalized, _, hscale, h⟩ := bind_eq_ok.mp h
    obtain ⟨g', hg', rfl⟩ := record_eq_ok.mp hscale
    have hslice : normalizationOf (d.slice dn) c.filters =
        normalizationOf (d.slice dw) c.filters := by
      have hfirst := hn.position
      have hend := htakes.position
      rw [if_pos hnormal] at hn hfirst hend
      exact normalizationOf_slice hn (by omega)
    exact ⟨(g', normalized), hsource, hdims, hlength, htakes,
      Graph.addConvolution_eq_ok hg, hslice ▸ Graph.addScale_eq_ok hg', h⟩

/-- **A normalisation** takes its slice and records the node that holds it, the activation
behind it. -/
theorem normalization_eq_ok {input t : TensorId} {a : Activation} {block : Nat}
    (h : normalization input a block d = .ok t d') :
    ∃ source n channels height width d₁ normalized,
      d.graph.shapeOf input = .ok source ∧ source.dims = [n, channels, height, width] ∧
      d.Takes (4 * channels) d₁ ∧
      d.graph.Records (.scale (normalizationOf (d.slice d₁) channels)) [input] normalized ∧
      activation normalized.2 a { d₁ with graph := normalized.1 } = .ok t d' := by
  obtain ⟨s, _, hs, h⟩ := bind_eq_ok.mp h
  obtain ⟨⟨source, hsource, hdims⟩, rfl⟩ := nchw_eq_ok.mp hs
  obtain ⟨m, d₁, hm, h⟩ := bind_eq_ok.mp h
  obtain ⟨htakes, rfl⟩ := takeNormalization_takes hm
  obtain ⟨normalized, _, hscale, h⟩ := bind_eq_ok.mp h
  obtain ⟨g, hg, rfl⟩ := record_eq_ok.mp hscale
  rw [htakes.graph] at hg
  exact ⟨source, s.batch, s.channels, s.height, s.width, d₁, (g, normalized), hsource,
    hdims, htakes, Graph.addScale_eq_ok hg, h⟩

/-- **A constant** takes its slice and records the node that holds it. -/
theorem implicit_eq_ok {t : TensorId} {filters block : Nat}
    (h : implicit filters block d = .ok t d') :
    ∃ (shape : Shape) (d₁ : Draft), shape.dims = [1, filters, 1, 1] ∧ d.Takes filters d₁ ∧
      d.graph.Accepts (.constant (d.slice d₁)) [] [shape] ∧
      (d'.graph, t) = d.graph.pushOne (.constant (d.slice d₁)) [] shape ∧
      d'.cursor = d₁.cursor := by
  obtain ⟨values, d₁, hvalues, h⟩ := bind_eq_ok.mp h
  obtain ⟨htakes, rfl⟩ := take_takes hvalues
  obtain ⟨shape, _, hshape, h⟩ := bind_eq_ok.mp h
  obtain ⟨hdims, rfl⟩ := lift_eq_ok.mp hshape
  obtain ⟨g, hg, rfl⟩ := record_eq_ok.mp h
  obtain ⟨haccepts, hpush⟩ := Graph.addConstant_eq_ok hg
  rw [htakes.graph] at haccepts hpush
  exact ⟨shape, d₁, Shape.ofDims_eq_ok.mp hdims, htakes, haccepts, hpush, rfl⟩

end Emit

end GridNet
