import GridNet.Proofs.CountedSizes
import GridNet.Proofs.RunValues
import GridNet.Proofs.WeightOwnership
import GridNet.Proofs.WeightedValues
import GridNet.Proofs.WholeScalars

/-!
# The sizes of a layer

A layer computes with the extents of what it reads: how many weights it needs, where a window ends,
what extents the result has. Each sum and each product on the way has to be a word. For most kinds
of layer this follows from the extents, which are those of a tensor; the others can only be built
when what they compute is in range.

* `LayerExtents` — what a layer reads.
* `LayerKind.InRange` — what has to be in range: the weights and padded extents of kernels, sums of
  extents, padded images, squares of strides and the channels of heads. Of all other kinds of layer
  nothing is asked.
* `LayerKind.Sized` — all sizes of a layer are the exact ones.
* `Emit.route_eq_bind` — a route with groups is one without them, and a part of its channels.
* `Emit.convolution_sized`, `Emit.route_sized`, `Emit.reorg_sized`, … — a layer that has been built
  is in range, and its sizes are exact.
-/

namespace GridNet

/-! ## Windows and axes -/

/-- The window of the given extents at the origin. -/
def SliceWindow.corner (dims : List Nat) : SliceWindow where
  start := List.replicate dims.length 0
  size := dims
  stride := List.replicate dims.length 1

/-- Every second row and column of images of the given extents, from the given ones on. -/
def SliceWindow.phase (n c h w : Nat) (start : Nat × Nat) : SliceWindow where
  start := [0, 0, start.1, start.2]
  size := [n, c, h / 2, w / 2]
  stride := [1, 1, 2, 2]

/-- One part of the channels of images of the given extents. -/
def ChannelGroup.window (g : ChannelGroup) (n c h w : Nat) : SliceWindow where
  start := [0, g.part * (c / g.groups), 0, 0]
  size := [n, c / g.groups, h, w]
  stride := [1, 1, 1, 1]

/-- The window of a layer of maxima. It is padded by half of what it adds, but a window of 2 at
stride 1 behind the image only. -/
def Emit.maxWindow (size stride : Nat) : PoolWindow :=
  let before := if size = 2 ∧ stride = 1 then 0 else (size - 1) / 2
  let after := if size = 2 ∧ stride = 1 then 1 else (size - 1) / 2
  { kind := .max, window := ⟨size, size⟩, stride := ⟨stride, stride⟩
    before := ⟨before, before⟩, after := ⟨after, after⟩ }

/-- The axis of a route, counted with the batch. -/
def joinedAxis (axis : Int) (rank : Nat) : Int := if axis < 0 then rank + axis else axis + 1

/-- Extents **laid end to end** along the axis of a route. -/
def Joined (axis : Int) (named : List (List Nat)) (joined : List Nat) : Prop :=
  named = [joined] ∨ ∃ first rest, ∃ a : Nat, named = first :: rest ∧
    a = joinedAxis axis first.length ∧
    concatExtents a named = some joined

/-- What a layer reads, **in extents**. -/
structure LayerExtents where
  /-- of the tensor in front of the layer -/
  input : List Nat
  /-- of the tensors that its references stand for -/
  named : List (List Nat)
  /-- the heads of the network, in front of the layer -/
  heads : List Head

/-! ## Sizes in range -/

/-- The weights of a kernel, counted for all channels, are in range, and so are the sums that the
extents behind it are computed from. -/
structure Convolution.InRange (c : Convolution) (transposed : Bool)
    (channels h w : Nat) : Prop where
  weights : c.filters * channels * c.size * c.size < Word.modulus
  extents : ∀ extent ∈ [h, w], ∀ n ∈ (c.kernelOf transposed #[]).sums extent, n < Word.modulus

/-- **What has to be in range** for a layer to be built. -/
def LayerKind.InRange (x : LayerExtents) : LayerKind → Prop
  | convolution c => ∀ n k h w, x.input = [n, k, h, w] → c.InRange false k h w
  | deconvolution c => ∀ n k h w, x.input = [n, k, h, w] → c.InRange true k h w
  | route _ axis _ => ∀ first second rest, x.named = first :: second :: rest →
      joinedAxis axis first.length < Word.signedModulus ∧
      (x.named.map fun dims => (dims[(joinedAxis axis first.length).toNat]?).getD 0).sum <
        Word.modulus
  | maxPool size stride => ∀ n c h w, x.input = [n, c, h, w] →
      ∀ extent ∈ (Emit.maxWindow size stride).sums h w, extent < Word.modulus
  | reorg stride => stride * stride < Word.modulus
  | head _ place => ∀ head ∈ x.heads[place]?,
      5 + head.classes < Word.modulus ∧ head.boxes * (5 + head.classes) < Word.modulus
  | _ => True

/-! ## Exact sizes -/

/-- The recorder counts the last positions of the window, and they are the **exact** ones. -/
def SliceWindow.Sized (w : SliceWindow) : Prop :=
  ∀ part ∈ w.start.zip (w.size.zip w.stride),
    (do Word.add part.1 (← Word.mul (part.2.1 - 1) part.2.2)) =
      .ok (part.1 + (part.2.1 - 1) * part.2.2)

/-- The sizes of a **pooling window** on images of the given extents are exact, and so are the
extents behind it. -/
structure PoolWindow.Sized (p : PoolWindow) (n c h w : Nat) (output : List Nat) : Prop where
  rows : (do Word.add h (← Word.add p.before.rows p.after.rows)) =
    .ok (h + (p.before.rows + p.after.rows))
  columns : (do Word.add w (← Word.add p.before.columns p.after.columns)) =
    .ok (w + (p.before.columns + p.after.columns))
  output : ∃ height width,
    windowCount (h + (p.before.rows + p.after.rows)) p.window.rows p.stride.rows = some height ∧
    windowCount (w + (p.before.columns + p.after.columns)) p.window.columns p.stride.columns =
      some width ∧
    output = [n, c, height, width]

/-- The sizes of a **convolution** on images of the given extents are exact. -/
structure Convolution.Sized (c : Convolution) (transposed : Bool) (n channels h w : Nat)
    (output : List Nat) : Prop where
  product : Word.product c.filters [channels, c.size, c.size] =
    .ok (c.filters * channels * c.size * c.size)
  /-- as many weights are taken as the kernel has -/
  taken : Emit.kernelLength c channels = .ok (c.kernelCount channels)
  /-- the recorder asks for as many -/
  stored : Graph.kernelLength (c.kernelOf transposed #[]) channels = .ok (c.kernelCount channels)
  output : ∃ height width,
    (∀ axis ∈ [(h, height), (w, width)],
      Graph.kernelExtent (c.kernelOf transposed #[]) axis.1 = .ok (some axis.2) ∧
        (c.kernelOf transposed #[]).extentBehind axis.1 = some axis.2) ∧
    output = [n, c.filters, height, width]

/-- The sizes of a **head** over a grid are exact. -/
structure Head.Sized (head : Head) (c h w : Nat) : Prop where
  channels : head.countChannels = .ok (head.boxes * (5 + head.classes))
  read : c = head.boxes * (5 + head.classes)
  rows : Head.countRows { head with gridWidth := w, gridHeight := h } = .ok (head.boxes * w * h)

/-- The sizes of **one part of the channels** are exact. -/
def ChannelGroup.Sized (g : ChannelGroup) (joined output : List Nat) : Prop :=
  ∃ n c h w, joined = [n, c, h, w] ∧ c % g.groups = 0 ∧
    Word.mul g.part (c / g.groups) = .ok (g.part * (c / g.groups)) ∧ (g.window n c h w).Sized ∧
    output = [n, c / g.groups, h, w]

/-- **All sizes of a layer are exact**: those that it computes on the way, and the extents of what
it makes. Enlarged extents are computed with scalars, whose significands have 24 bits. -/
def LayerKind.Sized (x : LayerExtents) (output : List Nat) : LayerKind → Prop
  | convolution c => ∃ n k h w, x.input = [n, k, h, w] ∧ c.Sized false n k h w output
  | deconvolution c => ∃ n k h w, x.input = [n, k, h, w] ∧ c.Sized true n k h w output
  | normalization _ => output = x.input
  | implicit filters => output = [1, filters, 1, 1]
  | shiftChannels _ | controlChannels _ | sam _ _ =>
    ∃ other, x.named = [other] ∧ broadcastDims x.input other = some output
  | shortcut _ _ => (SliceWindow.corner x.input).Sized ∧ output = x.input
  | route _ axis group => ∃ joined, Joined axis x.named joined ∧
      group.elim (output = joined) (·.Sized joined output)
  | upsample stride => ∃ n c h w, x.input = [n, c, h, w] ∧
      (n ≤ 0x1000000 → c ≤ 0x1000000 → h * stride ≤ 0x1000000 → w * stride ≤ 0x1000000 →
        output = [n, c, h * stride, w * stride])
  | maxPool size stride => ∃ n c h w, x.input = [n, c, h, w] ∧
      Emit.maxPoolPadding size stride =
        .ok ((Emit.maxWindow size stride).before, (Emit.maxWindow size stride).after) ∧
      (Emit.maxWindow size stride).Sized n c h w output
  | averagePool => ∃ n c h w, x.input = [n, c, h, w] ∧ output = [n, c, 1, 1]
  | reorg3d => ∃ n c h w, x.input = [n, c, h, w] ∧ h % 2 = 0 ∧ w % 2 = 0 ∧
      (∀ start ∈ Emit.phases, (SliceWindow.phase n c h w start).Sized) ∧
      output = [n, 4 * c, h / 2, w / 2]
  | reorg stride => ∃ n c h w, x.input = [n, c, h, w] ∧
      Word.mul stride stride = .ok (stride * stride) ∧
      Word.product c [stride, stride] = .ok (c * stride * stride) ∧
      c % (stride * stride) = 0 ∧ h % stride = 0 ∧ w % stride = 0 ∧
      output = [n, c * stride * stride, h / stride, w / stride]
  | head _ place => ∃ n c h w head, x.input = [n, c, h, w] ∧ x.heads[place]? = some head ∧
      head.Sized c h w ∧ output = x.input
  | dropout => output = x.input

/-! ## What is recorded -/

theorem Graph.Records.spans {g : Graph} {op : Operation} {inputs : List TensorId}
    {r : Graph.Recorded}
    (h : g.Records op inputs r) :
    ∃ shape, g.Accepts op inputs [shape] ∧ r.1.Spans r.2 shape.dims := by
  obtain ⟨shape, haccepts, rfl⟩ := h
  exact ⟨shape, haccepts, shape, shapeOf_pushed g op inputs shape, rfl⟩

namespace Emit

variable {d d' : Draft} {input t : TensorId} {dims : List Nat}

/-- A call of the recorder that succeeds has passed the checks, and the new tensor has the
inferred extents. -/
theorem recorded {f : Graph → Outcome Graph.Recorded} {op : Operation} {inputs : List TensorId}
    (hf : ∀ g r, f g = .ok r → g.Records op inputs r) (h : record f d = .ok t d') :
    ∃ shape, d.graph.Accepts op inputs [shape] ∧ d'.graph.Spans t shape.dims ∧
      d.graph.Within d'.graph := by
  obtain ⟨g, hg, rfl⟩ := record_eq_ok.mp h
  have hrecords := hf _ _ hg
  obtain ⟨shape, haccepts, hspans⟩ := hrecords.spans
  exact ⟨shape, haccepts, hspans, hrecords.within⟩

/-! ## Activations and combinations -/

theorem pointwise_spans {p : Pointwise} (h : pointwise input p d = .ok t d')
    (hinput : d.graph.Spans input dims) :
    d'.graph.Spans t dims ∧ d.graph.Within d'.graph := by
  obtain ⟨shape, haccepts, hspans, hwithin⟩ := recorded (fun _ _ => Graph.addActivation_eq_ok) h
  cases haccepts with
  | activation hsource => exact ⟨hinput.unique ⟨shape, hsource, rfl⟩ ▸ hspans, hwithin⟩

theorem combination_spans {left right : TensorId} {c : Combination} {a b : List Nat}
    (h : record (·.addCombination left right c) d = .ok t d') (hleft : d.graph.Spans left a)
    (hright : d.graph.Spans right b) :
    ∃ whole, broadcastDims a b = some whole ∧ d'.graph.Spans t whole ∧ d.graph.Within d'.graph := by
  obtain ⟨shape, haccepts, hspans, hwithin⟩ := recorded (fun _ _ => Graph.addCombination_eq_ok) h
  cases haccepts with
  | combine ha hb hdims =>
    rw [← hleft.unique ⟨_, ha, rfl⟩, ← hright.unique ⟨_, hb, rfl⟩] at hdims
    exact ⟨_, hdims, hspans, hwithin⟩

/-- Extents that are combined with themselves. -/
theorem combination_spans_self {left right : TensorId} {c : Combination}
    (h : record (·.addCombination left right c) d = .ok t d') (hleft : d.graph.Spans left dims)
    (hright : d.graph.Spans right dims) : d'.graph.Spans t dims := by
  obtain ⟨whole, hwhole, hspans, -⟩ := combination_spans h hleft hright
  rw [Tensor.broadcastDims_self] at hwhole
  exact Option.some.inj hwhole ▸ hspans

/-- **Activations** keep the extents. -/
theorem activation_spans {a : Activation} (h : activation input a d = .ok t d')
    (hinput : d.graph.Spans input dims) : d'.graph.Spans t dims := by
  cases a with
  | linear =>
    obtain ⟨rfl, rfl⟩ := pure_eq_ok.mp h
    exact hinput
  | relu | logistic | tanh | softplus | leaky | hardSigmoid => exact (pointwise_spans h hinput).1
  | mish =>
    obtain ⟨softened, d₁, hsoftened, h⟩ := bind_eq_ok.mp h
    obtain ⟨gate, d₂, hgate, h⟩ := bind_eq_ok.mp h
    obtain ⟨hsoft, hfirst⟩ := pointwise_spans hsoftened hinput
    obtain ⟨hgated, hsecond⟩ := pointwise_spans hgate hsoft
    exact combination_spans_self h (hsecond.spans (hfirst.spans hinput)) hgated
  | silu | hardSwish =>
    obtain ⟨gate, d₁, hgate, h⟩ := bind_eq_ok.mp h
    obtain ⟨hgated, hfirst⟩ := pointwise_spans hgate hinput
    exact combination_spans_self h (hfirst.spans hinput) hgated

/-- Two tensors combined, with an activation behind them. -/
theorem combined_spans {left right : TensorId} {c : Combination} {a b : List Nat} {act : Activation}
    (h : (do activation (← record (·.addCombination left right c)) act) d = .ok t d')
    (hleft : d.graph.Spans left a) (hright : d.graph.Spans right b) :
    ∃ whole, broadcastDims a b = some whole ∧ d'.graph.Spans t whole := by
  obtain ⟨u, d₁, hu, h⟩ := bind_eq_ok.mp h
  obtain ⟨whole, hwhole, hspans, -⟩ := combination_spans hu hleft hright
  exact ⟨whole, hwhole, activation_spans h hspans⟩

end Emit

/-! ## Layers with weights -/

/-- The weights of a kernel, counted for all channels, are divided among the groups. -/
theorem Convolution.product_div {c : Convolution} {channels : Nat} (hgroups : 0 < c.groups)
    (hdivides : channels % c.groups = 0) :
    c.filters * channels * c.size * c.size / c.groups = c.kernelCount channels := by
  obtain ⟨q, rfl⟩ := Nat.dvd_of_mod_eq_zero hdivides
  have hproduct : c.filters * (c.groups * q) * c.size * c.size =
      c.groups * (c.filters * q * c.size ^ 2) := by ring
  rw [kernelCount, Nat.mul_div_cancel_left q hgroups, hproduct, Nat.mul_div_cancel_left _ hgroups]

namespace Emit

variable {d d' : Draft} {input t : TensorId} {dims : List Nat}

theorem kernelLength_eq_ok {c : Convolution} {channels length : Nat}
    (h : kernelLength c channels = .ok length) :
    c.filters * channels * c.size * c.size < Word.modulus ∧
      Word.product c.filters [channels, c.size, c.size] =
        .ok (c.filters * channels * c.size * c.size) ∧
      length = c.filters * channels * c.size * c.size / c.groups := by
  obtain ⟨product, hproduct, h⟩ := Outcome.bind_eq_ok.mp h
  obtain rfl := Outcome.pure_eq_ok.mp h
  obtain ⟨rfl, hlt⟩ := Word.product_eq_ok hproduct
  exact ⟨hlt (List.cons_ne_nil _ _), hproduct, rfl⟩

theorem scale_spans {g : Graph} {m : ChannelMap} {r : Graph.Recorded}
    (h : g.Records (.scale m) [input] r) (hinput : g.Spans input dims) : r.1.Spans r.2 dims := by
  obtain ⟨shape, haccepts, hspans⟩ := h.spans
  cases haccepts with
  | scale hsource => exact hinput.unique ⟨shape, hsource, rfl⟩ ▸ hspans

/-- **Convolutions and deconvolutions**. -/
theorem convolution_sized {c : Convolution} {transposed : Bool} {block : Nat}
    (h : convolution input c transposed block d = .ok t d') (hinput : d.graph.Spans input dims) :
    ∃ n k h w output, dims = [n, k, h, w] ∧ c.InRange transposed k h w ∧
      c.Sized transposed n k h w output ∧ d'.graph.Spans t output := by
  obtain ⟨source, n, channels, height, width, length, d₁, convolved, normalized, hsource,
    hdims, hlength, -, hconvolved, hnormalized, hactivation⟩ := convolution_eq_ok h
  obtain rfl := hinput.unique ⟨source, hsource, rfl⟩
  obtain ⟨hrange, hproduct, hquotient⟩ := kernelLength_eq_ok hlength
  obtain ⟨shape, haccepts, hspans⟩ := hconvolved.spans
  cases haccepts with
  | @convolution _ _ _ _ _ _ _ _ outHeight outWidth hsource' hdims' _ _ hgroups
      _ hc _ hstored _ hheight hwidth hshape =>
    obtain rfl := Except.ok.inj (hsource.symm.trans hsource')
    obtain ⟨rfl, rfl, rfl, rfl⟩ : _ ∧ _ ∧ _ ∧ _ := by simpa using hdims.symm.trans hdims'
    have htaken := hlength.trans (congrArg Except.ok (hquotient.trans (c.product_div hgroups hc)))
    obtain ⟨hcount, -⟩ := Graph.kernelLength_eq_ok hstored
    have hkernel : c.filters * (channels / c.groups) * c.size * c.size =
        c.kernelCount channels := by
      rw [Convolution.kernelCount, Nat.pow_two, Nat.mul_assoc]
    have hstored : Graph.kernelLength (c.kernelOf transposed #[]) channels =
        .ok (c.kernelCount channels) := hstored.trans (congrArg Except.ok (hcount.trans hkernel))
    -- the extents do not depend on the weights of the kernel
    have hextent : ∀ axis ∈ [(height, outHeight), (width, outWidth)],
        Graph.kernelExtent (c.kernelOf transposed #[]) axis.1 = .ok (some axis.2) :=
      List.forall_mem_cons.mpr ⟨hheight, List.forall_mem_singleton.mpr hwidth⟩
    have hexact := fun axis haxis => Graph.kernelExtent_eq_ok.mp (hextent axis haxis)
    refine ⟨n, channels, height, width, shape.dims, hdims, ⟨hrange, fun extent hmem => ?_⟩,
      ⟨hproduct, htaken, hstored, outHeight, outWidth,
        fun axis haxis => ⟨hextent axis haxis, (hexact axis haxis).2⟩, hshape⟩,
      activation_spans hactivation ?_⟩
    · rcases List.mem_pair.mp hmem with rfl | rfl
      · exact (hexact (extent, outHeight) (by simp)).1
      · exact (hexact (extent, outWidth) (by simp)).1
    · split at hnormalized
      · exact scale_spans hnormalized hspans
      · exact hnormalized ▸ hspans

theorem normalization_spans {a : Activation} {block : Nat}
    (h : normalization input a block d = .ok t d')
    (hinput : d.graph.Spans input dims) : d'.graph.Spans t dims := by
  obtain ⟨source, n, channels, height, width, d₁, normalized, hsource, hdims, htakes, hnormalized,
    hactivation⟩ := normalization_eq_ok h
  exact activation_spans hactivation (scale_spans hnormalized hinput)

theorem implicit_spans {filters block : Nat} (h : implicit filters block d = .ok t d') :
    d'.graph.Spans t [1, filters, 1, 1] := by
  obtain ⟨shape, d₁, hdims, -, -, hpush, -⟩ := implicit_eq_ok h
  obtain ⟨hgraph, rfl⟩ := Prod.mk.inj hpush
  exact ⟨shape, hgraph ▸ Graph.shapeOf_pushed _ _ _ _, hdims.symm⟩

end Emit

/-! ## Windows -/

/-- The extents of a tensor are positive, and in range even when they are multiplied. -/
theorem Graph.Spans.extents {g : Graph} {t : TensorId} {dims : List Nat} (h : g.Spans t dims) :
    (∀ d ∈ dims, 0 < d) ∧ (∀ d ∈ dims, d < Word.modulus) ∧ volume dims < Word.modulus := by
  obtain ⟨s, -, rfl⟩ := h
  exact ⟨s.positive, fun d hd => (le_volume s.positive d hd).trans_lt s.countable, s.countable⟩

/-- What holds of all extents of a batch of images. -/
theorem forall_mem_extents {p : Nat → Prop} {n c h w : Nat} :
    (∀ d ∈ [n, c, h, w], p d) ↔ p n ∧ p c ∧ p h ∧ p w := by
  simp only [List.mem_cons, List.not_mem_nil, or_false, forall_eq_or_imp, forall_eq]

namespace SliceWindow

/-- Last positions in range are counted. -/
theorem sized_of_reach {w : SliceWindow} (h : ∀ n ∈ w.reach, n < Word.modulus) : w.Sized := by
  intro part hpart
  have hlast := h _ (w.mem_reach_of_zip hpart)
  rw [Word.mul_of_lt ((Nat.le_add_left _ _).trans_lt hlast), Outcome.ok_bind, Word.add_of_lt hlast]

theorem corner_reach {dims : List Nat} (h : ∀ d ∈ dims, d < Word.modulus) :
    ∀ n ∈ (corner dims).reach, n < Word.modulus := by
  have hreach : (corner dims).reach = dims.map (· - 1) :=
    List.ext_getElem (by simp [reach, corner]) fun i _ _ => by simp [reach, corner]
  rw [hreach]
  intro n hn
  obtain ⟨d, hd, rfl⟩ := List.mem_map.mp hn
  exact (Nat.sub_le d 1).trans_lt (h d hd)

theorem phase_reach {n c h w : Nat} (hdims : ∀ d ∈ [n, c, h, w], d < Word.modulus)
    {start : Nat × Nat}
    (hstart : start ∈ Emit.phases) : ∀ m ∈ (phase n c h w start).reach, m < Word.modulus := by
  have hsmall : start.1 < 2 ∧ start.2 < 2 := by
    revert start
    decide
  obtain ⟨hn, hc, hh, hw⟩ := forall_mem_extents.mp hdims
  have hmodulus : 2 < Word.modulus := by decide
  simp only [phase, reach, List.zipWith_cons_cons, List.zipWith_nil_right, forall_mem_extents]
  omega

end SliceWindow

/-- One of several equal parts of the channels ends inside. -/
theorem ChannelGroup.end_le (g : ChannelGroup) (hpart : g.part < g.groups) (c : Nat) :
    g.part * (c / g.groups) + c / g.groups ≤ c :=
  calc g.part * (c / g.groups) + c / g.groups = (g.part + 1) * (c / g.groups) :=
        (Nat.succ_mul _ _).symm
    _ ≤ g.groups * (c / g.groups) := Nat.mul_le_mul_right _ hpart
    _ ≤ c := Nat.mul_div_le _ _

theorem ChannelGroup.window_reach {g : ChannelGroup} {n c h w : Nat}
    (hdims : ∀ d ∈ [n, c, h, w], d < Word.modulus) (hpart : g.part < g.groups) :
    ∀ m ∈ (g.window n c h w).reach, m < Word.modulus := by
  obtain ⟨hn, hc, hh, hw⟩ := forall_mem_extents.mp hdims
  have hlast := g.end_le hpart c
  simp only [window, SliceWindow.reach, List.zipWith_cons_cons, List.zipWith_nil_right,
    forall_mem_extents]
  generalize c / g.groups = size at hlast ⊢
  omega

/-- Padded extents in range are counted. -/
theorem PoolWindow.sized_of_sums {p : PoolWindow} {n c h w height width : Nat} {output : List Nat}
    (hsums : ∀ m ∈ p.sums h w, m < Word.modulus)
    (hheight : windowCount (h + (p.before.rows + p.after.rows)) p.window.rows p.stride.rows =
      some height)
    (hwidth : windowCount (w + (p.before.columns + p.after.columns)) p.window.columns
      p.stride.columns =
      some width)
    (houtput : output = [n, c, height, width]) : p.Sized n c h w output := by
  simp only [sums, List.mem_cons, List.not_mem_nil, or_false, forall_eq_or_imp, forall_eq] at hsums
  have hcounted : ∀ {extent before after : Nat}, extent + (before + after) < Word.modulus →
      (do Word.add extent (← Word.add before after)) = .ok (extent + (before + after)) :=
        fun hlt => by
    rw [Word.add_of_lt ((Nat.le_add_left _ _).trans_lt hlt), Outcome.ok_bind, Word.add_of_lt hlt]
  exact ⟨hcounted hsums.1, hcounted hsums.2, height, width, hheight, hwidth, houtput⟩

namespace Emit

variable {d d' : Draft} {input t : TensorId} {dims : List Nat}

/-- **Pooling windows**. -/
theorem pool_sized {p : PoolWindow} (h : record (·.addPool input p) d = .ok t d')
    (hinput : d.graph.Spans input dims) :
    ∃ n c h w output, dims = [n, c, h, w] ∧ (∀ m ∈ p.sums h w, m < Word.modulus) ∧
      p.Sized n c h w output ∧ d'.graph.Spans t output := by
  obtain ⟨shape, haccepts, hspans, -⟩ := recorded (fun _ _ => Graph.addPool_eq_ok) h
  cases haccepts with
  | @pool _ _ source _ n c height width outHeight outWidth hsource hdims _ _ _ _ hheight
      hwidth hshape =>
    obtain rfl := hinput.unique ⟨source, hsource, rfl⟩
    obtain ⟨hrows, hheight⟩ := Graph.poolExtent_eq_ok.mp hheight
    obtain ⟨hcolumns, hwidth⟩ := Graph.poolExtent_eq_ok.mp hwidth
    have hsums : ∀ m ∈ p.sums height width, m < Word.modulus :=
      List.forall_mem_cons.mpr ⟨hrows, List.forall_mem_singleton.mpr hcolumns⟩
    exact ⟨n, c, height, width, shape.dims, hdims, hsums,
      PoolWindow.sized_of_sums hsums hheight hwidth hshape, hspans⟩

theorem slice_spans {w : SliceWindow} (h : record (·.addSlice input w) d = .ok t d') :
    d'.graph.Spans t w.size ∧ d.graph.Within d'.graph := by
  obtain ⟨shape, haccepts, hspans, hwithin⟩ := recorded (fun _ _ => Graph.addSlice_eq_ok) h
  cases haccepts with
  | slice _ _ _ _ _ hshape => exact ⟨hshape ▸ hspans, hwithin⟩

/-- Tensors laid end to end: the sum of their extents along the axis is an extent of the result. -/
theorem concat_spans {inputs : List TensorId} {axis : Nat} {named : List (List Nat)}
    (h : record (·.addConcat inputs axis) d = .ok t d')
    (hnamed : List.Forall₂ d.graph.Spans inputs named) :
    (named.map fun dims => (dims[axis]?).getD 0).sum < Word.modulus ∧
      ∃ whole, concatExtents axis named = some whole ∧ d'.graph.Spans t whole := by
  obtain ⟨shape, haccepts, hspans, -⟩ := recorded (fun _ _ => Graph.addConcat_eq_ok) h
  cases haccepts with
  | @concat first rest _ source _ hfirst haxis hdims =>
    refine ⟨?_, shape.dims, Graph.concatExtents_eq hfirst haxis hdims hnamed, hspans⟩
    obtain ⟨dims, others, hd, hothers, rfl⟩ := List.forall₂_cons_left_iff.mp hnamed
    obtain rfl := (Graph.spans_iff hfirst).mp hd
    rw [← List.set_getElem_self haxis] at hdims
    obtain ⟨-, hwhole⟩ := Graph.concatDims_eq_ok _ haxis hothers hdims
    have hget : shape.dims[axis]? = some
        (source.dims[axis] + (others.map fun dims => (dims[axis]?).getD 0).sum) := by
      rw [hwhole, List.getElem?_set_self haxis]
    rw [List.map_cons, List.sum_cons, List.getElem?_eq_getElem haxis, Option.getD_some]
    exact hspans.extents.2.1 _ (List.mem_of_getElem? hget)

/-! ## Layers without weights -/

/-- The extents of a batch of images, as an emitter asks for them. -/
theorem nchw_spans {s : Shape.Nchw} (h : nchw input d = .ok s d')
    (hinput : d.graph.Spans input dims) :
    dims = [s.batch, s.channels, s.height, s.width] ∧ d = d' := by
  obtain ⟨⟨shape, hshape, hdims⟩, rfl⟩ := nchw_eq_ok.mp h
  exact ⟨(hinput.unique ⟨shape, hshape, rfl⟩).trans hdims, rfl⟩

/-- **Shortcuts**: the source is cropped to the extents of the input. -/
theorem shortcut_sized {source : TensorId} {a : Activation}
    (h : shortcut input source a d = .ok t d')
    (hinput : d.graph.Spans input dims) :
    (SliceWindow.corner dims).Sized ∧ d'.graph.Spans t dims := by
  refine ⟨SliceWindow.sized_of_reach (SliceWindow.corner_reach hinput.extents.2.1), ?_⟩
  obtain ⟨current, _, hasked, h⟩ := bind_eq_ok.mp h
  obtain ⟨hcurrent, rfl⟩ := query_eq_ok.mp hasked
  obtain ⟨shape, _, hasked, h⟩ := bind_eq_ok.mp h
  obtain ⟨hshape, rfl⟩ := query_eq_ok.mp hasked
  obtain rfl := hinput.unique ⟨current, hcurrent, rfl⟩
  have hlast : ∀ (cropped : TensorId) (d₁ : Draft), d₁.graph.Spans cropped current.dims →
      d₁.graph.Spans input current.dims → (do activation (← sum cropped input) a) d₁ = .ok t d' →
      d'.graph.Spans t current.dims := by
    intro cropped d₁ hcropped hinput hrest
    obtain ⟨whole, hwhole, hspans⟩ := combined_spans hrest hcropped hinput
    rw [Tensor.broadcastDims_self] at hwhole
    exact Option.some.inj hwhole ▸ hspans
  dsimp only at h
  split at h
  · next heq => exact hlast source d ⟨current, heq ▸ hshape, rfl⟩ hinput h
  · obtain ⟨cropped, d₁, hcropped, h⟩ := bind_eq_ok.mp h
    obtain ⟨hspans, hwithin⟩ := slice_spans hcropped
    exact hlast cropped d₁ hspans (hwithin.spans hinput) h

/-- **Parts of the channels**. -/
theorem channelPart_sized {g : ChannelGroup} {block : Nat}
    (h : channelPart input g block d = .ok t d')
    (hinput : d.graph.Spans input dims) (hpart : g.part < g.groups) :
    ∃ output, g.Sized dims output ∧ d'.graph.Spans t output := by
  obtain ⟨s, _, hs, h⟩ := bind_eq_ok.mp h
  obtain ⟨rfl, rfl⟩ := nchw_spans hs hinput
  obtain ⟨divisible, _, hasked, h⟩ := bind_eq_ok.mp h
  obtain ⟨hdivides, rfl⟩ := lift_eq_ok.mp hasked
  obtain ⟨_, _, hchecked, h⟩ := bind_eq_ok.mp h
  obtain ⟨hensure, rfl⟩ := lift_eq_ok.mp hchecked
  obtain ⟨start, _, hcounted, h⟩ := bind_eq_ok.mp h
  obtain ⟨hstart, rfl⟩ := lift_eq_ok.mp hcounted
  obtain ⟨-, rfl⟩ := Word.mul_eq_ok.mp hstart
  rw [if_neg (Nat.zero_lt_of_lt hpart).ne', Outcome.ensure_eq_ok.mp hensure] at hdivides
  exact ⟨_, ⟨_, _, _, _, rfl, of_decide_eq_true (Except.ok.inj hdivides), hstart,
    SliceWindow.sized_of_reach (ChannelGroup.window_reach hinput.extents.2.1 hpart), rfl⟩,
    (slice_spans h).1⟩

/-- A route with groups keeps a part of the channels of the route **without them**. -/
theorem route_eq_bind (sources : List TensorId) (axis : Int) (group : Option ChannelGroup)
    (block : Nat) :
    route sources axis group block = (do
      let routed ← route sources axis none block
      group.elim (pure routed) (channelPart routed · block)) := by
  unfold route
  cases sources with
  | nil => rfl
  | cons first rest =>
    cases group with
    | none => simp
    | some g =>
      -- a single source is kept, several ones are laid end to end first
      cases rest with
      | nil => rfl
      | cons second rest => simp

theorem route_single (only : TensorId) (axis : Int) (block : Nat) :
    route [only] axis none block = pure only := rfl

theorem route_several (first second : TensorId) (rest : List TensorId) (axis : Int) (block : Nat) :
    route (first :: second :: rest) axis none block = (do
      let s ← shapeOf first
      let a ← lift (routeAxis axis s.rank block)
      record (·.addConcat (first :: second :: rest) a)) := by
  unfold route
  simp

/-- A route over several sources resolves its axis and lays them end to end. -/
theorem route_several_eq_ok {first second : TensorId} {rest : List TensorId} {axis : Int}
    {block : Nat} :
    route (first :: second :: rest) axis none block d = .ok t d' ↔
      ∃ (dims : List Nat) (a : Nat), d.graph.Spans first dims ∧
        routeAxis axis dims.length block = .ok a ∧
        record (·.addConcat (first :: second :: rest) a) d = .ok t d' := by
  rw [route_several]
  simp only [bind_eq_ok, shapeOf, query_eq_ok, lift_eq_ok]
  constructor
  · rintro ⟨s, _, ⟨hs, rfl⟩, a, _, ⟨ha, rfl⟩, h⟩
    exact ⟨s.dims, a, ⟨s, hs, rfl⟩, ha, h⟩
  · rintro ⟨_, a, ⟨s, hs, rfl⟩, ha, h⟩
    exact ⟨s, d, ⟨hs, rfl⟩, a, d, ⟨ha, rfl⟩, h⟩

theorem routeAxis_eq_joinedAxis {axis : Int} {rank block a : Nat}
    (h : routeAxis axis rank block = .ok a) :
    (a : Int) = joinedAxis axis rank ∧ joinedAxis axis rank < Word.signedModulus := by
  obtain ⟨hle, hlt, rfl⟩ := routeAxis_eq_ok h
  exact ⟨Int.toNat_of_nonneg (by omega), hlt⟩

/-- A route **without groups**. The axis is counted, and the extents along it are summed, if there
are several sources. -/
theorem joined_sized {sources : List TensorId} {axis : Int} {block : Nat}
    {named : List (List Nat)} (h : route sources axis none block d = .ok t d')
    (hnamed : List.Forall₂ d.graph.Spans sources named) :
    (∀ first second rest, named = first :: second :: rest →
      joinedAxis axis first.length < Word.signedModulus ∧
      (named.map fun dims => (dims[(joinedAxis axis first.length).toNat]?).getD 0).sum <
        Word.modulus) ∧
    ∃ joined, Joined axis named joined ∧ d'.graph.Spans t joined := by
  cases hnamed with
  | nil => cases h
  | @cons source dims rest others hsource hrest =>
    cases hrest with
    | nil =>
      rw [route_single] at h
      obtain ⟨rfl, rfl⟩ := pure_eq_ok.mp h
      exact ⟨fun _ _ _ hnamed => (by cases hnamed), dims, .inl rfl, hsource⟩
    | cons hsecond hrest =>
      obtain ⟨extents, a, hextents, haxis, hconcat⟩ := route_several_eq_ok.mp h
      obtain rfl := hsource.unique hextents
      obtain ⟨ha, hcounted⟩ := routeAxis_eq_joinedAxis haxis
      obtain ⟨hsum, joined, hjoined, hspans⟩ :=
        concat_spans hconcat (.cons hsource (.cons hsecond hrest))
      refine ⟨?_, joined, .inr ⟨_, _, a, rfl, ha, hjoined⟩, hspans⟩
      rintro first second rest hnamed
      obtain ⟨rfl, -⟩ := List.cons.inj hnamed
      exact ⟨hcounted, by rwa [← ha, Int.toNat_natCast]⟩

/-- **Routes**: the sources are joined, and a part of the channels is kept. -/
theorem route_sized {sources : List TensorId} {axis : Int}
    {group : Option ChannelGroup} {block : Nat}
    {named : List (List Nat)} (h : route sources axis group block d = .ok t d')
    (hnamed : List.Forall₂ d.graph.Spans sources named) (hgroup : ∀ g ∈ group, g.part < g.groups) :
    (∀ first second rest, named = first :: second :: rest →
      joinedAxis axis first.length < Word.signedModulus ∧
      (named.map fun dims => (dims[(joinedAxis axis first.length).toNat]?).getD 0).sum <
        Word.modulus) ∧
    ∃ joined output, Joined axis named joined ∧
      group.elim (output = joined) (·.Sized joined output) ∧
      d'.graph.Spans t output := by
  rw [route_eq_bind] at h
  obtain ⟨routed, d₁, hroute, h⟩ := bind_eq_ok.mp h
  obtain ⟨hrange, joined, hjoined, hrouted⟩ := joined_sized hroute hnamed
  refine ⟨hrange, joined, ?_⟩
  cases group with
  | none =>
    obtain ⟨rfl, rfl⟩ := pure_eq_ok.mp h
    exact ⟨joined, hjoined, rfl, hrouted⟩
  | some g =>
    obtain ⟨output, hkept, hspans⟩ := channelPart_sized h hrouted (hgroup g rfl)
    exact ⟨output, hjoined, hkept, hspans⟩

/-- **Enlarged images**, while the extents are scalars. -/
theorem upsample_sized {stride : Nat} (h : upsample input stride d = .ok t d')
    (hinput : d.graph.Spans input dims) (hstride : 0 < stride) :
    ∃ n c h w output, dims = [n, c, h, w] ∧ d'.graph.Spans t output ∧
      (n ≤ 0x1000000 → c ≤ 0x1000000 → h * stride ≤ 0x1000000 → w * stride ≤ 0x1000000 →
        output = [n, c, h * stride, w * stride]) := by
  obtain ⟨shape, haccepts, hspans, -⟩ := recorded (fun _ _ => Graph.addResize_eq_ok) h
  cases haccepts with
  | @resize _ _ source _ hsource hscales hshape =>
    obtain rfl := hinput.unique ⟨source, hsource, rfl⟩
    obtain ⟨n, c, height, width, hdims⟩ : ∃ n c h w, source.dims = [n, c, h, w] :=
      List.length_eq_four.mp hscales.symm
    obtain ⟨-, -, hheight, hwidth⟩ := forall_mem_extents.mp (hdims ▸ hinput.extents.1)
    refine ⟨n, c, height, width, shape.dims, hdims, hspans, fun hn hc hh hw => ?_⟩
    rw [hshape, hdims]
    simp only [List.zipWith_cons_cons, List.zipWith_nil_right, Graph.scaledExtent_one hn,
      Graph.scaledExtent_one hc, Graph.scaledExtent_ofNat hheight hstride hh,
      Graph.scaledExtent_ofNat hwidth hstride hw]

/-- **The maximum over windows**. -/
theorem maxPool_sized {size stride : Nat} (h : maxPool input size stride d = .ok t d')
    (hinput : d.graph.Spans input dims) :
    ∃ n c h w output, dims = [n, c, h, w] ∧
      (∀ extent ∈ (maxWindow size stride).sums h w, extent < Word.modulus) ∧
      maxPoolPadding size stride =
        .ok ((maxWindow size stride).before, (maxWindow size stride).after) ∧
      (maxWindow size stride).Sized n c h w output ∧ d'.graph.Spans t output := by
  obtain ⟨_, d₁, hasked, hpool⟩ := bind_eq_ok.mp h
  obtain ⟨hpadding, rfl⟩ := lift_eq_ok.mp hasked
  -- the recorder only takes windows that are not empty
  have hsize : 0 < size := by
    obtain ⟨shape, haccepts, -⟩ := recorded (fun _ _ => Graph.addPool_eq_ok) hpool
    cases haccepts with
    | pool _ _ hrows => exact hrows
  obtain rfl := Except.ok.inj ((maxPoolPadding_eq hsize stride).symm.trans hpadding)
  obtain ⟨n, c, height, width, output, hdims, hsums, hsized, hspans⟩ := pool_sized hpool hinput
  exact ⟨n, c, height, width, output, hdims, hsums, hpadding, hsized, hspans⟩

/-- **The mean of each channel**. -/
theorem averagePool_sized (h : averagePool input d = .ok t d') (hinput : d.graph.Spans input dims) :
    ∃ n c h w, dims = [n, c, h, w] ∧ d'.graph.Spans t [n, c, 1, 1] := by
  obtain ⟨s, _, hs, h⟩ := bind_eq_ok.mp h
  obtain ⟨rfl, rfl⟩ := nchw_spans hs hinput
  obtain ⟨n, c, height, width, output, hdims, -, ⟨-, -, outHeight, outWidth, hheight, hwidth,
    hout⟩, hspans⟩ :=
    pool_sized h hinput
  obtain ⟨rfl, rfl, rfl, rfl⟩ : s.batch = n ∧ s.channels = c ∧ s.height = height ∧
    s.width = width := by
    simpa using hdims
  have hone : ∀ extent, windowCount (extent + (0 + 0)) extent 1 = some 1 := by simp [windowCount]
  obtain rfl := Option.some.inj (hheight.symm.trans (hone s.height))
  obtain rfl := Option.some.inj (hwidth.symm.trans (hone s.width))
  exact ⟨_, _, _, _, rfl, hout ▸ hspans⟩

/-- The phases of a grid have half of its rows and columns each. -/
theorem phases_spans {s : Shape.Nchw} {starts : List (Nat × Nat)} {parts : List TensorId}
    (h : (starts.mapM fun (start : Nat × Nat) => record (·.addSlice input
      { start := [0, 0, start.1, start.2]
        size := [s.batch, s.channels, s.height / 2, s.width / 2]
        stride := [1, 1, 2, 2] })) d = .ok parts d') :
    List.Forall₂ d'.graph.Spans parts
        (List.replicate starts.length [s.batch, s.channels, s.height / 2, s.width / 2]) ∧
      d.graph.Within d'.graph := by
  induction starts generalizing d parts with
  | nil =>
    obtain ⟨rfl, rfl⟩ := pure_eq_ok.mp h
    exact ⟨.nil, .refl _⟩
  | cons start rest ih =>
    rw [List.mapM_cons] at h
    obtain ⟨part, d₁, hpart, h⟩ := bind_eq_ok.mp h
    obtain ⟨others, d₂, hothers, h⟩ := bind_eq_ok.mp h
    obtain ⟨rfl, rfl⟩ := pure_eq_ok.mp h
    obtain ⟨hspans, hfirst⟩ := slice_spans hpart
    obtain ⟨hrest, hwithin⟩ := ih hothers
    exact ⟨.cons (hwithin.spans hspans) hrest, hfirst.trans hwithin⟩

/-- Half of the rows and of the columns leave room for **four times the channels**. -/
theorem phases_room {n c h w : Nat} (hpos : ∀ d ∈ [n, c, h, w], 0 < d)
    (hvolume : volume [n, c, h, w] < Word.modulus) (hheight : h % 2 = 0) (hwidth : w % 2 = 0) :
    4 * c < Word.modulus := by
  obtain ⟨hn, hc, hh, hw⟩ := forall_mem_extents.mp hpos
  refine lt_of_le_of_lt ?_ hvolume
  calc 4 * c = 1 * (c * (2 * (2 * 1))) := by ring
    _ ≤ n * (c * (h * (w * 1))) := by
      gcongr
      · exact hn
      · omega
      · omega

/-- **Phases as channels**. -/
theorem reorg3d_sized {block : Nat} (h : reorg3d input block d = .ok t d')
    (hinput : d.graph.Spans input dims) :
    ∃ n c h w, dims = [n, c, h, w] ∧ h % 2 = 0 ∧ w % 2 = 0 ∧
      (∀ start ∈ phases, (SliceWindow.phase n c h w start).Sized) ∧
      d'.graph.Spans t [n, 4 * c, h / 2, w / 2] := by
  obtain ⟨s, _, hs, h⟩ := bind_eq_ok.mp h
  obtain ⟨rfl, rfl⟩ := nchw_spans hs hinput
  obtain ⟨_, _, hchecked, h⟩ := bind_eq_ok.mp h
  obtain ⟨hensure, rfl⟩ := lift_eq_ok.mp hchecked
  obtain ⟨heven, heven'⟩ : s.height % 2 = 0 ∧ s.width % 2 = 0 := by simpa using hensure
  obtain ⟨parts, d₁, hparts, h⟩ := bind_eq_ok.mp h
  refine ⟨_, _, _, _, rfl, heven, heven', fun start hstart =>
    SliceWindow.sized_of_reach (SliceWindow.phase_reach hinput.extents.2.1 hstart), ?_⟩
  obtain ⟨-, whole, hwhole, hspans⟩ := concat_spans h (phases_spans hparts).1
  have hsum : s.channels + (s.channels + (s.channels + s.channels)) = 4 * s.channels := by ring
  have hjoined : concatExtents 1
      (List.replicate phases.length [s.batch, s.channels, s.height / 2, s.width / 2]) =
      some [s.batch, 4 * s.channels, s.height / 2, s.width / 2] := by
    simp [phases, concatExtents, agreeExcept, List.replicate, hsum]
  exact Option.some.inj (hwhole.symm.trans hjoined) ▸ hspans

/-- **Positions as channels**. -/
theorem reorg_sized {stride block : Nat} (h : reorg input stride block d = .ok t d')
    (hinput : d.graph.Spans input dims) :
    stride * stride < Word.modulus ∧ ∃ n c h w, dims = [n, c, h, w] ∧
      Word.mul stride stride = .ok (stride * stride) ∧
      Word.product c [stride, stride] = .ok (c * stride * stride) ∧
      c % (stride * stride) = 0 ∧ h % stride = 0 ∧ w % stride = 0 ∧
      d'.graph.Spans t [n, c * stride * stride, h / stride, w / stride] := by
  obtain ⟨s, _, hs, h⟩ := bind_eq_ok.mp h
  obtain ⟨rfl, rfl⟩ := nchw_spans hs hinput
  obtain ⟨area, _, hasked, h⟩ := bind_eq_ok.mp h
  obtain ⟨harea, rfl⟩ := lift_eq_ok.mp hasked
  obtain ⟨hrange, rfl⟩ := Word.mul_eq_ok.mp harea
  obtain ⟨divisible, _, hasked, h⟩ := bind_eq_ok.mp h
  obtain ⟨hdivides, rfl⟩ := lift_eq_ok.mp hasked
  obtain ⟨_, _, hchecked, h⟩ := bind_eq_ok.mp h
  obtain ⟨hensure, rfl⟩ := lift_eq_ok.mp hchecked
  obtain ⟨hdivisible, hheight, hwidth⟩ : divisible = true ∧ s.height % stride = 0 ∧
      s.width % stride = 0 := by simpa [and_assoc] using hensure
  have hdivides : s.channels % (stride * stride) = 0 := by
    split at hdivides
    · cases hdivides
    · exact of_decide_eq_true ((Except.ok.inj hdivides).trans hdivisible)
  obtain ⟨viewed, d₁, hviewed, h⟩ := bind_eq_ok.mp h
  obtain ⟨moved, d₂, hmoved, h⟩ := bind_eq_ok.mp h
  obtain ⟨channels, _, hasked, h⟩ := bind_eq_ok.mp h
  obtain ⟨hchannels, rfl⟩ := lift_eq_ok.mp hasked
  obtain ⟨rfl, -⟩ := Word.product_eq_ok hchannels
  have hspans : d'.graph.Spans t
      [s.batch, s.channels * stride * stride, s.height / stride, s.width / stride] := by
    obtain ⟨shape, haccepts, hspans, -⟩ := recorded (fun _ _ => Graph.addReshape_eq_ok) h
    cases haccepts with
    | reshape _ hshape _ => exact hshape ▸ hspans
  exact ⟨hrange, _, _, _, _, rfl, harea, hchannels, hdivides, hheight, hwidth, hspans⟩

end Emit

/-! ## Heads -/

/-- **A head over a tensor** whose channels it reads: its rows are fewer than the elements
of the tensor. -/
theorem Head.sized_of_channels {head : Head} {n c h w : Nat} (hpos : ∀ d ∈ [n, c, h, w], 0 < d)
    (hvolume : volume [n, c, h, w] < Word.modulus)
    (hcounted : head.countChannels = .ok c) : head.Sized c h w := by
  obtain ⟨-, -, rfl⟩ := countChannels_eq_ok.mp hcounted
  obtain ⟨hn, hc, hh, hw⟩ := forall_mem_extents.mp hpos
  have hrows : head.boxes * w * h ≤ volume [n, head.channels, h, w] :=
    calc head.boxes * w * h = 1 * (head.boxes * 1 * (h * (w * 1))) := by ring
      _ ≤ n * (head.boxes * (5 + head.classes) * (h * (w * 1))) := by gcongr <;> omega
  exact ⟨hcounted, rfl, Word.product_of_lt (by simp [hw, hh]) (hrows.trans_lt hvolume)⟩

end GridNet
