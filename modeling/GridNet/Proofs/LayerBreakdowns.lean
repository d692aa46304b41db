import GridNet.Proofs.Breakdowns
import GridNet.Proofs.LayerSizes

/-!
# Where a layer breaks down

An emitter is steady at a draft if it succeeds there or fails for a cause. It divides only by counts
that are positive, and most of what it counts is in range because the extents of a tensor are. What
remains is what `LayerKind.InRange` asks for.

* `Emit.Steady` — a step that does not break down at a draft.
* `Emit.shortcut_steady`, `Emit.reorg3d_steady`, … — layers that never do.
* `Emit.convolution_steady`, `Emit.route_steady`, `Emit.maxPool_steady`, `Emit.reorg_steady` —
  layers that do not if they are in range.
-/

namespace GridNet

namespace Emit

open Outcome (steady_of_eq_ok steady_because steady_ensure steady_ok)

variable {α β : Type} {d : Draft}

/-- A step that is **steady at a draft**: it does not fail there without a cause. -/
def Steady (d : Draft) (m : Emit α) : Prop := ∀ d', m d ≠ .error .brokenDown d'

theorem steady_pure (x : α) (d : Draft) : Steady d (pure x : Emit α) := fun _ => nofun

/-- The second step is only taken behind the first one, with what this leaves. -/
theorem Steady.bind {m : Emit α} {f : α → Emit β} (hm : Steady d m)
    (hf : ∀ x d₁, m d = .ok x d₁ → Steady d₁ (f x)) : Steady d (m >>= f) := by
  intro d' h
  rcases bind_eq_error.mp h with h | ⟨x, d₁, hx, h⟩
  · exact hm d' h
  · exact hf x d₁ hx d' h

theorem steady_lift {r : Outcome α} (hr : Outcome.Steady r) (d : Draft) : Steady d (lift r) := by
  intro d' h
  unfold lift at h
  split at h
  · cases h
  · cases h
    exact hr rfl

/-- A check in front of a step. -/
theorem Steady.after_lift {r : Outcome α} {f : α → Emit β} (hr : Outcome.Steady r)
    (hf : ∀ x, r = .ok x → Steady d (f x)) : Steady d (lift r >>= f) := by
  refine (steady_lift hr d).bind fun x d₁ h => ?_
  obtain ⟨hx, rfl⟩ := lift_eq_ok.mp h
  exact hf x hx

/-- A value that is known, in front of a step. -/
theorem Steady.after_ok {r : Outcome α} {x : α} {f : α → Emit β} (hr : r = .ok x)
    (hf : Steady d (f x)) : Steady d (lift r >>= f) := by
  refine .after_lift (steady_of_eq_ok hr) fun y hy => ?_
  obtain rfl := Except.ok.inj (hr.symm.trans hy)
  exact hf

theorem steady_query {q : Graph → Outcome α} (hq : Outcome.Steady (q d.graph)) :
    Steady d (query q) := by
  intro d' h
  unfold query at h
  split at h
  · cases h
  · next e he =>
    cases h
    exact hq he

/-- A question in front of a step. -/
theorem Steady.after_query {q : Graph → Outcome α} {f : α → Emit β}
    (hq : Outcome.Steady (q d.graph))
    (hf : ∀ x, q d.graph = .ok x → Steady d (f x)) : Steady d (query q >>= f) := by
  refine (steady_query hq).bind fun x d₁ h => ?_
  obtain ⟨hx, rfl⟩ := query_eq_ok.mp h
  exact hf x hx

theorem steady_record {f : Graph → Outcome (Graph × α)} (hf : Outcome.Steady (f d.graph)) :
    Steady d (record f) := by
  intro d' h
  unfold record at h
  split at h
  · cases h
  · next e he =>
    cases h
    exact hf he

theorem take_steady (count block : Nat) (d : Draft) : Steady d (take count block) := by
  intro d' h
  unfold take WeightCursor.take at h
  split at h
  · cases h
  · next e he =>
    split at he
    · cases he
    · cases he
      cases h

theorem Steady.map {m : Emit α} (hm : Steady d m) (f : α → β) : Steady d (f <$> m) := by
  rw [map_eq_pure_bind]
  exact hm.bind fun x d₁ _ => steady_pure (f x) d₁

theorem Steady.takeIf {m : Emit α} (hm : Steady d m) (present : Bool) :
    Steady d (takeIf present m) := by
  cases present with
  | false => exact steady_pure none d
  | true => exact hm.map some

theorem steady_mapM {f : α → Emit β} {xs : List α}
    (hf : ∀ x ∈ xs, ∀ d, Steady d (f x)) (d : Draft) :
    Steady d (xs.mapM f) := by
  induction xs generalizing d with
  | nil => exact steady_pure [] d
  | cons x rest ih =>
    rw [List.mapM_cons]
    exact (hf x List.mem_cons_self d).bind fun y d₁ _ =>
      (ih (fun x hx => hf x (List.mem_cons_of_mem _ hx)) d₁).bind fun ys d₂ _ =>
        steady_pure (y :: ys) d₂

theorem steady_forM {f : α → Emit PUnit} (hf : ∀ x d, Steady d (f x)) (xs : List α) (d : Draft) :
    Steady d (xs.forM f) := by
  induction xs generalizing d with
  | nil => exact steady_pure _ d
  | cons x rest ih => exact (hf x d).bind fun _ d₁ _ => ih d₁

/-- The shape of a tensor in front of a step. -/
theorem Steady.after_shapeOf {t : TensorId} {f : Shape → Emit β}
    (hf : ∀ s, d.graph.Spans t s.dims → Steady d (f s)) : Steady d (shapeOf t >>= f) :=
  .after_query (d.graph.shapeOf_steady t) fun s hs => hf s ⟨s, hs, rfl⟩

/-- The extents of a batch of images in front of a step. -/
theorem Steady.after_nchw {t : TensorId} {f : Shape.Nchw → Emit β}
    (hf : ∀ s, d.graph.Spans t [s.batch, s.channels, s.height, s.width] → Steady d (f s)) :
    Steady d (nchw t >>= f) := by
  refine Steady.bind ?_ fun s d₁ hs => ?_
  · exact .after_shapeOf fun s _ => steady_lift s.nchw_steady d
  · obtain ⟨⟨shape, hshape, hdims⟩, rfl⟩ := nchw_eq_ok.mp hs
    exact hf s ⟨shape, hshape, hdims.symm⟩

/-- A division by a positive count in front of a step. -/
theorem Steady.after_divides {k : Nat} (hk : 0 < k) {n : Nat} {f : Bool → Emit β}
    (hf : Steady d (f (n % k = 0))) : Steady d (divides k n >>= f) := by
  refine .after_lift ?_ fun divisible h => ?_
  · rw [if_neg hk.ne']
    exact steady_ok _
  · rw [if_neg hk.ne'] at h
    exact Except.ok.inj h ▸ hf

/-! ## Layers that never break down -/

theorem pointwise_steady (input : TensorId) (p : Pointwise) (d : Draft) :
    Steady d (pointwise input p) :=
  steady_record (d.graph.addActivation_steady input p)

theorem product_steady (left right : TensorId) (d : Draft) : Steady d (product left right) :=
  steady_record (d.graph.addCombination_steady left right .product)

theorem sum_steady (left right : TensorId) (d : Draft) : Steady d (sum left right) :=
  steady_record (d.graph.addCombination_steady left right .sum)

theorem activation_steady (input : TensorId) (a : Activation) (d : Draft) :
    Steady d (activation input a) := by
  cases a with
  | linear => exact steady_pure input d
  | relu | logistic | tanh | softplus | leaky | hardSigmoid => exact pointwise_steady input _ d
  | mish =>
    exact (pointwise_steady input _ d).bind fun softened d₁ _ =>
      (pointwise_steady softened _ d₁).bind fun gate d₂ _ => product_steady _ _ d₂
  | silu | hardSwish =>
    exact (pointwise_steady input _ d).bind fun gate d₁ _ => product_steady _ _ d₁

/-- A window at the origin reaches no further than the extents. -/
theorem shortcut_steady (input source : TensorId) (a : Activation) (d : Draft) :
    Steady d (shortcut input source a) := by
  have hlast : ∀ cropped d₁, Steady d₁ (do activation (← sum cropped input) a) := fun cropped d₁ =>
    (sum_steady cropped input d₁).bind fun t d₂ _ => activation_steady t a d₂
  refine .after_shapeOf fun current hcurrent => .after_shapeOf fun other _ => ?_
  dsimp only
  split
  · exact hlast source d
  · exact (steady_record (d.graph.addSlice_steady
      (SliceWindow.corner_reach hcurrent.extents.2.1))).bind fun cropped d₁ _ => hlast cropped d₁

theorem sam_steady (input attention : TensorId) (a : Activation) (d : Draft) :
    Steady d (sam input attention a) :=
  (product_steady _ _ d).bind fun t d₁ _ => activation_steady t a d₁

/-- A part of the channels ends inside. -/
theorem channelPart_steady (routed : TensorId) {g : ChannelGroup}
    (hpart : g.part < g.groups) (block : Nat)
    (d : Draft) : Steady d (channelPart routed g block) := by
  refine .after_nchw fun s hs => .after_divides (Nat.zero_lt_of_lt hpart) <|
    .after_lift (steady_ensure _ _) fun _ _ => ?_
  obtain ⟨-, hword, -⟩ := hs.extents
  have hend := g.end_le hpart s.channels
  have hstart := Word.mul_of_lt
    (((Nat.le_add_right _ _).trans hend).trans_lt (hword s.channels (by simp)))
  exact .after_ok hstart <|
    steady_record (d.graph.addSlice_steady (ChannelGroup.window_reach hword hpart))

theorem upsample_steady (input : TensorId) (stride : Nat) (d : Draft) :
    Steady d (upsample input stride) :=
  steady_record (d.graph.addResize_steady input _)

/-- A window as large as the image has no padding. -/
theorem averagePool_steady (input : TensorId) (d : Draft) : Steady d (averagePool input) := by
  refine .after_nchw fun s hs => steady_record (d.graph.addPool_steady ?_)
  obtain ⟨-, hword, -⟩ := hs.extents
  rw [Recording.sums, hs.extentsOf_eq]
  exact List.forall_mem_cons.mpr ⟨hword s.height (by simp),
    fun n hn => List.mem_singleton.mp hn ▸ hword s.width (by simp)⟩

/-- Phases reach no further than the image, and together they have not more elements. -/
theorem reorg3d_steady (input : TensorId) (block : Nat) (d : Draft) :
    Steady d (reorg3d input block) := by
  refine .after_nchw fun s hs => .after_lift (steady_ensure _ _) fun _ hensure => ?_
  obtain ⟨hpositive, hword, hvolume⟩ := hs.extents
  obtain ⟨hheight, hwidth⟩ : s.height % 2 = 0 ∧ s.width % 2 = 0 := by simpa using hensure
  have hphases : ∀ start ∈ phases, ∀ d, Steady d
      (record (·.addSlice input (SliceWindow.phase s.batch s.channels s.height s.width start))) :=
    fun start hstart d => steady_record
      (d.graph.addSlice_steady (SliceWindow.phase_reach hword hstart))
  refine (steady_mapM hphases d).bind fun parts d₁ hparts =>
    steady_record (d₁.graph.addConcat_steady ?_)
  have hroom := phases_room hpositive hvolume hheight hwidth
  rw [Recording.sums_concat (phases_spans hparts).1]
  simp [phases]
  omega

theorem takeNormalization_steady (channels block : Nat) (d : Draft) :
    Steady d (takeNormalization channels block) :=
  (take_steady _ _ d).bind fun _ d₁ _ => (take_steady _ _ d₁).bind fun _ d₂ _ =>
    (take_steady _ _ d₂).bind fun _ d₃ _ => (take_steady _ _ d₃).bind fun _ d₄ _ => steady_pure _ d₄

theorem normalization_steady (input : TensorId) (a : Activation) (block : Nat) (d : Draft) :
    Steady d (normalization input a block) :=
  .after_nchw fun _ _ => (takeNormalization_steady _ _ d).bind fun m d₁ _ =>
    (steady_record (d₁.graph.addScale_steady input m)).bind fun t d₂ _ => activation_steady t a d₂

theorem implicit_steady (filters block : Nat) (d : Draft) : Steady d (implicit filters block) :=
  (take_steady _ _ d).bind fun values d₁ _ => .after_lift (Shape.ofDims_steady _) fun shape _ =>
    steady_record (d₁.graph.addConstant_steady shape values)

/-! ## Layers that break down out of range -/

/-- **Convolutions and deconvolutions**: the weights, counted for all channels, and the extents
behind the kernel. -/
theorem convolution_steady {input : TensorId} {dims : List Nat} {c : Convolution}
    {transposed : Bool}
    (hinput : d.graph.Spans input dims) (hsize : 0 < c.size) (hgroups : 0 < c.groups)
    (hrange : ∀ n k h w, dims = [n, k, h, w] → c.InRange transposed k h w) (block : Nat) :
    Steady d (convolution input c transposed block) := by
  refine .after_nchw fun s hs => .after_divides hgroups <|
    .after_lift (steady_ensure _ _) fun _ hensure => ?_
  obtain rfl := hinput.unique hs
  obtain ⟨hweights, hextents⟩ := hrange _ _ _ _ rfl
  have hchannels := hs.extents.1 s.channels (by simp)
  have hproduct : Word.product c.filters [s.channels, c.size, c.size] =
      .ok (c.filters * s.channels * c.size * c.size) :=
    Word.product_of_lt (by simp [hchannels, hsize]) hweights
  refine .after_lift (.after_ok hproduct <| Outcome.steady_pure _) fun length _ => ?_
  refine ((takeNormalization_steady _ _ d).takeIf _).bind fun normalization d₁ hnormalization =>
    ((take_steady _ _ d₁).takeIf _).bind fun bias d₂ hbias => (take_steady _ _ d₂).bind
      fun weights d₃ htaken => ?_
  -- nothing is recorded while weights are taken
  have hgraph : d₃.graph = d.graph := by
    rw [(take_takes htaken).1.graph, (takeIf_takes (fun _ => take_takes) hbias).1.graph,
      (takeIf_takes (fun _ => takeNormalization_takes) hnormalization).1.graph]
  refine Steady.bind (steady_record (d₃.graph.addConvolution_steady ?_)) fun convolved d₄ _ => ?_
  · rw [hgraph, Recording.sums, hs.extentsOf_eq]
    refine List.forall_mem_cons.mpr ⟨lt_of_le_of_lt ?_ hweights, List.forall_mem_append.mpr
      ⟨hextents s.height (by simp), hextents s.width (by simp)⟩⟩
    calc c.filters * (s.channels / c.groups) * c.size ^ 2 ≤
          c.filters * s.channels * c.size ^ 2 := by
          gcongr
          exact Nat.div_le_self _ _
      _ = c.filters * s.channels * c.size * c.size := by ring
  · cases normalization with
    | none => exact (steady_pure convolved d₄).bind fun t d₅ _ => activation_steady t _ d₅
    | some m =>
      exact (steady_record (d₄.graph.addScale_steady convolved m)).bind fun t d₅ _ =>
        activation_steady t _ d₅

theorem routeAxis_steady {axis : Int} {rank : Nat} (h : joinedAxis axis rank < Word.signedModulus)
    (block : Nat) :
    Outcome.Steady (routeAxis axis rank block) :=
  .after_ok (a := ()) (Outcome.demand_eq_ok.mpr (decide_eq_true h)) <|
    (steady_ensure _ _).bind fun _ _ => Outcome.steady_pure _

/-- A route without groups: the axis, and the sum of the extents along it. -/
theorem joined_steady {sources : List TensorId} {named : List (List Nat)} {axis : Int}
    (hnamed : List.Forall₂ d.graph.Spans sources named)
    (hrange : ∀ first second rest, named = first :: second :: rest →
      joinedAxis axis first.length < Word.signedModulus ∧
      (named.map fun dims => (dims[(joinedAxis axis first.length).toNat]?).getD 0).sum <
        Word.modulus)
    (block : Nat) : Steady d (route sources axis none block) := by
  cases hnamed with
  | nil => exact steady_lift (steady_because _) d
  | @cons source dims rest others hsource hrest =>
    cases hrest with
    | nil => exact steady_pure source d
    | cons hsecond hrest =>
      obtain ⟨haxis, hsum⟩ := hrange _ _ _ rfl
      rw [route_several]
      refine .after_shapeOf fun s hs => ?_
      obtain rfl := hsource.unique hs
      refine .after_lift (routeAxis_steady haxis block) fun a ha => ?_
      obtain ⟨hjoined, -⟩ := routeAxis_eq_joinedAxis ha
      refine steady_record (d.graph.addConcat_steady ?_)
      rw [Recording.sums_concat (.cons hsource (.cons hsecond hrest))]
      rw [← Shape.rank, ← hjoined, Int.toNat_natCast] at hsum
      exact fun n hn => List.mem_singleton.mp hn ▸ hsum

/-- **Routes**: what is joined is in range, and a part of its channels always is. -/
theorem route_steady {sources : List TensorId} {named : List (List Nat)} {axis : Int}
    {group : Option ChannelGroup}
    (hnamed : List.Forall₂ d.graph.Spans sources named) (hgroup : ∀ g ∈ group, g.part < g.groups)
    (hrange : ∀ first second rest, named = first :: second :: rest →
      joinedAxis axis first.length < Word.signedModulus ∧
      (named.map fun dims => (dims[(joinedAxis axis first.length).toNat]?).getD 0).sum <
        Word.modulus)
    (block : Nat) : Steady d (route sources axis group block) := by
  rw [route_eq_bind]
  refine (joined_steady hnamed hrange block).bind fun routed d₁ _ => ?_
  cases group with
  | none => exact steady_pure routed d₁
  | some g => exact channelPart_steady routed (hgroup g rfl) block d₁

/-- **The maximum over windows**: the padded extents. -/
theorem maxPool_steady {input : TensorId} {dims : List Nat} {size stride : Nat}
    (hinput : d.graph.Spans input dims)
    (hsize : 0 < size) (hrange : ∀ n c h w, dims = [n, c, h, w] →
      ∀ extent ∈ (maxWindow size stride).sums h w, extent < Word.modulus) :
    Steady d (maxPool input size stride) := by
  have hpadding := maxPoolPadding_eq hsize stride
  refine .after_ok hpadding <|
    steady_record (d.graph.addPool_steady (p := maxWindow size stride) ?_)
  rw [Recording.sums, hinput.extentsOf_eq]
  split
  · exact hrange _ _ _ _ rfl
  · exact fun _ hnone => absurd hnone List.not_mem_nil

/-- Blocks of positions leave room for **as many channels as they have positions**. -/
theorem stride_room {n c h w stride : Nat} (hpos : ∀ d ∈ [n, c, h, w], 0 < d)
    (hvolume : volume [n, c, h, w] < Word.modulus) (hheight : h % stride = 0)
    (hwidth : w % stride = 0) :
    c * stride * stride < Word.modulus := by
  obtain ⟨hn, hc, hh, hw⟩ := forall_mem_extents.mp hpos
  have hrows := Nat.le_of_dvd hh (Nat.dvd_of_mod_eq_zero hheight)
  have hcolumns := Nat.le_of_dvd hw (Nat.dvd_of_mod_eq_zero hwidth)
  refine lt_of_le_of_lt ?_ hvolume
  calc c * stride * stride = 1 * (c * (stride * (stride * 1))) := by ring
    _ ≤ n * (c * (h * (w * 1))) := by gcongr; exact hn

/-- **Positions as channels**: the square of the stride. The channels that this leads to are an
extent of the result, which has as many elements as the operand. -/
theorem reorg_steady {input : TensorId} {stride : Nat} (hstride : 0 < stride)
    (hrange : stride * stride < Word.modulus) (block : Nat) :
    Steady d (reorg input stride block) := by
  refine .after_nchw fun s hs => .after_ok (Word.mul_of_lt hrange) <|
    .after_divides (Nat.mul_pos hstride hstride) <|
    .after_lift (steady_ensure _ _) fun _ hensure => ?_
  obtain ⟨-, hheight, hwidth⟩ : s.channels % (stride * stride) = 0 ∧ s.height % stride = 0 ∧
    s.width % stride = 0 := by
    simpa [and_assoc] using hensure
  have hchannels : Word.product s.channels [stride, stride] = .ok (s.channels * stride * stride) :=
    Word.product_of_lt (by simp [hstride]) (stride_room hs.extents.1 hs.extents.2.2 hheight hwidth)
  exact (steady_record (d.graph.addReshape_steady input _)).bind fun viewed d₁ _ =>
    (steady_record (d₁.graph.addTranspose_steady viewed _)).bind fun moved d₂ _ =>
      .after_ok hchannels <| steady_record (d₂.graph.addReshape_steady moved _)

end Emit

end GridNet
