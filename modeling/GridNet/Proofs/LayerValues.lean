import GridNet.Proofs.CountedSizes
import GridNet.Proofs.NodeValues

/-!
# The values of emitted layers

Each emitter of a layer without weights computes the operator of the interpreter on the values of
the tensors that it is given. Most layers are a single node; the others are put together from nodes
in the way in which the emitter does it.

* `Emit.record_pool_computes` … — one call of the recorder each.
* `Emit.activation_computes`, `Emit.shortcut_computes`, `Emit.route_computes`, … — one layer each.
-/

namespace GridNet

/-- A window that fits and starts at the origin lies within the extents. -/
theorem SliceWindow.within_of_fits {dims outer : List Nat}
    (h : SliceWindow.fits
      { start := List.replicate dims.length 0
        size := dims
        stride := List.replicate dims.length 1 } outer = true) :
    withinExtents dims outer = true := by
  simp only [fits, Bool.and_eq_true, decide_eq_true_eq] at h
  obtain ⟨⟨⟨-, hlength⟩, -⟩, hinside⟩ := h
  refine Tensor.withinExtents_iff.mpr (List.forall₂_iff_get.mpr ⟨hlength, fun i hi ho => ?_⟩)
  have hlast := List.all_eq_true.mp hinside (decide ((dims[i] - 1) < outer[i]))
    (List.mem_iff_getElem.mpr ⟨i, by simp [reach, hi, ho], by simp [reach]⟩)
  have := of_decide_eq_true hlast
  simp only [List.get_eq_getElem]
  omega

namespace Emit

theorem routeAxis_eq_ok {axis : Int} {rank block resolved : Nat}
    (h : routeAxis axis rank block = .ok resolved) :
    1 ≤ (if axis < 0 then rank + axis else axis + 1) ∧
      (if axis < 0 then rank + axis else axis + 1) < Word.signedModulus ∧
      resolved = (if axis < 0 then rank + axis else axis + 1).toNat := by
  simp only [routeAxis, Outcome.bind_eq_ok, Outcome.demand_eq_ok, Outcome.ensure_eq_ok,
    Outcome.pure_eq_ok, Bool.and_eq_true, decide_eq_true_eq] at h
  obtain ⟨-, hlt, -, ⟨hle, -⟩, rfl⟩ := h
  exact ⟨hle, hlt, rfl⟩

/-- The interpreter joins several tensors along the axis that the emitter has resolved. -/
theorem interpreter_route_of_axis {axis : Int} {group : Option ChannelGroup} {first second : Tensor}
    {rest : List Tensor} {rank block resolved : Nat} (hrank : first.dims.length = rank)
    (h : routeAxis axis rank block = .ok resolved) :
    Interpreter.route axis group (first :: second :: rest) =
      Tensor.join resolved (first :: second :: rest) >>= fun joined =>
        some (group.elim joined (Interpreter.channelPart · joined)) := by
  obtain ⟨haxis, -, rfl⟩ := routeAxis_eq_ok h
  rw [← hrank] at haxis ⊢
  simp only [Interpreter.route, if_pos haxis]
  rfl

/-- The padding of a window that is not empty. -/
theorem maxPoolPadding_eq {size : Nat} (hpos : 0 < size) (stride : Nat) :
    maxPoolPadding size stride =
      let before := if size = 2 ∧ stride = 1 then 0 else (size - 1) / 2
      let after := if size = 2 ∧ stride = 1 then 1 else (size - 1) / 2
      .ok (⟨before, before⟩, ⟨after, after⟩) := by
  unfold maxPoolPadding
  split
  · rfl
  · rw [Word.sub_of_le hpos]
    rfl

variable {G : Graph} {feeds : Feeds} {vs : List Tensor} {x : Tensor} {input : TensorId}

/-! ## Single nodes -/

/-- The result of an operation that checks its operand. -/
theorem demanded {condition : Bool} {y v : Tensor}
    (h : (do demand condition; return [y] : Outcome (List Tensor)) = .ok [v]) :
    condition = true ∧ y = v := by
  obtain ⟨_, hcondition, hresult⟩ := Outcome.bind_eq_ok.mp h
  exact ⟨Outcome.demand_eq_ok.mp hcondition, List.singleton_inj.mp (Outcome.pure_eq_ok.mp hresult)⟩

section Nodes

variable (hG : G.Finished feeds vs)

include hG

theorem pointwise_computes (hx : vs[input]? = some x) (p : Pointwise) :
    Computes G vs (pointwise input p) (some (x.map p.apply)) := by
  refine .record hG (fun _ _ => Graph.addActivation_eq_ok) (.cons hx .nil)
    fun g shape v _ _ _ happly => ?_
  simpa [Operation.apply, operand] using happly

theorem combination_computes {left right : TensorId} {a b : Tensor} (ha : vs[left]? = some a)
    (hb : vs[right]? = some b) (c : Combination) :
    Computes G vs (record (·.addCombination left right c)) (Tensor.combine c a b) := by
  refine .record hG (fun _ _ => Graph.addCombination_eq_ok) (.cons ha (.cons hb .nil))
    fun g shape v _ _ _ happly => ?_
  rw [Tensor.combine]
  cases hdims : broadcastDims a.dims b.dims with
  | none => simp [Operation.apply, operand, hdims] at happly
  | some dims => simpa [Operation.apply, operand, hdims] using happly

theorem concat_computes {inputs : List TensorId} {xs : List Tensor} (hxs : Reads vs inputs xs)
    (axis : Nat) : Computes G vs (record (·.addConcat inputs axis)) (Tensor.join axis xs) := by
  refine .record hG (fun _ _ => Graph.addConcat_eq_ok) hxs fun g shape v _ _ _ happly => ?_
  rw [Tensor.join]
  cases hdims : concatExtents axis (xs.map (·.dims)) with
  | none => simp [Operation.apply, hdims] at happly
  | some dims => simpa [Operation.apply, hdims] using happly

theorem slice_computes (hx : vs[input]? = some x) (w : SliceWindow) :
    Computes G vs (record (·.addSlice input w)) (some (x.slice w.start w.size w.stride)) := by
  refine .record hG (fun _ _ => Graph.addSlice_eq_ok) (.cons hx .nil)
    fun g shape v _ _ _ happly => ?_
  rw [(demanded happly).2]

/-- **Cropping**: a window that starts at the origin and leaves nothing out. -/
theorem crop_computes (hx : vs[input]? = some x) (dims : List Nat) :
    Computes G vs (record (·.addSlice input
        { start := List.replicate dims.length 0
          size := dims
          stride := List.replicate dims.length 1 }))
      (x.crop dims) := by
  refine .record hG (fun _ _ => Graph.addSlice_eq_ok) (.cons hx .nil)
    fun g shape v _ _ _ happly => ?_
  obtain ⟨hfits, rfl⟩ := demanded happly
  rw [Tensor.crop, if_pos (SliceWindow.within_of_fits hfits), Tensor.slice_origin x rfl]

theorem resize_computes (hx : vs[input]? = some x) (scales : List Scalar) :
    Computes G vs (record (·.addResize input scales))
      (some (x.enlarge scales (List.zipWith Graph.scaledExtent x.dims scales))) := by
  refine .record hG (fun _ _ => Graph.addResize_eq_ok) (.cons hx .nil)
    fun g shape v haccepts hspans _ happly => ?_
  cases haccepts with
  | resize hsource _ hshape =>
    obtain ⟨_, ⟨⟩, hdims⟩ := Graph.operand_of_spans hsource hspans
    rw [← (demanded happly).2, hshape, hdims]

theorem pool_computes (hx : vs[input]? = some x) (p : PoolWindow) :
    Computes G vs (record (·.addPool input p)) (x.summarize p) := by
  refine .record hG (fun _ _ => Graph.addPool_eq_ok) (.cons hx .nil)
    fun g shape v haccepts hspans _ happly => ?_
  cases haccepts with
  | @pool _ _ source _ n c h w height width hsource hdims _ _ _ _ hheight hwidth hshape =>
    obtain ⟨_, ⟨⟩, hd⟩ := Graph.operand_of_spans hsource hspans
    rw [hdims] at hd
    obtain ⟨-, hheight⟩ := Graph.poolExtent_eq_ok.mp hheight
    obtain ⟨-, hwidth⟩ := Graph.poolExtent_eq_ok.mp hwidth
    rw [← (demanded happly).2]
    simp [Tensor.summarize, Tensor.extent, hd, hheight, hwidth, hshape]

theorem reshape_computes (hx : vs[input]? = some x) (dims : List Nat) :
    Computes G vs (record (·.addReshape input dims)) (x.view dims) := by
  refine .record hG (fun _ _ => Graph.addReshape_eq_ok) (.cons hx .nil)
    fun g shape v _ _ _ happly => ?_
  obtain ⟨hvolume, rfl⟩ := demanded happly
  rw [Tensor.view, if_pos (of_decide_eq_true hvolume)]

theorem transpose_computes (hx : vs[input]? = some x) (order : List Nat) :
    Computes G vs (record (·.addTranspose input order)) (some (x.transpose order)) := by
  refine .record hG (fun _ _ => Graph.addTranspose_eq_ok) (.cons hx .nil)
    fun g shape v _ _ _ happly => ?_
  rw [(demanded happly).2]

/-! ## Layers of elements -/

/-- A product with a gate that is a function of the input. -/
theorem gated_computes (hx : vs[input]? = some x) {gate : TensorId} {f : Scalar → Scalar}
    (hgate : vs[gate]? = some (x.map f)) :
    Computes G vs (product input gate) (some (x.map fun e => e * f e)) :=
  Tensor.combine_map .product f x ▸ combination_computes hG hx hgate .product

theorem activation_computes (hx : vs[input]? = some x) (a : Activation) :
    Computes G vs (activation input a) (some (x.map a.apply)) := by
  cases a with
  | linear =>
    rw [show x.map Activation.linear.apply = x from Tensor.map_id x]
    exact .pure hx
  | relu => exact pointwise_computes hG hx .relu
  | logistic => exact pointwise_computes hG hx .sigmoid
  | tanh => exact pointwise_computes hG hx .tanh
  | softplus => exact pointwise_computes hG hx .softplus
  | leaky => exact pointwise_computes hG hx (.leaky leakySlope)
  | hardSigmoid => exact pointwise_computes hG hx Emit.hardSigmoid
  | mish =>
    refine (pointwise_computes hG hx .softplus).before
      (fun _ => (extends_closed.pointwise _ _).bind fun _ => extends_closed.product _ _)
      fun soft hsoft => ?_
    refine (pointwise_computes hG hsoft .tanh).before (fun _ => extends_closed.product _ _)
      fun gate hgate => ?_
    rw [Tensor.map_map] at hgate
    exact gated_computes hG hx hgate
  | silu =>
    exact (pointwise_computes hG hx .sigmoid).before (fun _ => extends_closed.product _ _)
      fun gate hgate => gated_computes hG hx hgate
  | hardSwish =>
    exact (pointwise_computes hG hx Emit.hardSigmoid).before (fun _ => extends_closed.product _ _)
      fun gate hgate => gated_computes hG hx hgate

/-! ## Layers that combine -/

/-- A combination with an activation behind it. -/
theorem combined_computes {left right : TensorId} {a b : Tensor} (ha : vs[left]? = some a)
    (hb : vs[right]? = some b) (c : Combination) (act : Activation) :
    Computes G vs (record (·.addCombination left right c) >>= (activation · act))
      (do return (← Tensor.combine c a b).map act.apply) :=
  (combination_computes hG ha hb c).bind (fun _ => extends_closed.activation _ _)
    fun _ _ _ hy => activation_computes hG hy act

theorem shortcut_computes {source : TensorId} {y : Tensor} (hx : vs[input]? = some x)
    (hy : vs[source]? = some y) (a : Activation) :
    Computes G vs (shortcut input source a) (do
      let cropped ← y.crop x.dims
      return (← Tensor.combine .sum cropped x).map a.apply) := by
  have hextends : ∀ t, Extends (sum t input >>= (activation · a)) := fun t =>
    (extends_closed.sum t input).bind fun _ => extends_closed.activation _ _
  refine .after_shapeOf hG hx fun current hcurrent => .after_shapeOf hG hy fun other hother => ?_
  dsimp only
  split
  · next heq =>
    have hself : y.crop x.dims = some y := by
      rw [hcurrent, heq, ← hother, Tensor.crop_self]
    rw [hself]
    exact (Computes.pure hy).before hextends fun t ht => combined_computes hG ht hx .sum a
  · rw [hcurrent]
    exact (crop_computes hG hy current.dims).bind hextends
      fun t z _ hz => combined_computes hG hz hx .sum a

theorem sam_computes {source : TensorId} {y : Tensor} (hx : vs[input]? = some x)
    (hy : vs[source]? = some y) (a : Activation) :
    Computes G vs (sam input source a) (do return (← Tensor.combine .product x y).map a.apply) :=
  combined_computes hG hx hy .product a

/-! ## Routing -/

theorem channelPart_computes (hx : vs[input]? = some x) (g : ChannelGroup) (block : Nat) :
    Computes G vs (channelPart input g block) (some (Interpreter.channelPart g x)) := by
  refine .after_nchw hG hx fun s hs => .after_lift fun _ _ => .after_lift fun _ _ =>
    .after_lift fun start hstart => ?_
  obtain ⟨-, rfl⟩ := Word.mul_eq_ok.mp hstart
  have hwindow : Interpreter.channelPart g x =
      x.slice [0, g.part * (s.channels / g.groups), 0, 0]
        [s.batch, s.channels / g.groups, s.height, s.width] [1, 1, 1, 1] := by
    simp [Interpreter.channelPart, Tensor.extent, hs]
  rw [hwindow]
  exact slice_computes hG hx _

/-- **Routes**: several tensors are laid end to end, and a part of their channels may be kept. -/
theorem route_computes {sources : List TensorId} {xs : List Tensor} (hxs : Reads vs sources xs)
    (axis : Int) (group : Option ChannelGroup) (block : Nat) :
    Computes G vs (route sources axis group block) (Interpreter.route axis group xs) := by
  cases hxs with
  | nil =>
    intro d t d' h _ _
    unfold route at h
    cases (lift_eq_ok.mp h).1
  | @cons first x rest xs hfirst hrest =>
    cases hrest with
    | nil =>
      cases group with
      | none => exact Computes.pure hfirst
      | some g =>
        exact (Computes.pure hfirst).before (fun _ => extends_closed.channelPart _ _ _)
          fun t ht => channelPart_computes hG ht g block
    | @cons second y rest xs hsecond hrest =>
      have hreads : Reads vs (first :: second :: rest) (x :: y :: xs) :=
        .cons hfirst (.cons hsecond hrest)
      unfold route
      dsimp only
      rw [if_neg (by simp)]
      cases group with
      | none =>
        refine .after_shapeOf hG hfirst fun s hs => .after_lift fun resolved hresolved => ?_
        rw [interpreter_route_of_axis (congrArg List.length hs) hresolved]
        exact (concat_computes hG hreads resolved).bind extends_closed.pure
          fun _ _ _ hz => .pure hz
      | some g =>
        refine .after_shapeOf hG hfirst fun s hs => .after_lift fun resolved hresolved => ?_
        rw [interpreter_route_of_axis (congrArg List.length hs) hresolved]
        exact (concat_computes hG hreads resolved).bind
          (fun _ => extends_closed.channelPart _ _ _)
          fun _ _ _ hz => channelPart_computes hG hz g block

/-! ## Resolution -/

theorem upsample_computes (hx : vs[input]? = some x) (stride : Nat) :
    Computes G vs (upsample input stride) (some (Interpreter.upsample stride x)) :=
  resize_computes hG hx _

theorem maxPool_computes (hx : vs[input]? = some x) (size stride : Nat) :
    Computes G vs (maxPool input size stride) (Interpreter.maxPool size stride x) := by
  intro d t d' h hstart hfront
  -- the recorder only takes windows that are not empty
  have hsize : 0 < size := by
    obtain ⟨padding, d₁, -, h⟩ := bind_eq_ok.mp h
    obtain ⟨g, hg, -⟩ := record_eq_ok.mp h
    obtain ⟨shape, haccepts, -⟩ := Graph.addPool_eq_ok hg
    cases haccepts with
    | pool _ _ hrows => exact hrows
  unfold maxPool at h
  rw [maxPoolPadding_eq hsize] at h
  exact pool_computes hG hx _ d t d' h hstart hfront

theorem averagePool_computes (hx : vs[input]? = some x) :
    Computes G vs (averagePool input) (Interpreter.averagePool x) := by
  refine .after_nchw hG hx fun s hs => ?_
  have hwindow : x.extent 2 = s.height ∧ x.extent 3 = s.width := by simp [Tensor.extent, hs]
  rw [Interpreter.averagePool, hwindow.1, hwindow.2]
  exact pool_computes hG hx _

/-! ## Positions into channels -/

theorem reorg3d_computes (hx : vs[input]? = some x) (block : Nat) :
    Computes G vs (reorg3d input block) (Interpreter.reorg3d x) := by
  refine .after_nchw hG hx fun s hs => .after_lift fun _ _ => ?_
  have hphase : ∀ phase : Nat × Nat, Computes G vs
      (record (·.addSlice input
        { start := [0, 0, phase.1, phase.2]
          size := [s.batch, s.channels, s.height / 2, s.width / 2]
          stride := [1, 1, 2, 2] }))
      (some (Interpreter.phase x phase.1 phase.2)) := fun phase => by
    have hwindow : Interpreter.phase x phase.1 phase.2 =
        x.slice [0, 0, phase.1, phase.2] [s.batch, s.channels, s.height / 2, s.width / 2]
          [1, 1, 2, 2] := by
      simp [Interpreter.phase, Tensor.extent, hs]
    rw [hwindow]
    exact slice_computes hG hx _
  refine .bind (.mapM (fun _ => extends_closed.record (Graph.addSlice_plain input _)) hphase phases)
    (fun _ => extends_closed.record (Graph.addConcat_plain _ 1)) fun parts hparts => ?_
  exact concat_computes hG hparts 1

theorem reorg_computes (hx : vs[input]? = some x) (stride block : Nat) :
    Computes G vs (reorg input stride block) (Interpreter.reorg stride x) := by
  refine .after_nchw hG hx fun s hs => .after_lift fun area harea => .after_lift fun _ _ =>
    .after_lift fun _ _ => ?_
  obtain ⟨-, rfl⟩ := Word.mul_eq_ok.mp harea
  have hread : Interpreter.reorg stride x = (x.view [s.batch, s.channels / (stride * stride),
      s.height, stride, s.width, stride] >>= fun viewed =>
        (viewed.transpose [0, 3, 5, 1, 2, 4]).view
          [s.batch, s.channels * stride * stride, s.height / stride, s.width / stride]) := by
    simp [Interpreter.reorg, Tensor.extent, hs]
  rw [hread]
  have hlast : ∀ moved, Extends (do
      let channels ← lift (Word.product s.channels [stride, stride])
      record (·.addReshape moved [s.batch, channels, s.height / stride, s.width / stride])) :=
    fun moved => (extends_closed.lift _).bind fun _ =>
      extends_closed.record (Graph.addReshape_plain moved _)
  refine Computes.bind (reshape_computes hG hx _)
    (fun viewed => extends_closed.bind
      (extends_closed.record (Graph.addTranspose_plain viewed _)) hlast)
        fun viewed y _ hviewed => ?_
  refine (transpose_computes hG hviewed _).before hlast fun moved hmoved =>
    .after_lift fun channels hchannels => ?_
  obtain rfl : s.channels * stride * stride = channels := (Word.product_eq_ok hchannels).1
  exact reshape_computes hG hmoved _

end Nodes

end Emit

end GridNet
