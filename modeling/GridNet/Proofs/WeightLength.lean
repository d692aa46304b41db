import GridNet.Proofs.Construction

/-!
# One number of weights builds a network

A network is built once with some weights, and once more with others. As long as the second buffer
lasts the two constructions take the same steps: they record the same nodes except for the values in
them, and stand at the same place in the weights. If it does not last, the second construction fails
where it ends.

* `Draft.Alike` — drafts with one skeleton and one place in the weights.
* `Emit.Parallel` — what a success of one step says about another step in a draft alike.
* `Build.network_length` — exactly one number of weights builds a network.
-/

namespace GridNet

/-- Drafts that differ only in the values of their weights. -/
structure Draft.Alike (d e : Draft) : Prop where
  skeleton : d.graph.skeleton = e.graph.skeleton
  position : d.cursor.position = e.cursor.position

theorem Draft.Alike.refl (d : Draft) : d.Alike d := ⟨rfl, rfl⟩

/-- The failure to take weights that would have ended at place `limit` or in front of it, from a
buffer of `total` weights. -/
def Failure.Exhausts (f : Failure) (total limit : Nat) : Prop :=
  ∃ block requested position, f = .ofDefect (.weightsExhausted block requested position total) ∧
    position ≤ total ∧ total < position + requested ∧ position + requested ≤ limit

theorem Failure.Exhausts.mono {f : Failure} {total limit limit' : Nat} (h : f.Exhausts total limit)
    (hle : limit ≤ limit') : f.Exhausts total limit' := by
  obtain ⟨block, requested, position, rfl, hposition, htotal, hlimit⟩ := h
  exact ⟨block, requested, position, rfl, hposition, htotal, hlimit.trans hle⟩

namespace Emit

variable {α β κ μ : Type}

/-- **Parallel steps.** When the first one succeeds, the second one, in a draft alike, leaves a
draft alike and succeeds with a value that has the same key, unless its weights are exhausted by
what the first one took. -/
def Parallel (key : α → κ) (m n : Emit α) : Prop :=
  ∀ d e x d', d.Alike e → m d = .ok x d' →
    d.cursor.position ≤ d'.cursor.position ∧
    ((∃ y e', n e = .ok y e' ∧ key x = key y ∧ d'.Alike e' ∧
        e'.cursor.weights = e.cursor.weights) ∨
      ∃ f e', n e = .error f e' ∧ f.Exhausts e.cursor.weights.size d'.cursor.position)

/-- A step that does the same whatever the weights are. -/
def Blind (m : Emit α) : Prop := Parallel id m m

theorem Parallel.bind {key : α → κ} {key' : β → μ} {m n : Emit α} {f g : α → Emit β}
    (hm : Parallel key m n) (hf : ∀ x y, key x = key y → Parallel key' (f x) (g y)) :
    Parallel key' (m >>= f) (n >>= g) := by
  intro d e z d' halike h
  obtain ⟨x, d₁, hx, hz⟩ := bind_eq_ok.mp h
  obtain ⟨hle, ⟨y, e₁, hy, hkey, halike₁, hweights⟩ | ⟨fault, e₁, he, hfault⟩⟩ :=
    hm d e x d₁ halike hx
  · obtain ⟨hle', hrest⟩ := hf x y hkey d₁ e₁ z d' halike₁ hz
    refine ⟨hle.trans hle', ?_⟩
    rw [hweights] at hrest
    rcases hrest with ⟨w, e', hw, hrest⟩ | ⟨fault, e', he, hfault⟩
    · exact .inl ⟨w, e', bind_eq_ok.mpr ⟨y, e₁, hy, hw⟩, hrest⟩
    · exact .inr ⟨fault, e', bind_eq_error.mpr (.inr ⟨y, e₁, hy, he⟩), hfault⟩
  · -- what follows only moves the place further
    obtain ⟨hle', -⟩ := hf x x rfl d₁ d₁ z d' (.refl d₁) hz
    exact ⟨hle.trans hle', .inr ⟨fault, e₁, bind_eq_error.mpr (.inl he), hfault.mono hle'⟩⟩

theorem Parallel.pure {key : α → κ} {x y : α} (h : key x = key y) :
    Parallel key (Pure.pure x) (Pure.pure y) := by
  intro d e z d' halike hz
  obtain ⟨rfl, rfl⟩ := pure_eq_ok.mp hz
  exact ⟨le_rfl, .inl ⟨y, e, rfl, h, halike, rfl⟩⟩

/-- Both steps give the same value. -/
theorem Parallel.andThen {key : β → κ} {m n : Emit α} {f g : α → Emit β} (hm : Parallel id m n)
    (hf : ∀ x, Parallel key (f x) (g x)) : Parallel key (m >>= f) (n >>= g) :=
  Parallel.bind hm fun x y (h : x = y) => h ▸ hf x

theorem Blind.bind {m : Emit α} {f : α → Emit β} (hm : Blind m) (hf : ∀ x, Blind (f x)) :
    Blind (m >>= f) := Parallel.andThen hm hf

/-- No step changes the weights. -/
theorem Blind.weights_eq {m : Emit α} (hm : Blind m) {d d' : Draft} {x : α} (h : m d = .ok x d') :
    d'.cursor.weights = d.cursor.weights := by
  obtain ⟨-, ⟨y, e, he, -, -, hweights⟩ | ⟨f, e, he, -⟩⟩ := hm d d x d' (.refl d) h
  · cases h.symm.trans he
    exact hweights
  · cases h.symm.trans he

theorem Blind.pure (x : α) : Blind (Pure.pure x) := Parallel.pure rfl

theorem Blind.lift (r : Outcome α) : Blind (lift r) := by
  intro d e x d' halike hx
  obtain ⟨rfl, rfl⟩ := lift_eq_ok.mp hx
  exact ⟨le_rfl, .inl ⟨x, e, rfl, rfl, halike, rfl⟩⟩

theorem Blind.shapeOf (t : TensorId) : Blind (shapeOf t) := by
  intro d e x d' halike hx
  obtain ⟨hshape, rfl⟩ := query_eq_ok.mp hx
  have he : e.graph.shapeOf t = .ok x := by
    rw [← Graph.shapeOf_skeleton, ← halike.skeleton]
    exact hshape
  exact ⟨le_rfl, .inl ⟨x, e, query_eq_ok.mpr ⟨he, rfl⟩, rfl, halike, rfl⟩⟩

theorem Blind.weightsTaken : Blind Build.weightsTaken := by
  intro d e x d' halike hx
  cases hx
  exact ⟨le_rfl, .inl ⟨_, e, rfl, halike.position, halike, rfl⟩⟩

/-- Two calls of the recorder that leave the same skeleton. -/
theorem Parallel.record {f g : Graph → Outcome (Graph × α)}
    (h : ∀ a b : Graph, a.skeleton = b.skeleton →
      (f a).map Graph.skeletonFirst = (g b).map Graph.skeletonFirst) :
    Parallel id (record f) (record g) := by
  intro d e x d' halike hx
  obtain ⟨a, ha, rfl⟩ := record_eq_ok.mp hx
  have hboth := h d.graph e.graph halike.skeleton
  rw [ha] at hboth
  obtain ⟨⟨b, y⟩, hb, hsame⟩ := Outcome.map_eq_ok.mp hboth.symm
  obtain ⟨hskeleton, rfl⟩ := Prod.mk.inj hsame
  exact ⟨le_rfl, .inl ⟨y, { e with graph := b }, record_eq_ok.mpr ⟨b, hb, rfl⟩, rfl,
    ⟨hskeleton.symm, halike.position⟩, rfl⟩⟩

theorem Blind.record {f : Graph → Outcome (Graph × α)} (h : Graph.Oblivious f) :
    Blind (record f) :=
  Parallel.record fun a b hab => by rw [h a, h b, hab]

/-- Weights are taken, or exhausted. -/
theorem Parallel.take (count block : Nat) :
    Parallel Array.size (take count block) (take count block) := by
  intro d e x d' halike hx
  obtain ⟨c, hc, rfl⟩ := take_eq_ok.mp hx
  unfold WeightCursor.take at hc
  split at hc
  · next hd =>
    obtain ⟨rfl, rfl⟩ := Prod.mk.inj (Except.ok.inj hc)
    refine ⟨Nat.le_add_right _ _, ?_⟩
    by_cases he : e.cursor.position + count ≤ e.cursor.weights.size
    · refine .inl ⟨_, _, take_eq_ok.mpr ⟨_, dif_pos he, rfl⟩, ?_, ⟨halike.skeleton, ?_⟩, rfl⟩
      · simp only [Array.size_extract]
        omega
      · exact congrArg (· + count) halike.position
    · refine .inr ⟨_, e, ?_, block, count, e.cursor.position, rfl,
        e.cursor.position_le, by omega, ?_⟩
      · unfold Emit.take WeightCursor.take
        rw [dif_neg he]
      · exact (congrArg (· + count) halike.position).ge
  · cases hc

theorem blind_closed : Closed @Blind where
  pure := .pure
  bind := .bind
  lift := .lift
  shapeOf := .shapeOf
  record h := .record h.oblivious

theorem Blind.forM {f : α → Emit PUnit} (hf : ∀ x, Blind (f x)) (xs : List α) :
    Blind (xs.forM f) := by
  induction xs with
  | nil => exact .pure _
  | cons x xs ih => exact Blind.bind (hf x) fun _ => ih

theorem Blind.throw (f : Failure) : Blind (throw f : Emit α) := fun _ _ _ _ _ h => nomatch h

/-! ## Emitters with weights -/

theorem Parallel.map {key : α → κ} {key' : β → μ} {m n : Emit α} {f g : α → β}
    (hm : Parallel key m n) (hf : ∀ x y, key x = key y → key' (f x) = key' (g y)) :
    Parallel key' (f <$> m) (g <$> n) := by
  intro d e z d' halike hz
  obtain ⟨x, hx, rfl⟩ := map_eq_ok.mp hz
  obtain ⟨hle, ⟨y, e', hy, hkey, hrest⟩ | ⟨fault, e', he, hfault⟩⟩ := hm d e x d' halike hx
  · exact ⟨hle, .inl ⟨g y, e', map_eq_ok.mpr ⟨y, hy, rfl⟩, hf x y hkey, hrest⟩⟩
  · refine ⟨hle, .inr ⟨fault, e', ?_, hfault⟩⟩
    simp only [Functor.map, EStateM.map, he]

theorem Parallel.takeIf {key : α → κ} (present : Bool) {m n : Emit α} (h : Parallel key m n) :
    Parallel (Option.map key) (takeIf present m) (takeIf present n) := by
  cases present with
  | false => exact Parallel.pure rfl
  | true => exact Parallel.map h fun x y hxy => congrArg some hxy

/-- The shape of a folded normalisation does not hang on the values. -/
theorem foldNormalization_skeleton {b s m v b' s' m' v' : Array Scalar} (hb : b.size = b'.size)
    (hs : s.size = s'.size) (hm : m.size = m'.size) (hv : v.size = v'.size) :
    (foldNormalization b s m v).skeleton = (foldNormalization b' s' m' v').skeleton := by
  simp [foldNormalization, ChannelMap.skeleton, blank, hb, hs, hm, hv]

theorem Parallel.takeNormalization (channels block : Nat) :
    Parallel ChannelMap.skeleton (takeNormalization channels block)
      (takeNormalization channels block) :=
  Parallel.bind (.take channels block) fun _ _ hb =>
    Parallel.bind (.take channels block) fun _ _ hs =>
      Parallel.bind (.take channels block) fun _ _ hm =>
        Parallel.bind (.take channels block) fun _ _ hv =>
          .pure (foldNormalization_skeleton hb hs hm hv)

theorem Parallel.addScale (input : TensorId) {m n : ChannelMap} (h : m.skeleton = n.skeleton) :
    Parallel id (Emit.record (Graph.addScale · input m)) (Emit.record (Graph.addScale · input n)) :=
  .record fun a b hab => by
    rw [Graph.addScale_skeleton, Graph.addScale_skeleton, hab, h]

theorem Blind.normalization (input : TensorId) (a : Activation) (block : Nat) :
    Blind (normalization input a block) :=
  Parallel.andThen (blind_closed.nchw input) fun _ =>
    Parallel.bind (.takeNormalization _ block) fun _ _ h =>
      Parallel.andThen (.addScale input h) fun t => blind_closed.activation t a

theorem Blind.implicit (filters block : Nat) : Blind (implicit filters block) :=
  Parallel.bind (.take filters block) fun u v h =>
    Parallel.andThen (Blind.lift _) fun shape => .record fun a b hab => by
      rw [Graph.addConstant_skeleton, Graph.addConstant_skeleton, hab, blank_eq_iff.mpr h]

theorem Blind.convolution (input : TensorId) (c : Convolution) (transposed : Bool) (block : Nat) :
    Blind (convolution input c transposed block) := by
  refine Parallel.andThen (blind_closed.nchw input) fun s =>
    Parallel.andThen (blind_closed.divides _ _) fun _ => Parallel.andThen (Blind.lift _) fun _ =>
    Parallel.andThen (Blind.lift _) fun _ => ?_
  refine Parallel.bind (.takeIf _ (.takeNormalization _ block)) fun normal normal' hnormal => ?_
  refine Parallel.bind (.takeIf _ (.take _ block)) fun bias bias' hbias => ?_
  refine Parallel.bind (.take _ block) fun weights weights' hweights => ?_
  refine Parallel.andThen (.record fun a b hab => ?_) fun convolved => ?_
  · rw [Graph.addConvolution_skeleton, Graph.addConvolution_skeleton, hab]
    simp only [Kernel.skeleton, blank_eq_iff.mpr hweights, map_blank_eq hbias]
  dsimp only
  rcases normal with _ | m <;> rcases normal' with _ | m'
  · exact Parallel.andThen (Blind.pure convolved) fun t => blind_closed.activation t c.activation
  · cases hnormal
  · cases hnormal
  · exact Parallel.andThen (.addScale convolved (Option.some.inj hnormal)) fun t =>
      blind_closed.activation t c.activation

end Emit

namespace Build

open Emit

/-! ## The pass over the layers -/

/-- **One layer** is emitted whatever the weights are. -/
theorem layer_blind (layers : List Layer) (p : Progress) (l : Layer) :
    Blind (layer layers p l) := by
  rcases hl : l.kind.isWeighted with _ | _
  · exact blind_closed.layer layers p l hl
  · unfold layer
    cases hkind : l.kind with
    | convolution => exact Blind.bind (.convolution _ _ _ _) fun _ => .pure _
    | deconvolution => exact Blind.bind (.convolution _ _ _ _) fun _ => .pure _
    | normalization => exact Blind.bind (.normalization _ _ _) fun _ => .pure _
    | implicit => exact Blind.bind (.implicit _ _) fun _ => .pure _
    | _ =>
      rw [hkind] at hl
      cases hl

theorem step_blind (layers : List Layer) (p : Progress) (l : Layer) : Blind (step layers p l) := by
  refine Blind.bind (.shapeOf p.previous) fun inputShape => ?_
  split
  · exact Blind.bind (.lift _) fun s => Blind.bind (.lift _) fun heads =>
      Blind.bind .weightsTaken fun taken => .pure _
  · exact Blind.bind (layer_blind layers p l) fun _ => Blind.bind (.shapeOf _) fun _ =>
      Blind.bind .weightsTaken fun taken => .pure _

theorem pass_blind (all : List Layer) (p : Progress) (layers : List Layer) :
    Blind (pass all p layers) := by
  induction layers generalizing p with
  | nil => exact .pure p
  | cons l rest ih => exact Blind.bind (step_blind all p l) ih

theorem markDecoded_blind (outputs : List TensorId) : Blind (markDecoded outputs) := by
  unfold markDecoded
  split
  · exact Blind.bind (.forM (fun _ => .record (Graph.markOutput_oblivious _ _)) _) fun _ => .pure _
  · exact .lift _

theorem finish_blind (b : Blueprint) (p : Progress) : Blind (finish b p) := by
  unfold finish
  split
  · exact Blind.bind (.record (Graph.markOutput_oblivious _ _)) fun _ => .pure _
  · exact Blind.bind (.lift _) fun _ =>
      Blind.bind (.record (Graph.addDecode_oblivious _ _)) fun outputs => markDecoded_blind outputs

theorem body_blind (b : Blueprint) : Blind (body b) :=
  Blind.bind (.lift _) fun _ => Blind.bind (.record (Graph.addInput_oblivious _ _)) fun input =>
    Blind.bind (pass_blind _ _ _) fun p => .pure (input, p)

theorem close_blind (b : Blueprint) (input : TensorId) (p : Progress) :
    Blind (close b input p) := by
  have hafter : Blind (finish b p >>= fun outputs => weightsTaken >>= fun taken =>
      (pure { input, outputs, heads := p.heads, headTensors := p.headTensors, table := p.table,
              weightsTaken := taken } : Emit BuiltNetwork)) :=
    Blind.bind (finish_blind b p) fun _ => Blind.bind .weightsTaken fun _ => .pure _
  unfold close
  dsimp only
  split
  · exact Blind.bind (.throw _) fun _ => hafter
  · exact hafter

/-! ## Whole networks -/

/-- **Exactly one number of weights builds a network.** When it can be built with some weights, then
with as many others it becomes the same network up to the stored values; with more of them some are
reported to be unused, and with fewer they are exhausted at a place that is reported. -/
theorem network_length {b : Blueprint} {weights : WeightBuffer} {built : BuiltNetwork} {d : Draft}
    (h : network b { cursor := .start weights } = .ok built d) (others : WeightBuffer) :
    (others.size = weights.size → ∃ e, network b { cursor := .start others } = .ok built e ∧
      e.graph.skeleton = d.graph.skeleton) ∧
    (weights.size < others.size → ∃ e, network b { cursor := .start others } =
      .error (.ofDefect (.weightsUnused weights.size others.size)) e) ∧
    (others.size < weights.size → ∃ block requested position e,
      network b { cursor := .start others } =
        .error (.ofDefect (.weightsExhausted block requested position others.size)) e ∧
      position ≤ others.size ∧ others.size < position + requested) := by
  obtain ⟨input, p, d₁, hbody, hall, hclose⟩ := network_eq_ok.mp h
  have hweights : d₁.cursor.weights = weights := (body_blind b).weights_eq hbody
  have hlast : d.cursor.position ≤ weights.size := by
    have := d.cursor.position_le
    rwa [(close_blind b input p).weights_eq hclose, hweights] at this
  rw [hweights] at hall
  have hstart : Draft.Alike { cursor := .start weights } { cursor := .start others } := ⟨rfl, rfl⟩
  obtain ⟨-, ⟨_, e₁, he₁, rfl, halike, hothers⟩ | ⟨f, e, hf, hfault⟩⟩ :=
    body_blind b _ _ _ _ hstart hbody
  · -- the pass succeeds with the other weights, too, and has taken as many
    have hplace : e₁.cursor.position = weights.size := halike.position.symm.trans hall
    have hsize : e₁.cursor.weights.size = others.size := congrArg Array.size hothers
    refine ⟨fun heq => ?_, fun hlt => ?_, fun hlt => ?_⟩
    · obtain ⟨-, ⟨_, e, he, rfl, hend, -⟩ |
        ⟨f, e, hf, block, requested, position, rfl, -, hshort, hle⟩⟩ :=
        close_blind b input p _ _ _ _ halike hclose
      · exact ⟨e, network_eq_ok.mpr ⟨input, p, e₁, he₁, by omega, he⟩, hend.skeleton.symm⟩
      · omega
    · refine ⟨e₁, bind_eq_error.mpr (.inr ⟨(input, p), e₁, he₁, bind_eq_error.mpr (.inl ?_)⟩)⟩
      rw [confirmWeights_eq, if_neg (by omega), hplace, hsize]
    · have := e₁.cursor.position_le
      omega
  · -- the pass takes more than there is
    obtain ⟨block, requested, position, rfl, hposition, hshort, hle⟩ := hfault
    have hsize : ({ cursor := .start others } : Draft).cursor.weights.size = others.size := rfl
    rw [hsize] at hposition hshort
    refine ⟨fun heq => ?_, fun hlt => ?_, fun _ => ?_⟩
    · omega
    · omega
    · exact ⟨block, requested, position, e, bind_eq_error.mpr (.inl hf), hposition, hshort⟩

/-- A network of one constant. -/
def constantBlueprint : Blueprint where
  name := "constant"
  input := { width := 1, height := 1, channels := 1 }
  layers := [⟨0, .implicit 1⟩]
  heads := []
  classes := 0
  activatedHeads := false

theorem network_length_constantBlueprint :
    ∃ block requested position e, network constantBlueprint { cursor := .start #[] } =
      .error (.ofDefect (.weightsExhausted block requested position 0)) e ∧
      position ≤ 0 ∧ 0 < position + requested := by
  obtain ⟨built, d, h⟩ :
      ∃ built d, network constantBlueprint { cursor := .start #[.one] } = .ok built d := ⟨_, _, rfl⟩
  exact (network_length h #[]).2.2 (by decide)

end Build

end GridNet
