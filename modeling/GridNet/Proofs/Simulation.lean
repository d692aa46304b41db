import GridNet.Proofs.CheckedBlueprint
import GridNet.Proofs.WeightOwnership
import GridNet.Proofs.WeightedValues

/-!
# The pass over the layers follows the interpreter

While the layers are emitted, the interpreter reads them with values in place of tensor numbers. The
two stay together: the interpreter's tensors are the values of the tensors that the pass has
recorded, both have used up the same weights, and both have placed the same heads.

* `Build.Follows` — the relation between the two states.
* `Build.layer_value` — one layer, one case for each kind.
* `Build.pass_follows` — all layers.
-/

namespace GridNet

variable {G : Graph} {feeds : Feeds} {vs : List Tensor}

/-! ## References -/

theorem LayerOutputs.resolve_eq_ok {o : LayerOutputs} {reference : Int} {block i : Nat}
    (h : o.resolve reference block = .ok i) :
    0 ≤ (if reference < 0 then o.size + reference else reference) ∧
      i = (if reference < 0 then o.size + reference else reference).toNat := by
  unfold resolve at h
  dsimp only at h
  generalize (if reference < 0 then (o.size : Int) + reference else reference) = index at h ⊢
  split at h
  · next hinside => exact ⟨hinside.1, (Except.ok.inj h).symm⟩
  · cases h

/-- A reference that is resolved leads to the same layer in both. -/
theorem Reads.lookup_value {o : LayerOutputs} {s : Interpreter.State} {reference : Int}
    {block index : Nat} {t : TensorId} (hreads : Reads vs o.tensors s.earlier)
    (h : o.lookup reference block = .ok (index, t)) :
    ∃ y, s.source? reference = some y ∧ vs[t]? = some y := by
  simp only [LayerOutputs.lookup, Outcome.bind_eq_ok] at h
  obtain ⟨i, hresolve, h⟩ := h
  obtain ⟨hinside, hi⟩ := LayerOutputs.resolve_eq_ok hresolve
  split at h
  · next t' ht =>
    obtain ⟨-, rfl⟩ := Prod.mk.inj (Outcome.pure_eq_ok.mp h)
    obtain ⟨hlt, htensor⟩ := List.getElem?_eq_some_iff.mp ht
    have hlt' : i < s.earlier.length := hreads.length_eq ▸ hlt
    have hvalue := (List.forall₂_iff_get.mp hreads).2 i hlt hlt'
    rw [List.get_eq_getElem, htensor] at hvalue
    rw [LayerOutputs.size, hreads.length_eq] at hinside hi
    refine ⟨_, ?_, hvalue⟩
    rw [Interpreter.State.source?, if_pos hinside, ← hi, List.getElem?_eq_getElem hlt']
    rfl
  · cases h

theorem lookupImplicit_eq_ok {layers : List Layer} {o : LayerOutputs} {kind : LayerKind}
    {reference : Int} {block : Nat} {r : Nat × TensorId}
    (h : Build.lookupImplicit layers o kind reference block = .ok r) :
    o.lookup reference block = .ok r := by
  simp only [Build.lookupImplicit, Outcome.bind_eq_ok] at h
  obtain ⟨found, hfound, h⟩ := h
  split at h
  · obtain rfl := Outcome.pure_eq_ok.mp h
    exact hfound
  · simp at h

/-- All sources of a route. -/
theorem Reads.lookups_value {o : LayerOutputs} {s : Interpreter.State} {sources : List Int}
    {block : Nat} {found : List (Nat × TensorId)} (hreads : Reads vs o.tensors s.earlier)
    (h : sources.mapM (o.lookup · block) = .ok found) :
    ∃ ys, sources.mapM s.source? = some ys ∧ Reads vs (found.map (·.2)) ys := by
  have hall := Outcome.mapM_eq_ok.mp h
  clear h
  induction hall with
  | nil => exact ⟨[], rfl, .nil⟩
  | @cons source entry _ _ hfirst _ ih =>
    obtain ⟨y, hy, hvalue⟩ := hreads.lookup_value hfirst
    obtain ⟨ys, hys, hvalues⟩ := ih
    refine ⟨y :: ys, ?_, .cons hvalue hvalues⟩
    rw [List.mapM_cons, hy, hys]
    rfl

namespace Build

variable {all : List Layer} {p p' : Progress} {l : Layer} {d d' : Draft} {weights : WeightBuffer}
  {s : Interpreter.State}

/-! ## One layer -/

/-- **The pass follows the interpreter**: the tensors of one are the values of those of
the other. -/
structure Follows (weights : WeightBuffer) (vs : List Tensor) (p : Progress) (d : Draft)
    (s : Interpreter.State) : Prop where
  earlier : Reads vs p.outputs.tensors s.earlier
  current : vs[p.previous]? = some s.current
  weights : d.cursor.weights = weights
  taken : s.taken = d.cursor.position
  heads : s.heads = p.heads
  headTensors : Reads vs p.headTensors s.headTensors

/-- A layer that reads one other layer looks it up first. -/
theorem referenced_eq_ok {r : Outcome (Nat × TensorId)} {text : Nat × TensorId → String}
    {label : String} (m : TensorId → Emit TensorId) {t : TensorId}
    (h : (do
      let found ← Emit.lift r
      return (text found, ← m found.2) : Emit (String × TensorId)) d = .ok (label, t) d') :
    ∃ index source, r = .ok (index, source) ∧ m source d = .ok t d' := by
  obtain ⟨⟨index, source⟩, _, hlift, h⟩ := Emit.bind_eq_ok.mp h
  obtain ⟨hfound, rfl⟩ := Emit.lift_eq_ok.mp hlift
  exact ⟨index, source, hfound, labelled_eq_ok h⟩

/-- **One layer** leaves a tensor whose value is what the interpreter makes of the layer. -/
theorem layer_value (hG : G.Finished feeds vs) (hs : Follows weights vs p d s) {label : String}
    {t : TensorId} (h : layer all p l d = .ok (label, t) d')
    (hstart : d.graph.Within G) (hfront : d'.graph.Within G) :
    ∃ v, Interpreter.layer s (d.slice d') l.kind = some v ∧ vs[t]? = some v := by
  unfold layer at h
  have hcurrent := hs.current
  cases hkind : l.kind with
  | convolution c | deconvolution c =>
    rw [hkind] at h
    exact Emit.convolution_value hG hcurrent (labelled_eq_ok h) hfront
  | normalization a =>
    rw [hkind] at h
    exact Emit.normalization_value hG hcurrent (labelled_eq_ok h) hfront
  | implicit filters =>
    rw [hkind] at h
    exact Emit.implicit_value hG (labelled_eq_ok h) hfront
  | shiftChannels source =>
    rw [hkind] at h
    obtain ⟨index, t₀, hlookup, ht⟩ := referenced_eq_ok (Emit.sum p.previous) h
    obtain ⟨y, hy, hvalue⟩ := hs.earlier.lookup_value (lookupImplicit_eq_ok hlookup)
    rw [Interpreter.layer, hy]
    exact Emit.combination_computes hG hcurrent hvalue .sum _ _ _ ht hstart hfront
  | controlChannels source =>
    rw [hkind] at h
    obtain ⟨index, t₀, hlookup, ht⟩ := referenced_eq_ok (Emit.product p.previous) h
    obtain ⟨y, hy, hvalue⟩ := hs.earlier.lookup_value (lookupImplicit_eq_ok hlookup)
    rw [Interpreter.layer, hy]
    exact Emit.combination_computes hG hcurrent hvalue .product _ _ _ ht hstart hfront
  | shortcut source a =>
    rw [hkind] at h
    obtain ⟨index, t₀, hlookup, ht⟩ := referenced_eq_ok (Emit.shortcut p.previous · a) h
    obtain ⟨y, hy, hvalue⟩ := hs.earlier.lookup_value hlookup
    rw [Interpreter.layer, hy]
    exact Emit.shortcut_computes hG hcurrent hvalue a _ _ _ ht hstart hfront
  | sam source a =>
    rw [hkind] at h
    obtain ⟨index, t₀, hlookup, ht⟩ := referenced_eq_ok (Emit.sam p.previous · a) h
    obtain ⟨y, hy, hvalue⟩ := hs.earlier.lookup_value hlookup
    rw [Interpreter.layer, hy]
    exact Emit.sam_computes hG hcurrent hvalue a _ _ _ ht hstart hfront
  | route sources axis group =>
    rw [hkind] at h
    obtain ⟨found, _, hlift, h⟩ := Emit.bind_eq_ok.mp h
    obtain ⟨hlookups, rfl⟩ := Emit.lift_eq_ok.mp hlift
    obtain ⟨ys, hys, hvalues⟩ := hs.earlier.lookups_value hlookups
    rw [Interpreter.layer, hys]
    exact Emit.route_computes hG hvalues axis group l.block _ _ _ (labelled_eq_ok h) hstart hfront
  | upsample stride =>
    rw [hkind] at h
    exact Emit.upsample_computes hG hcurrent stride _ _ _ (labelled_eq_ok h) hstart hfront
  | maxPool size stride =>
    rw [hkind] at h
    exact Emit.maxPool_computes hG hcurrent size stride _ _ _ (labelled_eq_ok h) hstart hfront
  | averagePool =>
    rw [hkind] at h
    exact Emit.averagePool_computes hG hcurrent _ _ _ (labelled_eq_ok h) hstart hfront
  | reorg3d =>
    rw [hkind] at h
    exact Emit.reorg3d_computes hG hcurrent l.block _ _ _ (labelled_eq_ok h) hstart hfront
  | reorg stride =>
    rw [hkind] at h
    exact Emit.reorg_computes hG hcurrent stride l.block _ _ _ (labelled_eq_ok h) hstart hfront
  | head kind place =>
    rw [hkind] at h
    obtain ⟨hlabel, rfl⟩ := Emit.pure_eq_ok.mp h
    obtain ⟨-, rfl⟩ := Prod.mk.inj hlabel
    exact ⟨s.current, rfl, hcurrent⟩
  | dropout =>
    rw [hkind] at h
    obtain ⟨hlabel, rfl⟩ := Emit.pure_eq_ok.mp h
    obtain ⟨-, rfl⟩ := Prod.mk.inj hlabel
    exact ⟨s.current, rfl, hcurrent⟩

/-! ## The pass -/

/-- The weights that the interpreter reads for a layer are those that the layer has taken. -/
theorem Follows.slice (hs : Follows weights vs p d s) {kind : LayerKind} {channels : Nat}
    (howned : d.Owned kind channels d') :
    s.slice? weights (kind.weightCount channels) = some (d.slice d') := by
  have hend := howned.position
  have hle := d'.cursor.position_le
  rw [howned.weights, hs.weights, hend, ← hs.taken] at hle
  rw [Interpreter.State.slice?, if_pos hle, Draft.slice, hs.weights, hend, hs.taken]

/-- A head is placed in the same way by both. -/
theorem Follows.place (hs : Follows weights vs p d s) {kind : HeadKind} {place block : Nat}
    {source : Shape} {n : Shape.Nchw} {heads : List Head} (hsource : s.current.dims = source.dims)
    (hn : source.nchw = .ok n) (h : placeHead p.heads kind place block n = .ok heads) :
    ∃ head, s.heads[place]? = some head ∧
      heads = s.heads.set place
        { head with gridWidth := s.current.extent 3, gridHeight := s.current.extent 2 } := by
  have hdims := hsource.trans (Shape.nchw_eq_ok.mp hn)
  obtain ⟨head, hhead, -, rfl⟩ := placeHead_eq_ok h
  rw [hs.heads]
  exact ⟨head, hhead, by simp [Tensor.extent, hdims]⟩

/-- The interpreter's step of a layer that is no head. -/
theorem interpreter_step_of_isHead {kind : LayerKind} (hkind : kind.isHead = false)
    {slice : Array Scalar} {v : Tensor}
    (hslice : s.slice? weights (kind.weightCount (s.current.extent 1)) = some slice)
    (hv : Interpreter.layer s slice kind = some v) :
    Interpreter.step weights s kind = some { s with
      earlier := s.earlier ++ [v]
      current := v
      taken := s.taken + kind.weightCount (s.current.extent 1) } := by
  unfold Interpreter.step
  dsimp only
  rw [hslice, Option.bind_eq_bind, Option.bind_some, hv]
  cases kind with
  | head => cases hkind
  | _ => rfl

/-- A layer that emits a tensor keeps the two together. -/
theorem Follows.layer (hs : Follows weights vs p d s) {channels : Nat} {v : Tensor}
    (howned : d.Owned l.kind channels d') (hchannels : channels = s.current.extent 1)
    (hvalue : vs[p'.previous]? = some v) (houtputs : p'.outputs = p.outputs.push p'.previous)
    (hheads : p'.heads = p.heads) (htensors : p'.headTensors = p.headTensors) :
    Follows weights vs p' d' { s with
      earlier := s.earlier ++ [v]
      current := v
      taken := s.taken + l.kind.weightCount (s.current.extent 1) } where
  earlier := houtputs ▸ List.rel_append hs.earlier (.cons hvalue .nil)
  current := hvalue
  weights := howned.weights.trans hs.weights
  taken := by rw [howned.position, hchannels, hs.taken]
  heads := hs.heads.trans hheads.symm
  headTensors := htensors ▸ hs.headTensors

/-- **One step** keeps the two together. -/
theorem step_follows (hG : G.Finished feeds vs) (hs : Follows weights vs p d s)
    (h : step all p l d = .ok p' d') (hfront : d'.graph.Within G) :
    ∃ s', Interpreter.step weights s l.kind = some s' ∧ Follows weights vs p' d' s' := by
  have hstart := (step_extends p l _ _ _ h).within.trans hfront
  obtain ⟨row, -, -, ⟨source, hsource, hinput⟩, howned⟩ := step_owns h
  obtain ⟨source', _, hsource', -, -, -, hlayer⟩ := step_eq_ok h
  obtain rfl := Except.ok.inj (hsource.symm.trans hsource')
  obtain ⟨shape, hshape, hdims⟩ := hG.valued.shapeOf hs.current
  rw [hstart.shapeOf hsource] at hshape
  obtain rfl := Except.ok.inj hshape
  have hchannels : channelsOf row.input = s.current.extent 1 := by
    rw [hinput, ← hdims]
    rfl
  rcases hlayer with ⟨kind, place, n, hkind, hn, hplace, rfl, houtputs, hprevious, htensors⟩ |
    ⟨hkind, label, hlayer, houtputs, hheads, htensors⟩
  · obtain ⟨head, hhead, hplaced⟩ := hs.place hdims hn hplace
    have hslice : s.slice? weights 0 = some (d'.slice d') := by
      have := hs.slice howned
      rwa [hkind] at this
    refine ⟨{ s with
      earlier := s.earlier ++ [s.current]
      heads := p'.heads
      headTensors := s.headTensors ++ [s.current] }, ?_, ?_⟩
    · rw [hkind, hplaced]
      simp [Interpreter.step, LayerKind.weightCount, hslice, Interpreter.layer,
        Interpreter.State.place, hhead]
    · exact ⟨houtputs ▸ List.rel_append hs.earlier (.cons hs.current .nil),
        hprevious ▸ hs.current, hs.weights, hs.taken, rfl,
        htensors ▸ List.rel_append hs.headTensors (.cons hs.current .nil)⟩
  · have hslice := hs.slice howned
    rw [hchannels] at hslice
    obtain ⟨v, hv, hvalue⟩ := layer_value hG hs hlayer hstart hfront
    exact ⟨_, interpreter_step_of_isHead hkind hslice hv,
      hs.layer howned hchannels hvalue houtputs hheads htensors⟩

/-- **The pass** over some layers keeps the two together. -/
theorem pass_follows (hG : G.Finished feeds vs) {layers : List Layer}
    (hs : Follows weights vs p d s) (h : pass all p layers d = .ok p' d')
    (hfront : d'.graph.Within G) :
    ∃ s', layers.foldlM (fun s l => Interpreter.step weights s l.kind) s = some s' ∧
      Follows weights vs p' d' s' := by
  induction layers generalizing p d s with
  | nil =>
    obtain ⟨rfl, rfl⟩ := Emit.pure_eq_ok.mp h
    exact ⟨s, rfl, hs⟩
  | cons l rest ih =>
    obtain ⟨p₁, d₁, hstep, hrest⟩ := Emit.bind_eq_ok.mp h
    have hmiddle := (pass_extends rest p₁ _ _ _ hrest).within.trans hfront
    obtain ⟨s₁, hs₁, hfollows⟩ := step_follows hG hs hstep hmiddle
    obtain ⟨s', hs', hlast⟩ := ih hfollows hrest
    exact ⟨s', by rw [List.foldlM_cons, hs₁]; exact hs', hlast⟩

end Build

end GridNet
