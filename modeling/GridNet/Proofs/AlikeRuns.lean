import GridNet.Proofs.RunValues

/-!
# What a run can do hangs on extents only

Whether an operation finds what it reads hangs on the extents of its operands and not on their
elements, and so do the extents of its results. A graph that has a valuation for some values of its
inputs therefore has one for all values of the same extents.

* `Tensor.Alike`, `Feeds.Alike` — tensors of the same extents.
* `HeadDecoder.decode_alike`, `Operation.apply_alike` — single operations.
* `Graph.Valued.alike` — the whole graph.
-/

namespace GridNet

/-- Two folds succeed alike when each step does, whatever has been gathered. -/
theorem Outcome.foldlM_alike {α β γ : Type} {f : β → α → Outcome β}
    {f' : γ → α → Outcome γ} {xs : List α}
    (hstep : ∀ x ∈ xs, ∀ acc acc' next, f acc x = .ok next → ∃ next', f' acc' x = .ok next') :
    ∀ (acc : β) (acc' : γ) (last : β), xs.foldlM f acc = .ok last → ∃ last',
      xs.foldlM f' acc' = .ok last' := by
  induction xs with
  | nil =>
    intro _ acc' _ _
    exact ⟨acc', rfl⟩
  | cons x rest ih =>
    intro acc acc' last h
    rw [List.foldlM_cons] at h
    obtain ⟨next, hnext, hrest⟩ := Outcome.bind_eq_ok.mp h
    obtain ⟨next', hnext'⟩ := hstep x List.mem_cons_self acc acc' next hnext
    obtain ⟨last', hlast'⟩ :=
      ih (fun y hy => hstep y (List.mem_cons_of_mem _ hy)) next next' last hrest
    exact ⟨last', by rw [List.foldlM_cons, hnext']; exact hlast'⟩

/-! ## Tensors of the same extents -/

/-- Tensors that are **alike**, one by one: those of the second list have the extents of
the first. -/
def Tensor.Alike (ts ts' : List Tensor) : Prop := ts'.map (·.dims) = ts.map (·.dims)

/-- Values for the same inputs, of the same extents. -/
def Feeds.Alike (feeds feeds' : Feeds) : Prop :=
  ∀ name v, feeds.value? name = some v → ∃ v', feeds'.value? name = some v' ∧ v'.dims = v.dims

theorem Feeds.alike_singleton {t t' : Tensor} (name : String) (h : t'.dims = t.dims) :
    Feeds.Alike [(name, t)] [(name, t')] := by
  intro asked v hv
  obtain ⟨entry, hfound, rfl⟩ := Option.map_eq_some_iff.mp hv
  obtain rfl := List.mem_singleton.mp (List.mem_of_find?_eq_some hfound)
  have hname := List.find?_some hfound
  exact ⟨t', by simpa [Feeds.value?] using hname, h⟩

namespace Tensor

theorem extent_eq {t t' : Tensor} (h : t'.dims = t.dims) (axis : Nat) :
    t'.extent axis = t.extent axis := by
  rw [extent, extent, h]

theorem alike_singleton {t t' : Tensor} (h : t'.dims = t.dims) : Alike [t] [t'] :=
  congrArg (fun dims => [dims]) h

theorem Alike.forall₂ {ts ts' : List Tensor} (h : Alike ts ts') :
    List.Forall₂ (fun t t' => t'.dims = t.dims) ts ts' := by
  refine List.forall₂_iff_get.mpr ⟨by simpa using (congrArg List.length h).symm, fun i hi hi' => ?_⟩
  simpa [hi, hi'] using congrArg (·[i]?) h

theorem Alike.head_extent {ts ts' : List Tensor} (h : Alike ts ts') :
    (ts'.head?).map (·.extent 0) = (ts.head?).map (·.extent 0) := by
  cases h.forall₂ with
  | nil => rfl
  | cons hdims _ => simp [extent_eq hdims]

theorem Alike.operand {ts ts' : List Tensor} (h : Alike ts ts') {i : Nat} {t : Tensor}
    (ht : operand ts i = .ok t) : ∃ t', GridNet.operand ts' i = .ok t' ∧ t'.dims = t.dims := by
  unfold GridNet.operand at ht ⊢
  have hget := congrArg (·[i]?) h
  simp only [List.getElem?_map] at hget
  cases hsource : ts[i]? with
  | none =>
    rw [hsource] at ht
    cases ht
  | some u =>
    rw [hsource] at ht hget
    obtain rfl := Except.ok.inj ht
    obtain ⟨u', hu', hdims⟩ := Option.map_eq_some_iff.mp hget
    exact ⟨u', by rw [hu'], hdims⟩

end Tensor

/-! ## Decoding -/

namespace HeadDecoder

variable {d : HeadDecoder} {b : Nat}

theorem decodeSlot_alike {h : Head} {t t' : Tensor} (hdims : t'.dims = t.dims) {offset slot : Nat}
    {table next : Array DecodedRow} (hok : d.decodeSlot h t b offset slot table = .ok next)
    (table' : Array DecodedRow) : ∃ next', d.decodeSlot h t' b offset slot table' = .ok next' := by
  obtain ⟨anchor, hanchor, hchannels, hrows, -⟩ := decodeSlot_eq_ok.mp hok
  rw [← Tensor.extent_eq hdims] at hchannels
  exact ⟨_, decodeSlot_eq_ok.mpr ⟨anchor, hanchor, hchannels, hrows, rfl⟩⟩

/-- The heads of one image: whether there is room for them hangs on the extents of their tensors. -/
theorem decodeHeads_alike {ts ts' : List Tensor}
    (halike : List.Forall₂ (fun t t' => t'.dims = t.dims) ts ts') :
    ∀ (heads : List Head) (offset : Nat) (table table' last : Array DecodedRow),
      d.decodeHeads b offset (heads.zip ts) table = .ok last →
      ∃ last', d.decodeHeads b offset (heads.zip ts') table' = .ok last' := by
  induction halike with
  | nil =>
    intro heads _ _ table' _ _
    rw [List.zip_nil_right]
    exact ⟨table', rfl⟩
  | @cons t t' ts ts' hdims _ ih =>
    intro heads offset table table' last h
    cases heads with
    | nil => exact ⟨table', rfl⟩
    | cons head heads =>
      obtain ⟨stride, hstride, h⟩ := Outcome.bind_eq_ok.mp h
      obtain ⟨next, hslots, hrest⟩ := Outcome.bind_eq_ok.mp h
      have hslot : ∀ slot ∈ List.range head.boxes, ∀ acc acc' next,
          d.decodeSlot head t b offset slot acc = .ok next →
          ∃ next', d.decodeSlot head t' b offset slot acc' = .ok next' :=
        fun slot _ acc acc' next h => decodeSlot_alike hdims h acc'
      obtain ⟨next', hslots'⟩ := Outcome.foldlM_alike hslot table table' next hslots
      obtain ⟨last', hrest'⟩ := ih heads _ next next' last hrest
      exact ⟨last', Outcome.bind_eq_ok.mpr ⟨stride, hstride,
        Outcome.bind_eq_ok.mpr ⟨next', hslots', hrest'⟩⟩⟩

theorem decodeBatch_alike {inputs inputs' : List Tensor}
    (halike : Tensor.Alike inputs inputs') {batch : Nat}
    {table : Array DecodedRow} (h : d.decodeBatch batch inputs = .ok table) :
    ∃ table', d.decodeBatch batch inputs' = .ok table' := by
  refine Outcome.foldlM_alike (fun image _ acc acc' next himage => ?_) _ _ table h
  exact decodeHeads_alike halike.forall₂ d.heads _ acc acc' next himage

/-- **Head tensors of the same extents** are decoded alike. -/
theorem decode_alike {inputs inputs' : List Tensor} {r : DecodedHeads}
    (halike : Tensor.Alike inputs inputs') (h : d.decode inputs = .ok r) :
    ∃ r', d.decode inputs' = .ok r' ∧
      Tensor.Alike [r.boxes, r.scores, r.classes] [r'.boxes, r'.scores, r'.classes] := by
  obtain ⟨shapes, hshapes, h⟩ := Outcome.bind_eq_ok.mp h
  obtain ⟨results, hresults, h⟩ := Outcome.bind_eq_ok.mp h
  obtain ⟨table, htable, h⟩ := Outcome.bind_eq_ok.mp h
  obtain rfl := Outcome.pure_eq_ok.mp h
  have hextents : ∀ ts : List Tensor, ts.mapM (fun t => Shape.ofDims t.dims) =
      (ts.map (·.dims)).mapM Shape.ofDims := by
    intro ts
    rw [List.mapM_map]
    rfl
  have hshapes' : inputs'.mapM (fun t => Shape.ofDims t.dims) = .ok shapes := by
    rw [hextents, halike, ← hextents, hshapes]
  have hbatch : ((inputs'.head?).map (·.extent 0)).getD 1 =
      ((inputs.head?).map (·.extent 0)).getD 1 := by
    rw [halike.head_extent]
  obtain ⟨table', htable'⟩ := decodeBatch_alike halike htable
  rw [← hbatch] at htable'
  refine ⟨_, Outcome.bind_eq_ok.mpr ⟨shapes, hshapes', Outcome.bind_eq_ok.mpr ⟨results, hresults,
    Outcome.bind_eq_ok.mpr ⟨table', htable', rfl⟩⟩⟩, ?_⟩
  simp [Tensor.Alike, Tensor.ofFn, hbatch]

end HeadDecoder

/-! ## Operations -/

namespace Operation

variable {op : Operation} {feeds feeds' : Feeds} {operands operands' results : List Tensor}
  {dims : List Nat}

/-- An operation on one operand that first looks at the operand's extents. -/
theorem unary_alike {check : Tensor → Bool} {f : Tensor → Tensor}
    (halike : Tensor.Alike operands operands')
    (hcheck : ∀ t t' : Tensor, t'.dims = t.dims → check t' = check t)
    (hresult : ∀ t t' : Tensor, t'.dims = t.dims → (f t').dims = (f t).dims)
    (h : (do let t ← operand operands 0; demand (check t); return [f t] : Outcome (List Tensor)) =
      .ok results) :
    ∃ results', (do let t ← operand operands' 0; demand (check t); return [f t] :
      Outcome (List Tensor)) = .ok results' ∧ Tensor.Alike results results' := by
  simp only [Outcome.bind_eq_ok, Outcome.demand_eq_ok, Outcome.pure_eq_ok] at h ⊢
  obtain ⟨t, ht, _, hchecked, rfl⟩ := h
  obtain ⟨t', ht', hdims⟩ := halike.operand ht
  exact ⟨[f t'], ⟨t', ht', (), (hcheck t t' hdims).trans hchecked, rfl⟩,
    Tensor.alike_singleton (hresult t t' hdims)⟩

/-- **One node on operands of the same extents** succeeds alike, with results of the same
extents. -/
theorem apply_alike (hfeeds : feeds.Alike feeds') (halike : Tensor.Alike operands operands')
    (h : op.apply feeds operands dims = .ok results) :
    ∃ results', op.apply feeds' operands' dims = .ok results' ∧ Tensor.Alike results results' := by
  cases op with
  | input name =>
    simp only [apply] at h ⊢
    split at h
    · next v hv =>
      obtain rfl := Outcome.pure_eq_ok.mp h
      obtain ⟨v', hv', hdims⟩ := hfeeds name v hv
      rw [hv']
      exact ⟨[v'], rfl, Tensor.alike_singleton hdims⟩
    · cases h
  | convolution k =>
    simp only [apply] at h ⊢
    refine unary_alike halike (fun t t' hd => ?_) (fun t t' hd => ?_) h
    · rw [hd, Tensor.extent_eq hd]
    · simp [Tensor.convolve, Tensor.ofFn, Tensor.extent_eq hd]
  | scale m =>
    simp only [apply] at h ⊢
    refine unary_alike halike (fun t t' hd => ?_) (fun t t' hd => ?_) h
    · rw [hd]
    · exact hd
  | combine c =>
    simp only [apply, Outcome.bind_eq_ok] at h ⊢
    obtain ⟨x, hx, y, hy, h⟩ := h
    obtain ⟨x', hx', hdx⟩ := halike.operand hx
    obtain ⟨y', hy', hdy⟩ := halike.operand hy
    split at h
    · next common hcommon =>
      obtain rfl := Outcome.pure_eq_ok.mp h
      have hdims : ∀ u v : Tensor, (Tensor.broadcast c.apply common u v).dims = common :=
        fun _ _ => rfl
      refine ⟨[Tensor.broadcast c.apply common x' y'], ⟨x', hx', y', hy', ?_⟩,
        Tensor.alike_singleton ((hdims x' y').trans (hdims x y).symm)⟩
      rw [hdx, hdy, hcommon]
      rfl
    · cases h
  | activation p =>
    simp only [apply, Outcome.bind_eq_ok, Outcome.pure_eq_ok] at h ⊢
    obtain ⟨t, ht, rfl⟩ := h
    obtain ⟨t', ht', hdims⟩ := halike.operand ht
    exact ⟨[t'.map p.apply], ⟨t', ht', rfl⟩, Tensor.alike_singleton hdims⟩
  | constant values => exact ⟨results, h, rfl⟩
  | concat axis =>
    simp only [apply] at h ⊢
    rw [show operands'.map (·.dims) = operands.map (·.dims) from halike]
    split at h
    · next whole hwhole =>
      obtain rfl := Outcome.pure_eq_ok.mp h
      exact ⟨[Tensor.concat axis whole operands'], rfl, rfl⟩
    · cases h
  | slice w =>
    simp only [apply] at h ⊢
    refine unary_alike halike (fun t t' hd => ?_) (fun t t' hd => ?_) h
    · rw [hd]
    · rfl
  | resize scales =>
    simp only [apply] at h ⊢
    refine unary_alike halike (fun t t' hd => ?_) (fun t t' hd => ?_) h
    · rw [hd]
    · rfl
  | pool p =>
    simp only [apply] at h ⊢
    refine unary_alike halike (fun t t' hd => ?_) (fun t t' hd => ?_) h
    · rw [hd]
    · simp [Tensor.pool, Tensor.ofFn, Tensor.extent_eq hd]
  | reshape extents =>
    simp only [apply] at h ⊢
    refine unary_alike halike (fun t t' hd => ?_) (fun t t' hd => ?_) h
    · rw [hd]
    · rfl
  | transpose order =>
    simp only [apply] at h ⊢
    refine unary_alike halike (fun t t' hd => ?_) (fun t t' hd => ?_) h
    · rw [hd]
    · exact List.map_congr_left fun axis _ => Tensor.extent_eq hd axis
  | decode d =>
    simp only [apply, Outcome.bind_eq_ok, Outcome.pure_eq_ok] at h ⊢
    obtain ⟨r, hr, rfl⟩ := h
    obtain ⟨r', hr', hdims⟩ := HeadDecoder.decode_alike halike hr
    exact ⟨[r'.boxes, r'.scores, r'.classes], ⟨r', hr', rfl⟩, hdims⟩

end Operation

/-! ## Whole graphs -/

namespace Graph

variable {g : Graph} {feeds feeds' : Feeds} {before after : List Node} {node : Node}
  {vs vs' : List Tensor}

/-- What has been computed so far is read alike. -/
theorem ValuedTo.reads_alike (hv' : g.ValuedTo feeds' before vs') (hv : g.Valued feeds vs)
    {ids : List TensorId} {values : List Tensor} (hids : ∀ t ∈ ids, t < vs'.length)
    (h : Reads vs ids values) : ∃ values', Reads vs' ids values' ∧ Tensor.Alike values values' := by
  induction h with
  | nil => exact ⟨[], .nil, rfl⟩
  | @cons t v ids values hvalue _ ih =>
    obtain ⟨values', hvalues', halike⟩ := ih fun u hu => hids u (List.mem_cons_of_mem _ hu)
    have hvalue' := List.getElem?_eq_getElem (hids t List.mem_cons_self)
    have hdims := (hv'.spans t _ hvalue').unique (hv.shapeOf hvalue)
    exact ⟨_ :: values', .cons hvalue' hvalues', congrArg₂ List.cons hdims halike⟩

/-- **One node more**: it can be computed from the values so far, which have the extents that its
operands have in the other valuation. -/
theorem ValuedTo.step_alike (hv' : g.ValuedTo feeds' before vs') (hg : g.WellFormed)
    (hv : g.Valued feeds vs) (hfeeds : feeds.Alike feeds')
    (hnodes : g.nodes.toList = before ++ node :: after) :
    ∃ results', g.ValuedTo feeds' (before ++ [node]) (vs' ++ results') := by
  have hmem : node ∈ g.nodes.toList := by simp [hnodes]
  obtain ⟨operands, results, hoperands, hresults, happly⟩ := hv.computed node hmem
  have hinputs : ∀ t ∈ node.inputs, t < vs'.length := by
    intro t ht
    have hfront := hg.inputs before node after hnodes t ht
    rw [hg.front_eq hnodes] at hfront
    exact hv'.count ▸ List.mem_range.mp hfront
  obtain ⟨operands', hoperands', halike⟩ := hv'.reads_alike hv hinputs hoperands
  obtain ⟨results', happly', hdims⟩ := Operation.apply_alike hfeeds halike happly
  refine ⟨results', hv'.step hg hnodes hoperands' ?_ (fun v' hv' => ?_) ?_⟩
  · have hspans := List.forall₂_map_right_iff.mpr (hv.spans hresults)
    rw [← hdims] at hspans
    exact List.forall₂_map_right_iff.mp hspans
  · -- a result is as small as the one that it is like
    have hlike := List.mem_map_of_mem (f := (·.dims)) hv'
    rw [hdims] at hlike
    obtain ⟨v, hmem, hd⟩ := List.mem_map.mp hlike
    rw [v'.size_eq, ← hd, ← v.size_eq]
    exact hv.small v (hresults.mem v hmem)
  · rwa [← List.head?_map, hdims, List.head?_map]

/-- **A graph that runs on some inputs runs on all inputs of the same extents.** -/
theorem Valued.alike (hg : g.WellFormed) (hv : g.Valued feeds vs) (hfeeds : feeds.Alike feeds') :
    ∃ vs', g.Valued feeds' vs' := by
  have hfront : ∀ after before, g.nodes.toList = before ++ after →
      (∃ vs', g.ValuedTo feeds' before vs') → ∃ vs', g.ValuedTo feeds' (before ++ after) vs' := by
    intro after
    induction after with
    | nil =>
      intro before _ h
      rwa [List.append_nil]
    | cons node after ih =>
      rintro before hnodes ⟨vs', hv'⟩
      obtain ⟨results', hstep⟩ := hv'.step_alike hg hv hfeeds hnodes
      rw [show before ++ node :: after = before ++ [node] ++ after by simp] at hnodes ⊢
      exact ih _ hnodes ⟨_, hstep⟩
  obtain ⟨vs', hv'⟩ := hfront g.nodes.toList [] rfl ⟨[], .start⟩
  exact ⟨vs', hv'.valued hg⟩

end Graph

end GridNet
