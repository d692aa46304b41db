import GridNet.Proofs.Reached

/-!
# References between layers

A layer may read what earlier layers left behind, by the number of the layer or by counting
backwards from itself. The pass keeps one tensor for each layer it has gone over, whatever the
layer's kind, so both ways of counting stay in step with the numbers of the layers.

* `Refers` — which layer a reference stands for.
* `LayerOutputs.lookup_eq_ok_iff`, `LayerOutputs.lookup_eq_error` — what a look-up finds.
* `Build.network_absolute` — counting from the front instead of backwards changes nothing.
* `Build.step_missing` — the first reference to no layer ends the construction.
* `Build.references_resolved` — all of this for a whole network, and its table of layers.
-/

namespace GridNet

/-! ## What a reference stands for -/

/-- Reference `r` of layer `i` **stands for** layer `j`: by its number, or counted backwards. -/
def Refers (i : Nat) (r : Int) (j : Nat) : Prop :=
  (0 ≤ r ∧ r < i ∧ (j : Int) = r) ∨ (-(i : Int) ≤ r ∧ r < 0 ∧ (j : Int) = i + r)

/-- A reference is to an earlier layer. -/
theorem Refers.lt {i j : Nat} {r : Int} (h : Refers i r j) : j < i := by
  rcases h with ⟨_, _, _⟩ | ⟨_, _, _⟩ <;> omega

namespace LayerOutputs

variable {o : LayerOutputs} {r : Int} {block j : Nat} {t : TensorId}

theorem resolve_eq_ok_iff : o.resolve r block = .ok j ↔ Refers o.size r j := by
  unfold resolve Refers
  dsimp only
  by_cases hr : r < 0
  · rw [if_pos hr]
    constructor
    · intro h
      split at h
      · have hj := Except.ok.inj h
        omega
      · cases h
    · rintro (h | ⟨hlow, -, hj⟩)
      · omega
      · rw [if_pos (by omega)]
        congr 1
        omega
  · rw [if_neg hr]
    constructor
    · intro h
      split at h
      · have hj := Except.ok.inj h
        omega
      · cases h
    · rintro (⟨hlow, hhigh, hj⟩ | h)
      · rw [if_pos ⟨hlow, hhigh⟩]
        congr 1
        omega
      · omega

/-- **A look-up** finds the layer that the reference stands for, and its tensor. -/
theorem lookup_eq_ok_iff :
    o.lookup r block = .ok (j, t) ↔ Refers o.size r j ∧ o.get? j = some t := by
  simp only [lookup, Outcome.bind_eq_ok, resolve_eq_ok_iff]
  constructor
  · rintro ⟨i, hi, h⟩
    split at h
    · next t' ht =>
      obtain ⟨rfl, rfl⟩ := Prod.mk.inj (Outcome.pure_eq_ok.mp h)
      exact ⟨hi, ht⟩
    · cases h
  · rintro ⟨hj, ht⟩
    refine ⟨j, hj, ?_⟩
    rw [ht]
    rfl

/-- A reference that stands for a layer is found. -/
theorem lookup_total (h : Refers o.size r j) (block : Nat) :
    ∃ t, o.lookup r block = .ok (j, t) := by
  have hlt : j < o.tensors.length := h.lt
  exact ⟨o.tensors[j], lookup_eq_ok_iff.mpr ⟨h, List.getElem?_eq_getElem hlt⟩⟩

/-- A reference that stands for **no layer** is reported with what there is. -/
theorem lookup_eq_error (h : ∀ j, ¬ Refers o.size r j) (block : Nat) :
    o.lookup r block = .error (.ofDefect (.referenceOutOfRange block r o.size)) := by
  have hresolve : o.resolve r block = .error (.ofDefect (.referenceOutOfRange block r o.size)) := by
    have hnone := h (if r < 0 then (o.size : Int) + r else r).toNat
    unfold Refers at hnone
    unfold resolve
    dsimp only
    rw [if_neg]
    split at hnone <;> omega
  rw [lookup, hresolve]
  rfl

end LayerOutputs

/-! ## Counting from the front -/

/-- A reference of layer `i`, counted from the front if it leads backwards to a layer. -/
def absoluteReference (i : Nat) (r : Int) : Int := if r < 0 ∧ 0 ≤ i + r then i + r else r

theorem refers_absoluteReference {i j : Nat} {r : Int} :
    Refers i (absoluteReference i r) j ↔ Refers i r j := by
  unfold Refers absoluteReference
  split <;> omega

namespace LayerKind

/-- The references of a layer, in the order in which they are looked up. -/
def references : LayerKind → List Int
  | shiftChannels source => [source]
  | controlChannels source => [source]
  | shortcut source _ => [source]
  | sam source _ => [source]
  | route sources _ _ => sources
  | _ => []

/-- The same layer with other references. -/
def mapReferences (f : Int → Int) : LayerKind → LayerKind
  | shiftChannels source => shiftChannels (f source)
  | controlChannels source => controlChannels (f source)
  | shortcut source a => shortcut (f source) a
  | sam source a => sam (f source) a
  | route sources axis group => route (sources.map f) axis group
  | kind => kind

@[simp] theorem isHead_mapReferences (f : Int → Int) (k : LayerKind) :
    (k.mapReferences f).isHead = k.isHead := by
  cases k <;> rfl

end LayerKind

/-- The layer at place `i` with its references counted from the front. -/
def Layer.absolute (i : Nat) (l : Layer) : Layer :=
  { l with kind := l.kind.mapReferences (absoluteReference i) }

@[simp] theorem Layer.absolute_index (i : Nat) (l : Layer) : (l.absolute i).index = l.index := rfl

/-- The blueprint with **all references counted from the front** that lead backwards to a layer. -/
def Blueprint.absolute (b : Blueprint) : Blueprint :=
  { b with layers := b.layers.mapIdx Layer.absolute }

theorem Blueprint.headLayerCount_absolute (b : Blueprint) :
    b.absolute.headLayerCount = b.headLayerCount := by
  have hfilter : ∀ (layers : List Layer) (n : Nat),
      ((layers.mapIdx fun i => Layer.absolute (i + n)).filter (·.kind.isHead)).length =
        (layers.filter (·.kind.isHead)).length := by
    intro layers
    induction layers with
    | nil => intro n; rfl
    | cons l rest ih =>
      intro n
      have hrest := ih (n + 1)
      simp only [List.mapIdx_cons, List.filter_cons, Layer.absolute,
        LayerKind.isHead_mapReferences] at hrest ⊢
      split <;> simpa [Nat.add_assoc, Nat.add_comm 1 n] using hrest
  exact hfilter b.layers 0

namespace Build

open Emit

variable {all : List Layer} {p p' : Progress} {l : Layer} {d d' : Draft} {b : Blueprint}
  {weights : WeightBuffer}

theorem isImplicit_absolute (index : Nat) :
    isImplicit (all.mapIdx Layer.absolute) index = isImplicit all index := by
  unfold isImplicit
  rw [List.getElem?_mapIdx]
  rcases all[index]? with _ | ⟨i, kind⟩
  · rfl
  · cases kind <;> rfl

theorem lookupImplicit_eq_ok_iff {o : LayerOutputs} {kind : LayerKind} {r : Int} {block : Nat}
    {x : Nat × TensorId} : lookupImplicit all o kind r block = .ok x ↔
      o.lookup r block = .ok x ∧ isImplicit all x.1 = true := by
  simp only [lookupImplicit, Outcome.bind_eq_ok]
  constructor
  · rintro ⟨found, hfound, h⟩
    split at h
    · next himplicit =>
      obtain rfl := Outcome.pure_eq_ok.mp h
      exact ⟨hfound, himplicit⟩
    · cases h
  · rintro ⟨hfound, himplicit⟩
    refine ⟨x, hfound, ?_⟩
    rw [if_pos himplicit]
    rfl

/-- A look-up that fails is the failure of the layer that asked for an implicit one. -/
theorem lookupImplicit_eq_error {o : LayerOutputs} {kind : LayerKind} {r : Int} {block : Nat}
    {e : Failure} (h : o.lookup r block = .error e) :
    lookupImplicit all o kind r block = .error e := by
  rw [lookupImplicit, h]
  rfl

theorem lookup_absolute (o : LayerOutputs) (r : Int) (block : Nat) :
    o.lookup (absoluteReference o.size r) block = o.lookup r block := by
  by_cases h : r < 0 ∧ 0 ≤ (o.size : Int) + r
  · have hj : Refers o.size r ((o.size : Int) + r).toNat := .inr ⟨by omega, h.1, by omega⟩
    obtain ⟨t, ht⟩ := LayerOutputs.lookup_total hj block
    rw [ht]
    obtain ⟨hrefers, hget⟩ := LayerOutputs.lookup_eq_ok_iff.mp ht
    exact LayerOutputs.lookup_eq_ok_iff.mpr ⟨refers_absoluteReference.mpr hrefers, hget⟩
  · rw [absoluteReference, if_neg h]

/-- A layer that reads one other layer hangs on the look-up only where that succeeds. -/
theorem referenced_congr {r r' : Outcome (Nat × TensorId)} {text : Nat × TensorId → String}
    {m : TensorId → Emit TensorId} {x : String × TensorId}
    (h : ∀ found, r = .ok found ↔ r' = .ok found) :
    (do let found ← Emit.lift r; return (text found, ← m found.2) : Emit (String × TensorId)) d =
        .ok x d' ↔
      (do let found ← Emit.lift r'; return (text found, ← m found.2) : Emit (String × TensorId)) d =
        .ok x d' := by
  simp only [bind_eq_ok, lift_eq_ok, h]

/-- **One layer** is the same with its references counted from the front. -/
theorem layer_absolute {x : String × TensorId} :
    layer (all.mapIdx Layer.absolute) p (l.absolute p.outputs.size) d = .ok x d' ↔
      layer all p l d = .ok x d' := by
  have himplicit : ∀ (kind kind' : LayerKind) (source : Int) (found : Nat × TensorId),
      lookupImplicit (all.mapIdx Layer.absolute) p.outputs kind'
          (absoluteReference p.outputs.size source) l.block = .ok found ↔
        lookupImplicit all p.outputs kind source l.block = .ok found := by
    intro kind kind' source found
    rw [lookupImplicit_eq_ok_iff, lookupImplicit_eq_ok_iff, lookup_absolute, isImplicit_absolute]
  obtain ⟨index, kind⟩ := l
  cases kind with
  | shiftChannels source | controlChannels source => exact referenced_congr (himplicit _ _ source)
  | shortcut source a | sam source a =>
    simp only [layer, Layer.absolute, LayerKind.mapReferences, Layer.block, lookup_absolute]
  | route sources axis group =>
    have hlookups : (sources.map (absoluteReference p.outputs.size)).mapM
          (fun source => p.outputs.lookup source (index + 1)) =
        sources.mapM fun source => p.outputs.lookup source (index + 1) := by
      rw [List.mapM_map]
      simp only [Function.comp_def, lookup_absolute]
    simp only [layer, Layer.absolute, LayerKind.mapReferences, Layer.block, hlookups]
  | _ => rfl

theorem step_absolute :
    step (all.mapIdx Layer.absolute) p (l.absolute p.outputs.size) d = .ok p' d' ↔
      step all p l d = .ok p' d' := by
  rcases hl : l.kind.isHead with _ | _
  · have hl' : (l.absolute p.outputs.size).kind.isHead = false := by simpa [Layer.absolute] using hl
    simp only [step_of_isHead hl, step_of_isHead hl', bind_eq_ok, layer_absolute,
      Layer.absolute_index]
  · -- a head has no reference, and asks nothing of the other layers
    obtain ⟨index, kind⟩ := l
    cases kind with
    | head => rfl
    | _ => cases hl

theorem pass_absolute (layers : List Layer) :
    pass (all.mapIdx Layer.absolute) p
        (layers.mapIdx fun i => Layer.absolute (i + p.outputs.size)) d = .ok p' d' ↔
      pass all p layers d = .ok p' d' := by
  induction layers generalizing p d with
  | nil => rfl
  | cons l rest ih =>
    have hrest : ∀ q : Progress, q.outputs.size = p.outputs.size + 1 →
        (rest.mapIdx fun i => Layer.absolute (i + 1 + p.outputs.size)) =
          rest.mapIdx fun i => Layer.absolute (i + q.outputs.size) := by
      intro q hq
      rw [hq]
      congr 1
      funext i
      rw [Nat.add_assoc, Nat.add_comm 1]
    rw [List.mapIdx_cons, Nat.zero_add, pass, pass, bind_eq_ok, bind_eq_ok]
    refine exists_congr fun q => exists_congr fun e => ?_
    rw [step_absolute]
    refine and_congr_right fun hstep => ?_
    obtain ⟨-, -, -, -, -, houtputs, -⟩ := step_adds hstep
    rw [hrest q (by rw [houtputs, LayerOutputs.size_push]), ih]

/-- **Counting from the front** instead of backwards builds the same network. -/
theorem network_absolute {built : BuiltNetwork} :
    network b.absolute d = .ok built d' ↔ network b d = .ok built d' := by
  have hpass : ∀ (p : Progress) (e : Draft) (q : Progress) (e' : Draft), p.outputs.size = 0 →
      (pass b.absolute.layers p b.absolute.layers e = .ok q e' ↔
        pass b.layers p b.layers e = .ok q e') := by
    intro p e q e' hp
    have h : pass b.absolute.layers p
          (b.layers.mapIdx fun i => Layer.absolute (i + p.outputs.size)) e = .ok q e' ↔
        pass b.layers p b.layers e = .ok q e' := pass_absolute b.layers
    rw [hp] at h
    exact h
  have hclose : ∀ input p, close b.absolute input p = close b input p := by
    intro input p
    unfold close
    rw [Blueprint.headLayerCount_absolute]
    rfl
  rw [network_eq_ok, network_eq_ok]
  simp only [body_eq_ok, hclose]
  simp only [Blueprint.absolute] at hpass ⊢
  refine exists_congr fun input => exists_congr fun q => exists_congr fun e' => ?_
  refine and_congr_left' (exists_congr fun shape => exists_congr fun e => ?_)
  exact and_congr_right' (and_congr_right' (hpass _ _ _ _ rfl))

/-! ## References to no layer -/

variable {before after : List Int} {r : Int}

theorem layer_missing (hrefs : l.kind.references = before ++ r :: after)
    (hbefore : ∀ s ∈ before, ∃ j, Refers p.outputs.size s j)
    (hr : ∀ j, ¬ Refers p.outputs.size r j) :
    layer all p l d = .error (.ofDefect (.referenceOutOfRange l.block r p.outputs.size)) d := by
  have hmissing := LayerOutputs.lookup_eq_error hr l.block
  have hsingle : ∀ source, [source] = before ++ r :: after → source = r := by
    intro source hsource
    rcases before with _ | ⟨first, rest⟩
    · exact (List.cons.inj hsource).1
    · exact absurd (List.cons.inj hsource).2 (by simp)
  obtain ⟨index, kind⟩ := l
  cases kind with
  | shiftChannels source | controlChannels source =>
    obtain rfl := hsingle source hrefs
    exact bind_eq_error.mpr (.inl (lift_eq_error (lookupImplicit_eq_error hmissing)))
  | shortcut source a | sam source a =>
    obtain rfl := hsingle source hrefs
    exact bind_eq_error.mpr (.inl (lift_eq_error hmissing))
  | route sources axis group =>
    obtain rfl : sources = before ++ r :: after := hrefs
    refine bind_eq_error.mpr (.inl
      (lift_eq_error (Outcome.mapM_eq_error (fun s hs => ?_) hmissing)))
    obtain ⟨j, hj⟩ := hbefore s hs
    obtain ⟨t, ht⟩ := LayerOutputs.lookup_total hj (index + 1)
    exact ⟨(j, t), ht⟩
  | _ => simp [LayerKind.references] at hrefs

/-- **The first reference to no layer** ends the step, with the number of the block, the reference
and how many layers there are. -/
theorem step_missing {source : Shape} (hsource : d.graph.shapeOf p.previous = .ok source)
    (hrefs : l.kind.references = before ++ r :: after)
    (hbefore : ∀ s ∈ before, ∃ j, Refers p.outputs.size s j)
    (hr : ∀ j, ¬ Refers p.outputs.size r j) :
    step all p l d = .error (.ofDefect (.referenceOutOfRange l.block r p.outputs.size)) d := by
  have hl : l.kind.isHead = false := by
    cases hkind : l.kind <;> first | rfl | simp [hkind, LayerKind.references] at hrefs
  rw [step_of_isHead hl]
  refine bind_eq_error.mpr (.inr ⟨source, d, query_eq_ok.mpr ⟨hsource, rfl⟩, ?_⟩)
  exact bind_eq_error.mpr (.inl (layer_missing hrefs hbefore hr))

/-! ## Whole networks -/

namespace Held

variable {i : Nat}

/-- In front of layer `i`, a reference finds the tensor that the layer it stands for left. -/
theorem lookup (h : Held b weights i p d) {j : Nat} (hj : Refers i r j) (block : Nat) :
    ∃ t, p.outputs.lookup r block = .ok (j, t) ∧ Leaves b weights j t := by
  rw [← h.size] at hj
  obtain ⟨t, ht⟩ := LayerOutputs.lookup_total hj block
  refine ⟨t, ht, ?_⟩
  obtain ⟨hlt, htensor⟩ := List.getElem?_eq_some_iff.mp (LayerOutputs.lookup_eq_ok_iff.mp ht).2
  have hlt' : j < (List.range i).length := h.tensors.length_eq ▸ hlt
  have hleaves := (List.forall₂_iff_get.mp h.tensors).2 j hlt' hlt
  rwa [List.get_eq_getElem, List.get_eq_getElem, List.getElem_range, htensor] at hleaves

/-- A network stops at the first reference of layer `i` that stands for no layer. -/
theorem network_missing (h : Held b weights i p d)
    (hreach : reach b i { cursor := .start weights } = .ok p d) (hl : b.layers[i]? = some l)
    (hrefs : l.kind.references = before ++ r :: after) (hbefore : ∀ s ∈ before, ∃ j, Refers i s j)
    (hr : ∀ j, ¬ Refers i r j) :
    network b { cursor := .start weights } =
      .error (.ofDefect (.referenceOutOfRange l.block r i)) d := by
  obtain ⟨source, hsource, -⟩ := h.chained
  have hsize := h.size
  subst hsize
  exact network_of_stuck hreach hl (step_missing hsource hrefs hbefore hr)

/-- A layer that is built **refers to earlier layers** only. -/
theorem refers_of_step (h : Held b weights i p d)
    (hreach : reach b i { cursor := .start weights } = .ok p d) (hl : b.layers[i]? = some l)
    (hstep : Build.step b.layers p l d = .ok p' d') :
    ∀ r ∈ l.kind.references, ∃ j, Refers i r j := by
  classical
  by_contra hnone
  have hsome : (l.kind.references.find? fun r => ¬ ∃ j, Refers i r j).isSome := by
    simpa using hnone
  obtain ⟨r, hfirst⟩ := Option.isSome_iff_exists.mp hsome
  obtain ⟨hr, before, after, hrefs, hbefore⟩ := List.find?_eq_some_iff_append.mp hfirst
  obtain ⟨source, hsource, -⟩ := h.chained
  have hsize := h.size
  subst hsize
  have hstuck : Build.step b.layers p l d = .error _ d :=
    step_missing hsource hrefs (fun s hs => by simpa using hbefore s hs)
      (fun j hj => of_decide_eq_true hr ⟨j, hj⟩)
  rw [hstuck] at hstep
  cases hstep

end Held

/-- The layers that are read from blocks are numbered in the order of the blocks. -/
theorem index_of_layersOf {readings : List Blueprint.Reading} {index place i : Nat}
    (hl : (Blueprint.layersOf index place readings)[i]? = some l) : l.index = index + i := by
  induction readings generalizing index place i with
  | nil => cases hl
  | cons reading rest ih =>
    cases i with
    | zero => cases reading <;> cases hl <;> rfl
    | succ i =>
      cases reading <;> rw [ih hl, Nat.add_assoc, Nat.add_comm 1]

/-- **References follow the numbers of the layers.** In front of layer `i` the pass holds exactly
what the layers before it left, so a reference finds the layer that it stands for, and the first one
that stands for no layer ends the construction with the number of the block, the reference and `i`.
A network that is built has references to earlier layers only; counting some of them from the front
instead of backwards, or the other way round, builds the same network and the same graph. Its table
has one row for each layer: the first begins with the extents of the input, and each other one with
those that the row above ends with. -/
theorem references_resolved (b : Blueprint) (weights : WeightBuffer) :
    (∀ i p d, i ≤ b.layers.length → reach b i { cursor := .start weights } = .ok p d →
      List.Forall₂ (Leaves b weights) (List.range i) p.outputs.tensors ∧
      (∀ r j block, Refers i r j →
        ∃ t, p.outputs.lookup r block = .ok (j, t) ∧ Leaves b weights j t) ∧
      ∀ l before r after, b.layers[i]? = some l → l.kind.references = before ++ r :: after →
        (∀ s ∈ before, ∃ j, Refers i s j) → (∀ j, ¬ Refers i r j) →
        network b { cursor := .start weights } =
          .error (.ofDefect (.referenceOutOfRange l.block r i)) d) ∧
    (∀ built d, network b { cursor := .start weights } = .ok built d →
      (∀ i l, b.layers[i]? = some l →
        (∃ p e, reach b i { cursor := .start weights } = .ok p e) ∧
        ∀ r ∈ l.kind.references, ∃ j < i, Refers i r j) ∧
      (∀ b' : Blueprint, b'.absolute = b.absolute →
        network b' { cursor := .start weights } = .ok built d) ∧
      built.table.map (·.index) = b.layers.map (·.index) ∧
      built.table.map (·.input) =
        ([b.input.batch, b.input.channels, b.input.height, b.input.width] ::
          built.table.map (·.output)).dropLast) ∧
    ∀ blocks name b₀, Blueprint.ofBlocks blocks name = .ok b₀ → b.layers = b₀.layers →
      ∀ i l, b.layers[i]? = some l → l.index = i ∧ l.block = i + 1 := by
  refine ⟨fun i p d hi hreach => ?_, fun built d hbuilt => ?_, ?_⟩
  · have hheld := reach_held hi hreach
    exact ⟨hheld.tensors, fun r j block hj => hheld.lookup hj block,
      fun l before r after hl hrefs hbefore hr =>
        hheld.network_missing hreach hl hrefs hbefore hr⟩
  · refine ⟨fun i l hl => ?_, fun b' hb' => ?_, ?_⟩
    · obtain ⟨p, e, p', e', hreach, hstep, -⟩ := reach_of_network hbuilt hl
      have hi : i < b.layers.length := (List.getElem?_eq_some_iff.mp hl).1
      have hheld := reach_held (Nat.le_of_lt hi) hreach
      refine ⟨⟨p, e, hreach⟩, fun r hr => ?_⟩
      obtain ⟨j, hj⟩ := hheld.refers_of_step hreach hl hstep r hr
      exact ⟨j, hj.lt, hj⟩
    · rw [← network_absolute] at hbuilt ⊢
      rwa [hb']
    · obtain ⟨input, p, d₁, hbody, -, hclose⟩ := network_eq_ok.mp hbuilt
      obtain ⟨-, -, htable, -⟩ := close_eq_ok hclose
      have hheld := reach_held (Nat.le_refl _) (body_eq_ok_reach hbody)
      obtain ⟨current, -, hchained⟩ := hheld.chained
      rw [htable, ← hchained, List.dropLast_concat]
      exact ⟨by rw [hheld.rows, List.take_length], rfl⟩
  · intro blocks name b₀ hblocks hlayers i l hl
    obtain ⟨_, _, readings, -, -, -, -, hread, -⟩ := Blueprint.ofBlocks_eq_ok hblocks
    rw [hlayers, hread] at hl
    have hindex : l.index = i := by rw [index_of_layersOf hl, Nat.zero_add]
    exact ⟨hindex, by rw [Layer.block, hindex]⟩

/-- Layers that pass on and combine what others left; the last one reads layer 2 and one
of your choice. -/
def relayBlueprint (source : Int) : Blueprint where
  name := "relay"
  input := { width := 1, height := 1, channels := 1 }
  layers := [⟨0, .dropout⟩, ⟨1, .route [-1] 0 none⟩, ⟨2, .shortcut (-3 + 1) .linear⟩,
    ⟨3, .route [2, source] 0 none⟩]
  heads := []
  classes := 0
  activatedHeads := false

theorem references_resolved_relayBlueprint :
    (∃ built d, network (relayBlueprint (-3)) { cursor := .start #[] } = .ok built d ∧
      network (relayBlueprint 0) { cursor := .start #[] } = .ok built d ∧
      built.table.map (·.input) = [[1, 1, 1, 1], [1, 1, 1, 1], [1, 1, 1, 1], [1, 1, 1, 1]]) ∧
    ∃ d, network (relayBlueprint 3) { cursor := .start #[] } =
      .error (.ofDefect (.referenceOutOfRange 4 3 3)) d := by
  constructor
  · have hfound : ((network (relayBlueprint (-3))).run' { cursor := .start #[] }).map
        (fun built => built.table.map (·.output)) =
          some [[1, 1, 1, 1], [1, 1, 1, 1], [1, 1, 1, 1], [1, 2, 1, 1]] := by
      decide +kernel
    obtain ⟨built, hrun, houtputs⟩ := Option.map_eq_some_iff.mp hfound
    obtain ⟨d, hbuilt⟩ := Emit.eq_ok_of_run' hrun
    obtain ⟨-, hsame, -, hchained⟩ :=
      (references_resolved (relayBlueprint (-3)) #[]).2.1 built d hbuilt
    refine ⟨built, d, hbuilt, hsame (relayBlueprint 0) (by decide), ?_⟩
    rw [hchained, houtputs]
    rfl
  · obtain ⟨p, d, hreach⟩ : ∃ p d,
        reach (relayBlueprint 3) 3 { cursor := .start #[] } = .ok p d := ⟨_, _, rfl⟩
    obtain ⟨-, -, hstuck⟩ := (references_resolved (relayBlueprint 3) #[]).1 3 p d (by decide) hreach
    refine ⟨d, hstuck _ [2] 3 [] rfl rfl (fun s hs => ?_) fun j hj => ?_⟩
    · obtain rfl := List.mem_singleton.mp hs
      exact ⟨2, .inl ⟨by decide, by decide, rfl⟩⟩
    · rcases hj with ⟨-, hlt, -⟩ | ⟨-, hlt, -⟩
      · exact absurd hlt (by decide)
      · exact absurd hlt (by decide)

end Build

end GridNet
