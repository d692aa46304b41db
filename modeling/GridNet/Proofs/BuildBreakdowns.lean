import GridNet.Proofs.LayerBreakdowns
import GridNet.Proofs.WellFormedBlueprints

/-!
# Where a construction breaks down

The construction of a network fails for a cause at each check, at each missing weight and at each
reference that leads nowhere. It breaks down at a layer that is out of range, or at the decode node
if the rows of all heads together are no word.

* `Build.extents` — what a layer reads, as the construction finds it.
* `Build.layer_steady`, `Build.step_steady` — a layer in range.
* `Head.Placed`, `Build.pass_placed` — heads behind the pass.
* `Build.network_brokenDown` — when the construction of a network breaks down.
-/

namespace GridNet

open Outcome (steady_ok steady_because steady_ensure steady_of_eq_ok)

/-! ## References -/

/-- A reference that leads nowhere is reported. -/
theorem LayerOutputs.lookup_steady (o : LayerOutputs) (reference : Int) (block : Nat) :
    Outcome.Steady (o.lookup reference block) := by
  -- a tensor is found for every reference that leads somewhere
  by_cases h : ∃ j, Refers o.size reference j
  · obtain ⟨j, hj⟩ := h
    obtain ⟨t, ht⟩ := lookup_total hj block
    exact steady_of_eq_ok ht
  · rw [lookup_eq_error (not_exists.mp h)]
    exact steady_because _

/-! ## Blueprints that are read -/

namespace Blueprint

variable {blocks : List Block} {name : String} {b : Blueprint}

/-- The layers of a blueprint that is read are well formed. -/
theorem layers_wellFormed (h : ofBlocks blocks name = .ok b) :
    ∀ l ∈ b.layers, l.kind.WellFormed := by
  obtain ⟨first, rest, readings, -, -, -, hreadings, hlayers, -⟩ := ofBlocks_eq_ok h
  intro l hl
  rcases mem_layersOf (hlayers ▸ hl) with hmem | ⟨_, _, hkind⟩
  · exact readLayers_wellFormed hreadings _ hmem
  · rw [hkind]
    trivial

/-- Each head of a blueprint that is read has a layer. -/
theorem exists_headLayer (h : ofBlocks blocks name = .ok b) {j : Nat} (hj : j < b.heads.length) :
    ∃ l ∈ b.layers, ∃ kind, l.kind = .head kind j := by
  obtain ⟨first, rest, readings, -, -, -, hreadings, hlayers, hheads, -⟩ := ofBlocks_eq_ok h
  rw [hheads, List.length_map, ← headLayers_layersOf (readLayers_matches hreadings) 0 0 1] at hj
  rw [hlayers]
  obtain ⟨kind, hkind⟩ := Build.headsInOrder_of_readLayers hreadings
    j _ (List.getElem?_eq_getElem hj)
  exact ⟨_, List.mem_of_mem_filter (List.getElem_mem hj), kind, hkind⟩

end Blueprint

namespace Build

open Emit

variable {all : List Layer} {p p' : Progress} {l : Layer} {d d' : Draft} {b : Blueprint}
  {weights : WeightBuffer} {i : Nat}

/-! ## What a layer reads -/

/-- The extents of the layers that the references of a layer stand for. -/
def namedExtents (p : Progress) (d : Draft) (l : Layer) : List (List Nat) :=
  (l.kind.references.filterMap fun r => (p.outputs.lookup r l.block).toOption).map
    (d.graph.extentsOf ·.2)

/-- What a layer **reads** in a state of the construction. -/
def extents (p : Progress) (d : Draft) (l : Layer) : LayerExtents where
  input := d.graph.extentsOf p.previous
  named := namedExtents p d l
  heads := p.heads

/-- The tensors that earlier layers left are there. -/
def Placed (p : Progress) (d : Draft) : Prop :=
  ∀ t ∈ p.outputs.tensors, ∃ dims, d.graph.Spans t dims

/-- **What earlier layers left stays** where it is. -/
theorem reach_placed (hi : i ≤ b.layers.length)
    (h : reach b i { cursor := .start weights } = .ok p d) : Placed p d := by
  induction i generalizing p d with
  | zero =>
    obtain ⟨shape, input, d₁, -, -, hpass⟩ := reach_eq_ok.mp h
    obtain ⟨rfl, -⟩ := pure_eq_ok.mp hpass
    exact fun t ht => absurd ht List.not_mem_nil
  | succ i ih =>
    rw [reach_succ (List.getElem?_eq_getElem hi)] at h
    obtain ⟨q, e, hbefore, hstep⟩ := bind_eq_ok.mp h
    have hwithin := (step_extends q _ _ _ _ hstep).within
    obtain ⟨_, output, _, -, houtput, houtputs, -⟩ := step_adds hstep
    intro t ht
    -- either an earlier layer left the tensor, or this step has made it
    rw [houtputs, LayerOutputs.push] at ht
    rcases List.mem_append.mp ht with ht | ht
    · obtain ⟨dims, hdims⟩ := ih (Nat.le_of_succ_le hi) hbefore t ht
      exact ⟨dims, hwithin.spans hdims⟩
    · obtain rfl := List.mem_singleton.mp ht
      exact ⟨output.dims, output, houtput, rfl⟩

/-- The tensor in front of a layer that is reached is there. -/
theorem reach_spans (hi : i ≤ b.layers.length)
    (h : reach b i { cursor := .start weights } = .ok p d) :
    d.graph.Spans p.previous (extents p d l).input := by
  obtain ⟨current, hcurrent, -⟩ := (reach_held hi h).chained
  have hspans : d.graph.Spans p.previous current.dims := ⟨current, hcurrent, rfl⟩
  rwa [extents, hspans.extentsOf_eq]

/-- A reference that is found stands for a tensor that is there. -/
theorem Placed.lookup (hplaced : Placed p d) {r : Int} {block : Nat} {found : Nat × TensorId}
    (h : p.outputs.lookup r block = .ok found) :
    d.graph.Spans found.2 (d.graph.extentsOf found.2) := by
  obtain ⟨-, hget⟩ := LayerOutputs.lookup_eq_ok_iff.mp h
  obtain ⟨dims, hdims⟩ := hplaced found.2 (List.mem_of_getElem? hget)
  exact hdims.extentsOf_eq ▸ hdims

/-- A list of references that are found. -/
theorem Placed.lookups (hplaced : Placed p d) {refs : List Int} {block : Nat}
    {found : List (Nat × TensorId)} (h : refs.mapM (p.outputs.lookup · block) = .ok found) :
    (refs.filterMap fun r => (p.outputs.lookup r block).toOption) = found ∧
      List.Forall₂ d.graph.Spans (found.map (·.2)) (found.map (d.graph.extentsOf ·.2)) := by
  induction Outcome.mapM_eq_ok.mp h with
  | nil => exact ⟨rfl, .nil⟩
  | @cons r x refs found hx hrest ih =>
    obtain ⟨hfound, hspans⟩ := ih (Outcome.mapM_eq_ok.mpr hrest)
    refine ⟨?_, .cons (hplaced.lookup hx) hspans⟩
    rw [List.filterMap_cons, hx, hfound]
    rfl

theorem namedExtents_of_single {r : Int} {found : Nat × TensorId} (hrefs : l.kind.references = [r])
    (h : p.outputs.lookup r l.block = .ok found) :
    namedExtents p d l = [d.graph.extentsOf found.2] := by
  rw [namedExtents, hrefs, List.filterMap_cons, h]
  rfl

/-- The sources of a route. -/
theorem Placed.namedExtents (hplaced : Placed p d) {found : List (Nat × TensorId)}
    (h : l.kind.references.mapM (p.outputs.lookup · l.block) = .ok found) :
    List.Forall₂ d.graph.Spans (found.map (·.2)) (namedExtents p d l) := by
  obtain ⟨hfound, hspans⟩ := hplaced.lookups h
  rwa [Build.namedExtents, hfound]

/-! ## One layer -/

theorem lookupImplicit_steady (layers : List Layer) (outputs : LayerOutputs) (kind : LayerKind)
    (reference : Int) (block : Nat) :
    Outcome.Steady (lookupImplicit layers outputs kind reference block) := by
  refine (outputs.lookup_steady reference block).bind fun found _ => ?_
  dsimp only
  split
  · exact steady_ok _
  · exact (steady_because _).inContext _

/-- A layer's label hangs on nothing but its tensor. -/
theorem labelled_steady {m : Emit TensorId} (hm : Steady d m) (label : String) :
    Steady d (do return (label, ← m) : Emit (String × TensorId)) :=
  hm.bind fun _ d₁ _ => steady_pure _ d₁

/-- **A layer in range** does not break down. -/
theorem layer_steady (hl : l.kind.WellFormed) (hplaced : Placed p d)
    (hinput : d.graph.Spans p.previous (extents p d l).input)
    (hrange : l.kind.InRange (extents p d l)) : Steady d (layer all p l) := by
  unfold layer
  cases hkind : l.kind with
  | convolution c | deconvolution c =>
    rw [hkind] at hl hrange
    exact labelled_steady (convolution_steady hinput hl.2.1 hl.2.2.2 hrange _) _
  | normalization a => exact labelled_steady (normalization_steady _ a _ d) _
  | implicit filters => exact labelled_steady (implicit_steady filters _ d) _
  | shiftChannels source =>
    exact .after_lift (lookupImplicit_steady _ _ _ _ _) fun _ _ =>
      labelled_steady (sum_steady _ _ d) _
  | controlChannels source =>
    exact .after_lift (lookupImplicit_steady _ _ _ _ _) fun _ _ =>
      labelled_steady (product_steady _ _ d) _
  | shortcut source a =>
    exact .after_lift (p.outputs.lookup_steady _ _) fun _ _ =>
      labelled_steady (shortcut_steady _ _ a d) _
  | sam source a =>
    exact .after_lift (p.outputs.lookup_steady _ _) fun _ _ =>
      labelled_steady (sam_steady _ _ a d) _
  | route sources axis group =>
    rw [hkind] at hl hrange
    refine .after_lift (Outcome.Steady.mapM (fun r => p.outputs.lookup_steady r _) sources)
      fun found hfound => ?_
    have hnamed := hplaced.namedExtents (l := l) (by rwa [hkind])
    exact labelled_steady (route_steady hnamed (fun g hg => (hl.2 g hg).2) hrange _) _
  | upsample stride => exact labelled_steady (upsample_steady _ stride d) _
  | maxPool size stride =>
    rw [hkind] at hl hrange
    exact labelled_steady (maxPool_steady hinput hl.1 hrange) _
  | averagePool => exact labelled_steady (averagePool_steady _ d) _
  | reorg3d => exact labelled_steady (reorg3d_steady _ _ d) _
  | reorg stride =>
    rw [hkind] at hl hrange
    exact labelled_steady (reorg_steady hl hrange _) _
  | head kind place => exact steady_pure _ d
  | dropout => exact steady_pure _ d

theorem weightsTaken_steady (d : Draft) : Steady d weightsTaken := fun _ => nofun

/-- A head is placed or refused if its channels can be counted. -/
theorem placeHead_steady {heads : List Head} {place : Nat} (kind : HeadKind) (block : Nat)
    (s : Shape.Nchw) (h : ∀ head ∈ heads[place]?,
      5 + head.classes < Word.modulus ∧ head.boxes * (5 + head.classes) < Word.modulus) :
    Outcome.Steady (placeHead heads kind place block s) := by
  unfold placeHead
  split
  · exact steady_because _
  · next head hhead =>
    obtain ⟨hclasses, hchannels⟩ := h head hhead
    exact .after_ok (Head.countChannels_eq_ok.mpr ⟨hclasses, hchannels, rfl⟩) <|
      (steady_ensure _ _).bind fun _ _ => Outcome.steady_pure _

/-- **A step** of the pass over a layer in range. -/
theorem step_steady (hl : l.kind.WellFormed) (hplaced : Placed p d)
    (hinput : d.graph.Spans p.previous (extents p d l).input)
    (hrange : l.kind.InRange (extents p d l)) : Steady d (step all p l) := by
  rcases hhead : l.kind.isHead with _ | _
  · rw [step_of_isHead hhead]
    exact .after_shapeOf fun _ _ => (layer_steady hl hplaced hinput hrange).bind fun _ d₁ _ =>
      .after_shapeOf fun _ _ => (weightsTaken_steady d₁).bind fun _ d₂ _ => steady_pure _ d₂
  · unfold step
    cases hkind : l.kind with
    | head kind place =>
      rw [hkind] at hrange
      exact .after_shapeOf fun shape _ => .after_lift shape.nchw_steady fun s _ =>
        .after_lift (placeHead_steady kind l.block s hrange) fun _ _ =>
          (weightsTaken_steady d).bind fun _ d₁ _ => steady_pure _ d₁
    | _ =>
      rw [hkind] at hhead
      cases hhead

/-- A pass that fails has stopped at one of its layers. -/
theorem pass_stuck {layers : List Layer} {f : Failure} (h : pass all p layers d = .error f d') :
    ∃ i l q e, layers[i]? = some l ∧ pass all p (layers.take i) d = .ok q e ∧
      step all q l e = .error f d' := by
  induction layers generalizing p d with
  | nil => cases h
  | cons first rest ih =>
    rcases bind_eq_error.mp h with h | ⟨p₁, d₁, hstep, h⟩
    · exact ⟨0, first, p, d, rfl, rfl, h⟩
    · obtain ⟨i, l, q, e, hl, hbefore, hstuck⟩ := ih h
      exact ⟨i + 1, l, q, e, hl, bind_eq_ok.mpr ⟨p₁, d₁, hstep, hbefore⟩, hstuck⟩

end Build

/-! ## Heads behind the pass -/

/-- A head that is **placed** on a tensor: its grid has cells, and its channels have been
counted. -/
structure Head.Placed (h : Head) : Prop where
  grid : 0 < h.gridWidth ∧ 0 < h.gridHeight
  counted : h.countChannels = .ok h.channels

namespace Build

open Emit

variable {all : List Layer} {p p' : Progress} {l : Layer} {d d' : Draft} {b : Blueprint}
  {weights : WeightBuffer} {j : Nat}

/-- Heads that are placed stay so, and a head layer places its own. -/
theorem step_placed (h : step all p l d = .ok p' d')
    (hj : (∃ kind, l.kind = .head kind j) ∨ ∀ head ∈ p.heads[j]?, head.Placed) :
    ∀ head ∈ p'.heads[j]?, head.Placed := by
  obtain ⟨source, _, -, -, -, -, ⟨kind, place, s, hkind, hs, hplace, -⟩ |
    ⟨hnone, _, -, -, hsame, -⟩⟩ :=
    step_eq_ok h
  · obtain ⟨template, htemplate, hcounted, hset⟩ := placeHead_eq_ok hplace
    rw [hset]
    by_cases heq : place = j
    · obtain rfl := heq
      rw [List.getElem?_set_self (List.getElem?_eq_some_iff.mp htemplate).1]
      intro head hhead
      obtain rfl := Option.some.inj hhead
      obtain ⟨-, -, hchannels⟩ := Head.countChannels_eq_ok.mp hcounted
      have hpositive := source.positive
      rw [Shape.nchw_eq_ok.mp hs] at hpositive
      exact ⟨⟨hpositive s.width (by simp), hpositive s.height (by simp)⟩,
        hcounted.trans (congrArg Except.ok hchannels.symm)⟩
    · rw [List.getElem?_set_ne heq]
      refine hj.resolve_left fun ⟨kind', hkind'⟩ => heq ?_
      exact (LayerKind.head.inj (hkind.symm.trans hkind')).2
  · rw [hsame]
    refine hj.resolve_left fun ⟨kind, hkind⟩ => ?_
    rw [hkind] at hnone
    cases hnone

/-- **The pass places** the head of each of its head layers. -/
theorem pass_placed {layers : List Layer} (h : pass all p layers d = .ok p' d')
    (hj : (∃ l ∈ layers, ∃ kind, l.kind = .head kind j) ∨ ∀ head ∈ p.heads[j]?, head.Placed) :
    ∀ head ∈ p'.heads[j]?, head.Placed := by
  induction layers generalizing p d with
  | nil =>
    obtain ⟨rfl, -⟩ := pure_eq_ok.mp h
    exact hj.resolve_left fun ⟨_, hl, _⟩ => absurd hl List.not_mem_nil
  | cons first rest ih =>
    obtain ⟨p₁, d₁, hstep, hrest⟩ := bind_eq_ok.mp h
    refine ih hrest ?_
    rcases hj with ⟨l, hl, hkind⟩ | hplaced
    · rcases List.mem_cons.mp hl with rfl | hl
      · exact .inr (step_placed hstep (.inl hkind))
      · exact .inl ⟨l, hl, hkind⟩
    · exact .inr (step_placed hstep (.inr hplaced))

/-- All heads are placed behind a pass with a layer for each. -/
theorem body_placed (hlayers : ∀ j < b.heads.length, ∃ l ∈ b.layers, ∃ kind, l.kind = .head kind j)
    {input : TensorId} (h : body b d = .ok (input, p) d') : ∀ head ∈ p.heads, head.Placed := by
  obtain ⟨shape, d₁, -, -, hpass⟩ := body_eq_ok.mp h
  intro head hhead
  obtain ⟨j, hj, rfl⟩ := List.getElem_of_mem hhead
  have hlayer := hlayers j ((pass_counts hpass).1 ▸ hj)
  exact pass_placed hpass (.inl hlayer) _ (List.getElem?_eq_getElem hj)

/-! ## After the pass -/

theorem mark_steady (t : TensorId) (name : String) (d : Draft) :
    Steady d (record fun g => (g.markOutput t name).map (·, ())) :=
  steady_record ((d.graph.markOutput_steady t name).map _)

theorem markDecoded_steady (outputs : List TensorId) (d : Draft) :
    Steady d (markDecoded outputs) := by
  unfold markDecoded
  split
  · exact (steady_forM (fun _ => mark_steady _ _) _ d).bind fun _ d₁ _ => steady_pure _ d₁
  · exact steady_lift (steady_because _) d

/-- The outputs are named if the rows of all heads together are in range. -/
theorem finish_steady (hheads : ∀ head ∈ p.heads, head.Placed)
    (hrows : HeadDecoder.rowsOf p.heads < Word.modulus) : Steady d (finish b p) := by
  unfold finish
  split
  · exact (mark_steady _ _ d).bind fun _ d₁ _ => steady_pure _ d₁
  · have hcounted := HeadDecoder.countRows_of_lt (fun head hhead => (hheads head hhead).grid) hrows
    refine .after_ok (HeadDecoder.make_eq_ok.mpr ⟨hcounted, rfl⟩) <|
      (steady_record (d.graph.addDecode_steady ?_)).bind fun ids d₁ _ =>
      markDecoded_steady ids d₁
    refine List.forall_mem_cons.mpr ⟨hrows, fun n hn => ?_⟩
    obtain ⟨head, hhead, hn⟩ := List.mem_flatMap.mp hn
    obtain ⟨hclasses, hchannels, -⟩ := Head.countChannels_eq_ok.mp (hheads head hhead).counted
    rcases List.mem_pair.mp hn with rfl | rfl
    · exact hclasses
    · exact hchannels

theorem close_steady (hheads : ∀ head ∈ p.heads, head.Placed)
    (hrows : HeadDecoder.rowsOf p.heads < Word.modulus) (input : TensorId) :
    Steady d (close b input p) := by
  have hlast : Steady d (do
      let outputs ← finish b p
      let taken ← weightsTaken
      return ({ input, outputs, heads := p.heads, headTensors := p.headTensors, table := p.table,
                weightsTaken := taken } : BuiltNetwork)) :=
    (finish_steady hheads hrows).bind fun _ d₁ _ => (weightsTaken_steady d₁).bind fun _ d₂ _ =>
      steady_pure _ d₂
  unfold close
  dsimp only
  split
  · exact Steady.bind (fun _ => nofun) fun _ _ h => nomatch h
  · exact hlast

theorem confirmWeights_steady (d : Draft) : Steady d confirmWeights := by
  intro d' h
  rw [confirmWeights_eq] at h
  split at h <;> cases h

/-- **When the construction of a network breaks down**: it has reached a layer that is out of range,
or the rows of all heads together are. All other failures have causes. -/
theorem network_brokenDown (hformed : ∀ l ∈ b.layers, l.kind.WellFormed)
    (hlayers : ∀ j < b.heads.length, ∃ l ∈ b.layers, ∃ kind, l.kind = .head kind j)
    (h : network b { cursor := .start weights } = .error .brokenDown d) :
    (∃ i l p e, b.layers[i]? = some l ∧ reach b i { cursor := .start weights } = .ok p e ∧
      ¬ l.kind.InRange (extents p e l)) ∨
    ∃ p e, reach b b.layers.length { cursor := .start weights } = .ok p e ∧
      Word.modulus ≤ HeadDecoder.rowsOf p.heads := by
  rcases bind_eq_error.mp h with h | ⟨⟨input, p⟩, d₁, hbody, h⟩
  · refine .inl ?_
    rcases bind_eq_error.mp h with h | ⟨shape, d₁, hshape, h⟩
    · exact absurd h (steady_lift (Shape.ofDims_steady _) _ _)
    obtain ⟨hdims, rfl⟩ := lift_eq_ok.mp hshape
    rcases bind_eq_error.mp h with h | ⟨input, d₂, hinput, h⟩
    · exact absurd h (steady_record (Graph.addInput_steady _ _ _) _)
    rcases bind_eq_error.mp h with h | ⟨p, d₃, -, h⟩
    · obtain ⟨i, l, q, e, hl, hbefore, hstuck⟩ := pass_stuck h
      have hi : i ≤ b.layers.length := (List.getElem?_eq_some_iff.mp hl).1.le
      have hreach : reach b i { cursor := .start weights } = .ok q e :=
        reach_eq_ok.mpr ⟨shape, input, d₂, hdims, hinput, hbefore⟩
      refine ⟨i, l, q, e, hl, hreach, fun hrange => ?_⟩
      exact step_steady (hformed l (List.mem_of_getElem? hl)) (reach_placed hi hreach)
        (reach_spans hi hreach) hrange d hstuck
    · exact absurd h (steady_pure _ _ _)
  · refine .inr ⟨p, d₁, body_eq_ok_reach hbody, Nat.le_of_not_lt fun hrows => ?_⟩
    have hsteady := (confirmWeights_steady d₁).bind fun _ _ _ =>
      close_steady (b := b) (body_placed hlayers hbody) hrows input
    exact hsteady d h

end Build

end GridNet
