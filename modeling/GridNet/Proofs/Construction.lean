import GridNet.Proofs.CountedHeads
import GridNet.Proofs.Emission

/-!
# The steps of a construction

What a success of the pass over the layers, and of building a whole network, says about the steps
that have been taken.

* `Build.step_eq_ok`, `Build.pass_split` — one layer, and the layers in front of it and behind.
* `Build.network_eq_ok` — the pass, the check that all weights are used up, and the outputs.
* `Build.finish_eq_ok` — what is recorded and named after the pass.
-/

namespace GridNet

/-- The draft after some tensors have been named as outputs. -/
def Draft.named (d : Draft) (names : List (String × TensorId)) : Draft :=
  { d with graph := { d.graph with outputs := d.graph.outputs ++ names } }

namespace Build

open Emit

variable {all : List Layer} {p p' : Progress} {l : Layer} {d d' : Draft}

/-! ## Steps of the pass -/

/-- A layer's label hangs on nothing but its tensor. -/
theorem labelled_eq_ok {m : Emit TensorId} {text label : String} {t : TensorId}
    (h : (do return (text, ← m) : Emit (String × TensorId)) d = .ok (label, t) d') :
    m d = .ok t d' := by
  obtain ⟨t', _, ht, h⟩ := bind_eq_ok.mp h
  obtain ⟨hlabel, rfl⟩ := pure_eq_ok.mp h
  obtain ⟨-, rfl⟩ := Prod.mk.inj hlabel
  exact ht

/-- The step of a layer that is no head. -/
theorem step_of_isHead (hl : l.kind.isHead = false) :
    step all p l = (do
      let inputShape ← Emit.shapeOf p.previous
      let (label, t) ← layer all p l
      let outputShape ← Emit.shapeOf t
      let taken ← weightsTaken
      return { p with
        outputs := p.outputs.push t
        previous := t
        table := p.table ++ [⟨l.index, label, inputShape.dims, outputShape.dims, taken⟩] }) := by
  unfold step
  cases hkind : l.kind with
  | head =>
    rw [hkind] at hl
    cases hl
  | _ => rfl

/-- A head is **placed** where one of its number is found and the channels are those that
it reads. -/
theorem placeHead_eq_ok {heads placed : List Head} {kind : HeadKind} {place block : Nat}
    {s : Shape.Nchw} (h : placeHead heads kind place block s = .ok placed) :
    ∃ head, heads[place]? = some head ∧ head.countChannels = .ok s.channels ∧
      placed = heads.set place { head with gridWidth := s.width, gridHeight := s.height } := by
  unfold placeHead at h
  split at h
  · cases h
  · next head hhead =>
    obtain ⟨channels, hcounted, h⟩ := Outcome.bind_eq_ok.mp h
    obtain ⟨_, hchannels, h⟩ := Outcome.bind_eq_ok.mp h
    obtain rfl := Outcome.pure_eq_ok.mp h
    obtain rfl := of_decide_eq_true (Outcome.ensure_eq_ok.mp hchannels)
    exact ⟨head, hhead, hcounted, rfl⟩

/-- What a success of **one step** of the pass says: a row is added to the table, and the layer
either is a head, which reads the current tensor and passes it on, or emits a tensor. -/
theorem step_eq_ok (h : step all p l d = .ok p' d') :
    ∃ source row, d.graph.shapeOf p.previous = .ok source ∧ row.input = source.dims ∧
      row.weightsTaken = d'.cursor.position ∧ p'.table = p.table ++ [row] ∧
      ((∃ kind place s, l.kind = .head kind place ∧ source.nchw = .ok s ∧
          placeHead p.heads kind place l.block s = .ok p'.heads ∧ d' = d ∧
          p'.outputs = p.outputs.push p.previous ∧ p'.previous = p.previous ∧
          p'.headTensors = p.headTensors ++ [p.previous]) ∨
        l.kind.isHead = false ∧ ∃ label, layer all p l d = .ok (label, p'.previous) d' ∧
          p'.outputs = p.outputs.push p'.previous ∧ p'.heads = p.heads ∧
          p'.headTensors = p.headTensors) := by
  rcases hl : l.kind.isHead with _ | _
  · rw [step_of_isHead hl] at h
    obtain ⟨source, d₁, hshape, h⟩ := bind_eq_ok.mp h
    obtain ⟨hsource, rfl⟩ := query_eq_ok.mp hshape
    obtain ⟨⟨label, t⟩, d₂, ht, h⟩ := bind_eq_ok.mp h
    obtain ⟨output, d₃, houtput, h⟩ := bind_eq_ok.mp h
    obtain ⟨-, rfl⟩ := query_eq_ok.mp houtput
    obtain ⟨taken, d₄, htaken, h⟩ := bind_eq_ok.mp h
    obtain ⟨rfl, rfl⟩ := pure_eq_ok.mp h
    cases htaken
    exact ⟨source, _, hsource, rfl, rfl, rfl, .inr ⟨rfl, label, ht, rfl, rfl, rfl⟩⟩
  · unfold step at h
    cases hkind : l.kind with
    | head kind place =>
      rw [hkind] at h
      obtain ⟨source, d₁, hshape, h⟩ := bind_eq_ok.mp h
      obtain ⟨hsource, rfl⟩ := query_eq_ok.mp hshape
      obtain ⟨s, d₂, hnchw, h⟩ := bind_eq_ok.mp h
      obtain ⟨hs, rfl⟩ := lift_eq_ok.mp hnchw
      obtain ⟨heads, d₃, hheads, h⟩ := bind_eq_ok.mp h
      obtain ⟨hplace, rfl⟩ := lift_eq_ok.mp hheads
      obtain ⟨taken, d₄, htaken, h⟩ := bind_eq_ok.mp h
      obtain ⟨rfl, rfl⟩ := pure_eq_ok.mp h
      cases htaken
      exact ⟨source, _, hsource, rfl, rfl, rfl,
        .inl ⟨kind, place, s, rfl, hs, hplace, rfl, rfl, rfl, rfl⟩⟩
    | _ =>
      rw [hkind] at hl
      cases hl

/-- The pass up to layer number `i`, this layer, and what comes behind it. -/
theorem pass_split {layers : List Layer} (h : pass all p layers d = .ok p' d') {i : Nat}
    (hl : layers[i]? = some l) :
    ∃ q e q' e', pass all p (layers.take i) d = .ok q e ∧ step all q l e = .ok q' e' ∧
      pass all q' (layers.drop (i + 1)) e' = .ok p' d' := by
  induction layers generalizing p d i with
  | nil => cases hl
  | cons first rest ih =>
    obtain ⟨p₁, d₁, hstep, hrest⟩ := bind_eq_ok.mp h
    cases i with
    | zero =>
      cases hl
      exact ⟨p, d, p₁, d₁, rfl, hstep, hrest⟩
    | succ i =>
      obtain ⟨q, e, q', e', hbefore, hthis, hbehind⟩ := ih hrest hl
      exact ⟨q, e, q', e', bind_eq_ok.mpr ⟨p₁, d₁, hstep, hbefore⟩, hthis, hbehind⟩

/-- The table only grows. -/
theorem pass_table {layers : List Layer} (h : pass all p layers d = .ok p' d') :
    p.table <+: p'.table := by
  induction layers generalizing p d with
  | nil =>
    obtain ⟨rfl, -⟩ := pure_eq_ok.mp h
    exact List.prefix_rfl
  | cons l rest ih =>
    obtain ⟨p₁, d₁, hstep, hrest⟩ := bind_eq_ok.mp h
    obtain ⟨_, row, -, -, -, htable, -⟩ := step_eq_ok hstep
    exact (htable ▸ List.prefix_append _ _).trans (ih hrest)

/-! ## Whole networks -/

theorem body_eq_ok {b : Blueprint} {input : TensorId} :
    body b d = .ok (input, p) d' ↔ ∃ shape d₁,
      Shape.ofDims [b.input.batch, b.input.channels, b.input.height, b.input.width] = .ok shape ∧
      record (·.addInput inputName shape) d = .ok input d₁ ∧
      pass b.layers { previous := input, heads := b.heads } b.layers d₁ = .ok p d' := by
  simp only [body, bind_eq_ok, lift_eq_ok, pure_eq_ok, Prod.mk.injEq]
  constructor
  · rintro ⟨shape, _, ⟨hshape, rfl⟩, _, d₁, hinput, _, _, hpass, ⟨rfl, rfl⟩, rfl⟩
    exact ⟨shape, d₁, hshape, hinput, hpass⟩
  · rintro ⟨shape, d₁, hshape, hinput, hpass⟩
    exact ⟨shape, d, ⟨hshape, rfl⟩, input, d₁, hinput, p, d', hpass, ⟨rfl, rfl⟩, rfl⟩

theorem confirmWeights_eq (d : Draft) :
    confirmWeights d = if d.cursor.position = d.cursor.weights.size then .ok () d
      else .error (.ofDefect (.weightsUnused d.cursor.position d.cursor.weights.size)) d := by
  unfold confirmWeights WeightCursor.finish
  split <;> rfl

/-- The steps of building a network, when all of them succeed. -/
theorem network_eq_ok {b : Blueprint} {built : BuiltNetwork} {d d' : Draft} :
    network b d = .ok built d' ↔ ∃ input p d₁, body b d = .ok (input, p) d₁ ∧
      d₁.cursor.position = d₁.cursor.weights.size ∧ close b input p d₁ = .ok built d' := by
  unfold network
  rw [bind_eq_ok]
  constructor
  · rintro ⟨⟨input, p⟩, d₁, hbody, h⟩
    obtain ⟨_, d₂, hconfirm, hclose⟩ := bind_eq_ok.mp h
    rw [confirmWeights_eq] at hconfirm
    split at hconfirm
    · next hall =>
      cases hconfirm
      exact ⟨input, p, d₁, hbody, hall, hclose⟩
    · cases hconfirm
  · rintro ⟨input, p, d₁, hbody, hall, hclose⟩
    refine ⟨(input, p), d₁, hbody, bind_eq_ok.mpr ⟨(), d₁, ?_, hclose⟩⟩
    rw [confirmWeights_eq, if_pos hall]

/-- The input, and the pass over the first `count` layers. -/
def reach (b : Blueprint) (count : Nat) : Emit Progress := do
  let shape ← Emit.lift
    (Shape.ofDims [b.input.batch, b.input.channels, b.input.height, b.input.width])
  let input ← Emit.record (·.addInput inputName shape)
  pass b.layers { previous := input, heads := b.heads } (b.layers.take count)

/-- The decoder of a network. -/
def decoderOf (b : Blueprint) (p : Progress) : HeadDecoder :=
  .ofHeads b.input.width b.input.height b.classes b.activatedHeads p.heads

theorem mark_eq_ok {t : TensorId} {name : String} {u : Unit}
    (h : record (fun g => (g.markOutput t name).map (·, ())) d = .ok u d') :
    d' = d.named [(name, t)] := by
  obtain ⟨g, hg, rfl⟩ := record_eq_ok.mp h
  obtain ⟨g', hg', hpair⟩ := Outcome.map_eq_ok.mp hg
  obtain ⟨rfl, -⟩ := Prod.mk.inj hpair
  obtain ⟨-, -, rfl⟩ := Graph.markOutput_eq_ok hg'
  rfl

/-- Tensors are named one after the other. -/
theorem forM_mark_eq_ok {pairs : List (TensorId × String)} {u : Unit}
    (h : (pairs.forM fun (t, name) => record fun g => (g.markOutput t name).map (·, ())) d =
      .ok u d') :
    d' = d.named (pairs.map fun (t, name) => (name, t)) := by
  induction pairs generalizing d with
  | nil =>
    obtain ⟨-, rfl⟩ := pure_eq_ok.mp h
    rw [List.map_nil, Draft.named, List.append_nil]
  | cons pair rest ih =>
    obtain ⟨_, d₁, hfirst, hrest⟩ := bind_eq_ok.mp h
    rw [ih hrest, mark_eq_ok hfirst]
    simp [Draft.named]

theorem markDecoded_eq_ok {ids : List TensorId} {outputs : NetworkOutputs}
    (h : markDecoded ids d = .ok outputs d') :
    d' = d.named (decodedNames.zip ids) ∧
      ∃ boxes scores classes, ids = [boxes, scores, classes] ∧
        outputs = .decoded boxes scores classes := by
  unfold markDecoded at h
  split at h
  · next boxes scores classes =>
    obtain ⟨_, _, hmarked, h⟩ := bind_eq_ok.mp h
    obtain ⟨rfl, rfl⟩ := pure_eq_ok.mp h
    exact ⟨forM_mark_eq_ok hmarked, boxes, scores, classes, rfl, rfl⟩
  · obtain ⟨h, -⟩ := lift_eq_ok.mp h
    cases h

/-- What is recorded **after the pass**: the last tensor is named, or the head tensors are decoded
and the results named. -/
theorem finish_eq_ok {b : Blueprint} {outputs : NetworkOutputs}
    (h : finish b p d = .ok outputs d') :
    (p.headTensors = [] ∧ outputs = .features p.previous ∧
      d' = d.named [(featureName, p.previous)]) ∨
      p.headTensors ≠ [] ∧ ∃ shapes, shapes.length = 3 ∧
        d.graph.Accepts (.decode (decoderOf b p)) p.headTensors shapes ∧
        outputs = .decoded d.graph.tensors.size (d.graph.tensors.size + 1)
          (d.graph.tensors.size + 2) ∧
        d' = Draft.named { d with
          graph := (d.graph.push (.decode (decoderOf b p)) p.headTensors shapes).1 }
          (decodedNames.zip (d.graph.push (.decode (decoderOf b p)) p.headTensors shapes).2) := by
  unfold finish at h
  split at h
  · next hnone =>
    obtain ⟨_, _, hmark, h⟩ := bind_eq_ok.mp h
    obtain ⟨rfl, rfl⟩ := pure_eq_ok.mp h
    exact .inl ⟨List.isEmpty_iff.mp hnone, rfl, mark_eq_ok hmark⟩
  · next hsome =>
    obtain ⟨decoder, _, hmake, h⟩ := bind_eq_ok.mp h
    obtain ⟨hdecoder, rfl⟩ := lift_eq_ok.mp hmake
    obtain ⟨-, rfl⟩ := HeadDecoder.make_eq_ok.mp hdecoder
    obtain ⟨ids, _, hdecode, h⟩ := bind_eq_ok.mp h
    obtain ⟨g, hg, rfl⟩ := record_eq_ok.mp hdecode
    obtain ⟨shapes, haccepts, hpush⟩ := Graph.addDecode_eq_ok hg
    obtain ⟨rfl, rfl⟩ := Prod.mk.inj hpush
    obtain ⟨hnamed, boxes, scores, classes, hids, houtputs⟩ := markDecoded_eq_ok h
    have hthree : shapes.length = 3 := by simpa using congrArg List.length hids
    refine .inr ⟨fun hnil => hsome (List.isEmpty_iff.mpr hnil), shapes, hthree,
      haccepts, ?_, hnamed⟩
    -- the three results are numbered from the first tensor that is free
    have hnumbers : [d.graph.tensors.size, d.graph.tensors.size + 1, d.graph.tensors.size + 2] =
        [boxes, scores, classes] := by
      rw [← hids, hthree]
      rfl
    simp only [List.cons.injEq] at hnumbers
    obtain ⟨hboxes, hscores, hclasses, -⟩ := hnumbers
    rw [houtputs, ← hboxes, ← hscores, ← hclasses]

/-- What a network that is closed consists of: its outputs, and what the pass has left. -/
theorem close_eq_ok {b : Blueprint} {input : TensorId} {built : BuiltNetwork}
    (h : close b input p d = .ok built d') :
    ∃ outputs, finish b p d = .ok outputs d' ∧ built.table = p.table ∧
      built.outputs = outputs ∧ built.heads = p.heads ∧ built.headTensors = p.headTensors := by
  unfold close at h
  dsimp only at h
  split at h
  · obtain ⟨_, _, hthrow, -⟩ := bind_eq_ok.mp h
    cases hthrow
  · obtain ⟨outputs, _, houtputs, h⟩ := bind_eq_ok.mp h
    obtain ⟨taken, _, htaken, h⟩ := bind_eq_ok.mp h
    obtain ⟨rfl, rfl⟩ := pure_eq_ok.mp h
    cases htaken
    exact ⟨outputs, houtputs, rfl, rfl, rfl, rfl⟩

end Build

end GridNet
