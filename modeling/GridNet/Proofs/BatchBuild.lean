import GridNet.Proofs.BatchRecording

/-!
# Building for a batch of one

The pass over the layers hangs on the batch only where layers of different batches meet: a shortcut
crops its source on every axis, that of the images included. Where no window crops this axis, a
network that is built for one batch size is built for a batch of one as well, and the graph is the
one for a batch of one.

* `Graph.Uncropped` — no window is narrower than its operand along the axis of images.
* `Build.layer_single`, `Build.step_single`, `Build.pass_single` — a layer, a step, all layers.
* `Model.compile_single` — the whole network.
-/

namespace GridNet

namespace Graph

variable {g g' : Graph}

/-- **No window crops the axis of images**: none is narrower along it than its operand. -/
def Uncropped (g : Graph) : Prop :=
  ∀ node ∈ g.nodes.toList, ∀ w, node.operation = .slice w →
    ∀ t ∈ node.inputs, ∀ dims, g.Spans t dims → ¬ w.size.headD 0 < dims.headD 0

theorem Uncropped.front (h : g'.Uncropped) (hfront : g.Within g') : g.Uncropped :=
  fun node hnode w hw t ht dims hdims =>
    h node (hfront.nodes.subset hnode) w hw t ht dims (hfront.spans hdims)

/-- A window from the first image on that does not crop has all images. -/
theorem Uncropped.window {input : TensorId} {source : Shape} {j k : Nat}
    {rest start size stride : List Nat} {r : Recorded}
    (h : g.addSlice input ⟨0 :: start, k :: size, 1 :: stride⟩ = .ok r) (hcrop : r.1.Uncropped)
    (hsource : g.shapeOf input = .ok source) (hj : source.dims = j :: rest) : k = j := by
  obtain ⟨shape, haccepts, rfl⟩ := addSlice_eq_ok h
  have hspans : g.Spans input (j :: rest) := ⟨source, hsource, hj.symm⟩
  have hwide : ¬ k < j :=
    hcrop _ mem_push_nodes _ rfl input List.mem_cons_self _ ((within_push _ _ _ _).spans hspans)
  cases haccepts with
  | slice hsource' _ _ _ hcheck _ =>
    obtain rfl := Except.ok.inj (hsource.symm.trans hsource')
    -- the check has the last image of the window inside
    rw [hj] at hcheck
    obtain ⟨hpos, -, hlast⟩ := checkSlice_eq_ok hcheck (j, 0, k, 1) List.mem_cons_self
    dsimp only at hpos hlast
    omega

end Graph

namespace Emit

variable {d d' : Draft}

/-- The source of a shortcut that does not crop has the batch of its input. -/
theorem shortcut_batch {input source t : TensorId} {a : Activation} {current other : Shape}
    (h : shortcut input source a d = .ok t d') (hcrop : d'.graph.Uncropped)
    (hcurrent : d.graph.shapeOf input = .ok current) (hother : d.graph.shapeOf source = .ok other) :
    current.dims.head? = other.dims.head? := by
  by_cases heq : current = other
  · rw [heq]
  · obtain ⟨_, _, hread, h⟩ := bind_eq_ok.mp h
    obtain ⟨hshape, rfl⟩ := query_eq_ok.mp hread
    obtain rfl := Except.ok.inj (hcurrent.symm.trans hshape)
    obtain ⟨_, _, hread', h⟩ := bind_eq_ok.mp h
    obtain ⟨hshape', rfl⟩ := query_eq_ok.mp hread'
    obtain rfl := Except.ok.inj (hother.symm.trans hshape')
    dsimp only at h
    rw [if_neg heq] at h
    obtain ⟨cropped, d₁, hslice, h⟩ := bind_eq_ok.mp h
    have hafter : Extends (sum cropped input >>= (activation · a)) :=
      (extends_closed.sum _ _).bind fun _ => extends_closed.activation _ _
    have hcrop₁ := hcrop.front (hafter _ _ _ h).within
    obtain ⟨g, hg, rfl⟩ := record_eq_ok.mp hslice
    obtain ⟨k, rest, hk⟩ := List.exists_cons_of_ne_nil current.nonempty
    obtain ⟨j, others, hj⟩ := List.exists_cons_of_ne_nil other.nonempty
    rw [Shape.rank, hk, List.length_cons, List.replicate_succ, List.replicate_succ] at hg
    rw [hk, hj, Graph.Uncropped.window hg hcrop₁ hother hj]
    rfl

end Emit

/-! ## The table and the state of the pass -/

/-- A row of the table for a **batch of one**. -/
def LayerRow.single (r : LayerRow) : LayerRow :=
  { r with input := 1 :: r.input.tail, output := 1 :: r.output.tail }

/-- The state of the pass for a batch of one. -/
def Progress.single (p : Progress) : Progress := { p with table := p.table.map LayerRow.single }

/-- What is known about the network for a batch of one. -/
def BuiltNetwork.single (b : BuiltNetwork) : BuiltNetwork :=
  { b with table := b.table.map LayerRow.single }

/-- The blueprint with a batch of one. -/
def Blueprint.single (b : Blueprint) : Blueprint := { b with input := { b.input with batch := 1 } }

/-- The model for a batch of one. -/
def Model.single (m : Model) : Model := ⟨m.blueprint.single, m.built.single, m.graph.single⟩

/-- The layer is a **constant**, whatever the input is. -/
def LayerKind.isImplicit : LayerKind → Bool
  | implicit _ => true
  | _ => false

/-- The layer enlarges its input, by a factor for each axis. -/
def LayerKind.isUpsample : LayerKind → Bool
  | upsample _ => true
  | _ => false

namespace Build

open Emit

variable {B : Nat → Prop} {all layers : List Layer} {b : Blueprint} {p p' : Progress} {l : Layer}
  {d d' : Draft}

/-! ## The pass -/

theorem labelled_splits {m : Emit TensorId} (text : String) (hm : Splits B d id m m) :
    Splits B d id (do return (text, ← m) : Emit (String × TensorId)) (do return (text, ← m)) :=
  .bind hm fun t _ _ hd₁ => .pure hd₁ (text, t)

/-- A layer that looks other layers up first. -/
theorem referenced_splits {α : Type} (hd : d.graph.Batched B) (r : Outcome α) (text : α → String)
    {m : α → Emit TensorId} (hm : ∀ x d₁, d₁.graph.Batched B → Splits B d₁ id (m x) (m x)) :
    Splits B d id (do
        let found ← Emit.lift r
        return (text found, ← m found) : Emit (String × TensorId))
      (do
        let found ← Emit.lift r
        return (text found, ← m found)) :=
  .bind (.check hd r) fun found _ _ hd₁ => labelled_splits (text found) (hm found _ hd₁)

/-- Where there are layers that scale every axis the batches are exact as scalars, and where there
are constants one of the batches is one. -/
structure Batches (B : Nat → Prop) (layers : List Layer) : Prop where
  exact : ∀ l ∈ layers, l.kind.isUpsample → ∀ k, B k → k ≤ 0x1000000
  one : ∀ l ∈ layers, l.kind.isImplicit → B 1

theorem Batches.tail {B : Nat → Prop} {l : Layer} {rest : List Layer} (h : Batches B (l :: rest)) :
    Batches B rest where
  exact l hl := h.exact l (List.mem_cons_of_mem _ hl)
  one l hl := h.one l (List.mem_cons_of_mem _ hl)

/-- No layer of another batch is cropped: there is only one batch, or no window crops the
axis of images. -/
def Whole (B : Nat → Prop) (g : Graph) : Prop := (∀ j k, B j → B k → j = k) ∨ g.Uncropped

theorem Whole.front {g g' : Graph} (h : Whole B g') (hfront : g.Within g') : Whole B g :=
  h.imp_right fun hcrop => hcrop.front hfront

theorem layer_splits (hB : Batches B layers) (hmem : l ∈ layers) (hd : d.graph.Batched B)
    (hl : ∀ source a, l.kind ≠ .shortcut source a) :
    Splits B d id (layer all p l) (layer all p l) := by
  unfold layer
  cases hkind : l.kind with
  | convolution | deconvolution => exact labelled_splits _ (convolution_splits hd _ _ _ _)
  | normalization => exact labelled_splits _ (normalization_splits hd _ _ _)
  | implicit =>
    have hone := hB.one l hmem (by rw [hkind]; rfl)
    exact labelled_splits _ (implicit_splits hd hone _ _)
  | shiftChannels => exact referenced_splits hd _ _ fun _ _ hd₁ => sum_splits hd₁ _ _
  | controlChannels => exact referenced_splits hd _ _ fun _ _ hd₁ => product_splits hd₁ _ _
  | shortcut source a => exact absurd hkind (hl source a)
  | sam => exact referenced_splits hd _ _ fun _ _ hd₁ => sam_splits hd₁ _ _ _
  | route => exact referenced_splits hd _ _ fun _ _ hd₁ => route_splits hd₁ _ _ _ _
  | upsample =>
    have hexact := hB.exact l hmem (by rw [hkind]; rfl)
    exact labelled_splits _ (upsample_splits hd hexact _ _)
  | maxPool => exact labelled_splits _ (maxPool_splits hd _ _ _)
  | averagePool => exact labelled_splits _ (averagePool_splits hd _)
  | reorg3d => exact labelled_splits _ (reorg3d_splits hd _ _)
  | reorg => exact labelled_splits _ (reorg_splits hd _ _ _)
  | head | dropout => exact .pure hd _

/-- **One layer** for a batch of one. -/
theorem layer_single (hB : Batches B layers) (hmem : l ∈ layers) (hd : d.graph.Batched B)
    {r : String × TensorId} (h : layer all p l d = .ok r d') (hwhole : Whole B d'.graph) :
    layer all p.single l d.single = .ok r d'.single ∧ d'.graph.Batched B := by
  change layer all p l d.single = _ ∧ _
  cases hkind : l.kind with
  | shortcut source a =>
    unfold layer at h ⊢
    rw [hkind] at h ⊢
    obtain ⟨found, _, hlift, h⟩ := bind_eq_ok.mp h
    obtain ⟨hlookup, rfl⟩ := lift_eq_ok.mp hlift
    have hbatch : ∀ current other, d.graph.shapeOf p.previous = .ok current →
        d.graph.shapeOf found.2 = .ok other → current.dims.head? = other.dims.head? := by
      intro current other hcurrent hother
      rcases hwhole with hsame | hcrop
      · obtain ⟨k, rest, hk, -, hbatch⟩ := hd.shapeOf hcurrent
        obtain ⟨j, others, hj, -, hbatch'⟩ := hd.shapeOf hother
        rw [hk, hj, hsame k j hbatch hbatch']
        rfl
      · exact shortcut_batch (labelled_eq_ok h) hcrop hcurrent hother
    obtain ⟨h', hd'⟩ := labelled_splits _ (shortcut_splits hd a hbatch) r d' h
    exact ⟨bind_eq_ok.mpr ⟨found, d.single, lift_eq_ok.mpr ⟨hlookup, rfl⟩, h'⟩, hd'⟩
  | _ => exact layer_splits hB hmem hd (fun source a h => by rw [hkind] at h; cases h) r d' h

theorem weightsTaken_splits (hd : d.graph.Batched B) : Splits B d id weightsTaken weightsTaken := by
  intro taken d' h
  cases h
  exact ⟨rfl, hd⟩

/-- A row at the end of the table. -/
theorem single_progress (outputs : LayerOutputs) (previous : TensorId) (heads : List Head)
    (headTensors : List TensorId) (table : List LayerRow) (row : LayerRow) :
    Progress.single ⟨outputs, previous, heads, headTensors, table ++ [row]⟩ =
      ⟨outputs, previous, heads, headTensors, table.map LayerRow.single ++ [row.single]⟩ := by
  rw [Progress.single, List.map_append]
  rfl

/-- A step whose layer goes on side by side. -/
theorem step_splits (hd : d.graph.Batched B)
    (hlayer : l.kind.isHead = false → Splits B d id (layer all p l) (layer all p.single l)) :
    Splits B d Progress.single (step all p l) (step all p.single l) := by
  rcases hl : l.kind.isHead with _ | _
  · rw [step_of_isHead hl, step_of_isHead hl]
    refine .bind (.shapeOf hd _) fun source d₁ hread _ => ?_
    obtain ⟨-, rfl⟩ := query_eq_ok.mp hread
    refine .bind (hlayer hl) fun r d₂ _ hd₂ => .bind (.shapeOf hd₂ _) fun output d₃ _ hd₃ =>
      .bind (weightsTaken_splits hd₃) fun taken d₄ _ hd₄ => ?_
    have hrow := single_progress (p.outputs.push r.2) r.2 p.heads p.headTensors p.table
      ⟨l.index, r.1, source.dims, output.dims, taken⟩
    exact hrow ▸ .pure hd₄ _
  · unfold step
    cases hkind : l.kind with
    | head kind place =>
      -- a head is placed by its channels and its grid, not by the batch
      refine .bind (.shapeOf hd _) fun source d₁ _ hd₁ => .bind
        (.lift hd₁ fun s hs => Shape.nchw_single hs) fun s d₂ _ hd₂ => .bind
          (.check hd₂ (placeHead p.heads kind place l.block s)) fun heads d₃ _ hd₃ => .bind
            (weightsTaken_splits hd₃) fun taken d₄ _ hd₄ => ?_
      have hrow := single_progress (p.outputs.push p.previous) p.previous heads
        (p.headTensors ++ [p.previous]) p.table
          ⟨l.index, kind.name, source.dims, source.dims, taken⟩
      exact hrow ▸ .pure hd₄ _
    | _ =>
      rw [hkind] at hl
      cases hl

/-- **One step** of the pass. -/
theorem step_single (hB : Batches B layers) (hmem : l ∈ layers) (hd : d.graph.Batched B)
    (h : step all p l d = .ok p' d') (hwhole : Whole B d'.graph) :
    step all p.single l d.single = .ok p'.single d'.single ∧ d'.graph.Batched B := by
  refine step_splits hd (fun hl r e hr => ?_) p' d' h
  obtain ⟨_, _, -, -, -, -, ⟨_, _, _, hkind, -⟩ | ⟨-, label, hlayer, -⟩⟩ := step_eq_ok h
  · rw [hkind] at hl
    cases hl
  · rw [hlayer] at hr
    cases hr
    exact layer_single hB hmem hd hlayer hwhole

/-- **All layers**. -/
theorem pass_single (hB : Batches B layers) (hd : d.graph.Batched B)
    (h : pass all p layers d = .ok p' d') (hwhole : Whole B d'.graph) :
    pass all p.single layers d.single = .ok p'.single d'.single ∧ d'.graph.Batched B := by
  induction layers generalizing p d with
  | nil =>
    obtain ⟨rfl, rfl⟩ := pure_eq_ok.mp h
    exact ⟨rfl, hd⟩
  | cons l rest ih =>
    obtain ⟨p₁, d₁, hstep, hrest⟩ := bind_eq_ok.mp h
    have hwhole₁ := hwhole.front (pass_extends rest p₁ _ _ _ hrest).within
    obtain ⟨hstep', hd₁⟩ := step_single hB List.mem_cons_self hd hstep hwhole₁
    obtain ⟨hrest', hd'⟩ := ih hB.tail hd₁ hrest
    exact ⟨bind_eq_ok.mpr ⟨_, _, hstep', hrest'⟩, hd'⟩

/-! ## Whole networks -/

theorem forM_splits {α : Type} {f : α → Emit Unit}
    (h : ∀ a d, d.graph.Batched B → Splits B d id (f a) (f a)) (hd : d.graph.Batched B)
    (as : List α) :
    Splits B d id (as.forM f) (as.forM f) := by
  induction as generalizing d with
  | nil => exact .pure hd ()
  | cons a rest ih => exact .bind (h a d hd) fun _ _ _ hd₁ => ih hd₁

theorem mark_splits (hd : d.graph.Batched B) (t : TensorId) (name : String) :
    Splits B d id (record fun g => (g.markOutput t name).map (·, ()))
      (record fun g => (g.markOutput t name).map (·, ())) :=
  .record (Graph.markOutput_single hd t name)

theorem markDecoded_splits (hd : d.graph.Batched B) (ids : List TensorId) :
    Splits B d id (markDecoded ids) (markDecoded ids) := by
  unfold markDecoded
  split
  · exact .bind (forM_splits (fun _ _ hd₁ => mark_splits hd₁ _ _) hd _) fun _ _ _ hd₁ => .pure hd₁ _
  · exact .check hd _

/-- **After the pass**. -/
theorem finish_splits (hd : d.graph.Batched B) (b : Blueprint) (p : Progress) :
    Splits B d id (finish b p) (finish b.single p.single) := by
  change Splits B d id _ (finish b p)
  unfold finish
  split
  · exact .bind (mark_splits hd _ _) fun _ _ _ hd₁ => .pure hd₁ _
  · exact .bind (.check hd _) fun d _ _ hd₁ => .bind (.record (Graph.addDecode_single hd₁ _ d))
      fun ids _ _ hd₂ => markDecoded_splits hd₂ ids

theorem close_splits (hd : d.graph.Batched B) (b : Blueprint) (input : TensorId) (p : Progress) :
    Splits B d BuiltNetwork.single (close b input p) (close b.single input p.single) := by
  unfold close
  change Splits B d BuiltNetwork.single _ (if p.headTensors.length ≠ b.headLayerCount then _ else _)
  dsimp only
  split
  · intro built d' h
    obtain ⟨_, _, hthrow, -⟩ := bind_eq_ok.mp h
    cases hthrow
  · exact .bind (finish_splits hd b p) fun _ _ _ hd₁ => .bind (weightsTaken_splits hd₁)
      fun _ _ _ hd₂ => .pure hd₂ _

/-- What is recorded after the pass leaves the graph of the pass in front. -/
theorem close_within {input : TensorId} {built : BuiltNetwork}
    (h : close b input p d = .ok built d') :
    d.graph.Within d'.graph := by
  obtain ⟨outputs, hfinish, -⟩ := close_eq_ok h
  rcases finish_eq_ok hfinish with ⟨-, -, rfl⟩ | ⟨-, shapes, -, -, -, rfl⟩
  · exact ⟨List.prefix_rfl, List.prefix_rfl⟩
  · have hfront := Graph.within_push d.graph (.decode (decoderOf b p)) p.headTensors shapes
    exact ⟨hfront.nodes, hfront.tensors⟩

/-- Nothing has been recorded at the start. -/
theorem start_single (weights : WeightBuffer) :
    Draft.single { cursor := .start weights } = { cursor := .start weights } := by
  simp [Draft.single, Graph.single, Graph.empty]

/-- **The whole network** for a batch of one. -/
theorem network_single {weights : WeightBuffer} {built : BuiltNetwork} (hB : Batches B b.layers)
    (hbatch : B b.input.batch) (h : network b { cursor := .start weights } = .ok built d')
    (hwhole : Whole B d'.graph) :
    network b.single { cursor := .start weights } = .ok built.single d'.single ∧
      d'.graph.Batched B := by
  obtain ⟨input, p, d₁, hbody, hall, hclose⟩ := network_eq_ok.mp h
  obtain ⟨shape, d₀, hshape, hinput, hpass⟩ := body_eq_ok.mp hbody
  have hempty : Graph.empty.Batched B :=
    ⟨fun _ he => absurd he List.not_mem_nil, fun _ hnode => absurd hnode List.not_mem_nil⟩
  have hdeclared := Graph.addInput_single hempty inputName (Shape.ofDims_eq_ok.mp hshape) hbatch
  obtain ⟨hinput', hd₀⟩ := Splits.record hdeclared _ _ hinput
  rw [start_single] at hinput'
  obtain ⟨hpass', hd₁⟩ := pass_single hB hd₀ hpass (hwhole.front (close_within hclose))
  obtain ⟨hclose', hd'⟩ := close_splits hd₁ b input p built d' hclose
  refine ⟨network_eq_ok.mpr ⟨input, p.single, d₁.single, ?_, hall, hclose'⟩, hd'⟩
  exact body_eq_ok.mpr ⟨shape.single, d₀.single, Shape.ofDims_single hshape, hinput', hpass'⟩

end Build

namespace Model

/-- **Compiling for a batch of one**: a network that compiles for one batch size, without
cropping a layer of another batch, compiles for a batch of one with the same weights, to
the model for a batch of one. -/
theorem compile_single {B : Nat → Prop} {b : Blueprint} {weights : WeightBuffer} {m : Model}
    (hB : Build.Batches B b.layers) (hbatch : B b.input.batch) (h : compile b weights = .ok m)
    (hwhole : Build.Whole B m.graph) :
    compile b.single weights = .ok m.single ∧ m.graph.Batched B := by
  unfold compile at h ⊢
  split at h
  · next built d hnetwork =>
    obtain rfl := Except.ok.inj h
    obtain ⟨hsingle, hbatched⟩ := Build.network_single hB hbatch hnetwork hwhole
    rw [hsingle]
    exact ⟨rfl, hbatched⟩
  · cases h

end Model

end GridNet
