import GridNet.Proofs.BatchBuild
import GridNet.Proofs.Running

/-!
# The batch size changes nothing but the batch

A network that compiles for batches of `n` images compiles for single images as well, with the same
weights, and what it makes of an image in a batch is what it makes of the image alone. An image's
boxes, scores and classes hang neither on the other images of the batch nor on its place among them.

* `Model.SameButBatch` — two models that differ in the axis of images only.
* `Tensor.HoldsAt` — an output of a batch, and the output of one of its images.
* `Blueprint.batch_independent` — the two models, and their runs.
-/

namespace GridNet

/-- The second model is the first one with a **batch of one**: the same layers with the same
weights, and the same extents behind the axis of images. -/
structure Model.SameButBatch (m m' : Model) : Prop where
  layers : m'.built.table.map (fun r => (r.index, r.label, r.weightsTaken)) =
    m.built.table.map fun r => (r.index, r.label, r.weightsTaken)
  extents : m'.built.table.map (fun r => (r.input, r.output)) =
    m.built.table.map fun r => (1 :: r.input.tail, 1 :: r.output.tail)
  shapes : m'.graph.tensors.toList.map (·.shape.dims) =
    m.graph.tensors.toList.map fun e => 1 :: e.shape.dims.tail

/-- An output of a batch of `n` **holds at place `i`** the output of one image, under the same name;
an output that is no batch of `n` is the output of this image. -/
def Tensor.HoldsAt (n i : Nat) (output single : String × Tensor) : Prop :=
  single.1 = output.1 ∧ (output.2.extent 0 = n → single.2 = output.2.member i) ∧
    (output.2.extent 0 ≠ n → single.2 = output.2)

/-- Two outputs of batches of `n` are **the same at places `i` and `j`**, and outputs that are no
batches of `n` are the same. -/
def Tensor.SameAt (n i j : Nat) (output output' : String × Tensor) : Prop :=
  output'.1 = output.1 ∧
    (output.2.extent 0 = n → output'.2.extent 0 = n ∧ output'.2.member j = output.2.member i) ∧
    (output.2.extent 0 ≠ n → output'.2 = output.2)

/-- Both hold the outputs of one image. -/
theorem Tensor.HoldsAt.sameAt {n i j : Nat} {output output' single : String × Tensor}
    (h : HoldsAt n i output single) (h' : HoldsAt n j output' single)
    (hdims : output'.2.dims = output.2.dims) : SameAt n i j output output' := by
  have hextent : output'.2.extent 0 = output.2.extent 0 := by rw [extent, extent, hdims]
  obtain ⟨hname, hbatch, hone⟩ := h
  obtain ⟨hname', hbatch', hone'⟩ := h'
  rw [hextent] at hbatch' hone'
  refine ⟨hname'.symm.trans hname, fun hn => ⟨hextent.trans hn, ?_⟩, fun hn => ?_⟩
  · exact (hbatch' hn).symm.trans (hbatch hn)
  · exact (hone' hn).symm.trans (hone hn)

theorem Reads.lt_length {vs : List Tensor} {ids : List TensorId} {values : List Tensor}
    (h : Reads vs ids values) : ∀ t ∈ ids, t < vs.length := by
  intro t ht
  obtain ⟨i, hi, rfl⟩ := List.getElem_of_mem ht
  exact (List.getElem?_eq_some_iff.mp ((List.forall₂_iff_get.mp h).2 i hi (h.length_eq ▸ hi))).1

namespace Model

variable {b : Blueprint} {weights : WeightBuffer} {m : Model} {n : Nat} {x : Tensor}

theorem single_sameButBatch (m : Model) : m.SameButBatch m.single where
  layers := by
    rw [single, BuiltNetwork.single, List.map_map]
    rfl
  extents := by
    rw [single, BuiltNetwork.single, List.map_map]
    rfl
  shapes := by
    rw [single, Graph.single_tensors, List.map_map]
    rfl

theorem blueprint_of_compile (h : compile b weights = .ok m) : m.blueprint = b := by
  unfold compile at h
  split at h
  · exact (Except.ok.inj h) ▸ rfl
  · cases h

/-- The graph of a compiled model has **values for all its tensors** on every input of its
extents. -/
theorem valued_of_checked (hb : b.Checked) (h : compile b weights = .ok m)
    (hsizes : m.graph.WithinSizes) (hx : x.dims = m.inputDims) :
    ∃ vs, m.graph.WellFormed ∧ m.graph.inputs = [(inputName, 0)] ∧
      m.graph.Valued [(inputName, x)] vs := by
  obtain ⟨G, names, vs, values, hgraph, hreachable, hinputs, -, hv, hvalues, -⟩ :=
    compile_values hb h hsizes hx
  have hnames : ∀ entry ∈ names, entry.2 < G.tensors.size := fun entry hentry =>
    hv.length_eq ▸ hvalues.lt_length _ (List.mem_map_of_mem hentry)
  rw [hgraph]
  exact ⟨vs, hreachable.wellFormed.named hnames, hinputs, hv.named names⟩

/-- **Runs side by side**: the run on a batch, and the run on one of its images. -/
theorem run_single (hb : b.Checked) (h : compile b weights = .ok m) (hsizes : m.graph.WithinSizes)
    (hbatched : m.graph.Batched fun k => k = b.input.batch ∨ k = 1)
    (hx : x.dims = m.inputDims) {i : Nat} (hi : i < b.input.batch) :
    ∃ outputs single, (m.run x).outputs = .ok outputs ∧
      (m.single.run (x.member i)).outputs = .ok single ∧
      List.Forall₂ (Tensor.HoldsAt b.input.batch i) outputs single ∧
      outputs.map (·.2.dims) = m.graph.outputExtents := by
  obtain ⟨vs, hg, hinputs, hv⟩ := valued_of_checked hb h hsizes hx
  obtain ⟨outputs, houtputs, hmem, hextents, hsingle⟩ := hv.runNamed_single hg hbatched i
  have hdims : x.dims = [b.input.batch, b.input.channels, b.input.height, b.input.width] := by
    rw [hx, inputDims, blueprint_of_compile h]
  have hmember : x.single i = x.member i := by
    rw [Tensor.single, Tensor.extent_zero hdims, Nat.mod_eq_of_lt hi]
  refine ⟨outputs, outputs.map fun o => (o.1, o.2.single i), ?_, ?_,
    List.forall₂_map_right_iff.mpr (List.forall₂_same.mpr fun o ho => ?_), hextents⟩
  · rw [run, if_pos hx, Graph.run, hinputs]
    exact houtputs
  · have hx' : (x.member i).dims = m.single.inputDims := by
      rw [Tensor.member, inputDims, single, blueprint_of_compile h, hdims]
      rfl
    rw [run, if_pos hx', Graph.run, show m.single.graph.inputs = _ from hinputs, ← hmember]
    exact hsingle
  · obtain ⟨t, ht⟩ := List.mem_iff_getElem?.mp (hmem o ho)
    obtain ⟨s, hs, hd⟩ := hv.shapeOf ht
    obtain ⟨k, rest, hk, -, hbatch⟩ := hbatched.shapeOf hs
    rw [hk] at hd
    refine ⟨rfl, fun hextent => ?_, fun hextent => ?_⟩
    · change o.2.member (i % o.2.extent 0) = _
      rw [hextent, Nat.mod_eq_of_lt hi]
    · rw [Tensor.extent_zero hd] at hextent
      obtain rfl := hbatch.resolve_left hextent
      exact Tensor.single_of_one hd i

end Model

namespace Blueprint

variable {blocks : List Block} {name : String} {b b' : Blueprint}
  {weights : WeightBuffer} {m : Model}
  {n : Nat}

/-- **The batch size changes nothing but the batch.** Take a blueprint that has been read from
blocks, and a batch size up to `2 ^ 24` with which it compiles, such that all sizes are in range and
no window crops the axis of images. With a batch of one it compiles as well, and the two models
differ in the axis of images only. A run on a batch holds at each place what a run on this image
alone gives. So two images that are the same have the same outputs, in whatever batch they are and
at whatever place. -/
theorem batch_independent (hread : ofBlocks blocks name = .ok b) (hn : n ≤ 2 ^ 24)
    (hbatch : b.withBatch (some n) = .ok b') (hcompiled : Model.compile b' weights = .ok m)
    (hsizes : m.graph.WithinSizes) (hcrop : m.graph.Uncropped) :
    ∃ b₁ m₁, b.withBatch (some 1) = .ok b₁ ∧ Model.compile b₁ weights = .ok m₁ ∧ m.SameButBatch m₁ ∧
      (∀ x : Tensor, x.dims = m.inputDims → ∀ i < n, ∃ outputs single,
        (m.run x).outputs = .ok outputs ∧ (m₁.run (x.member i)).outputs = .ok single ∧
          List.Forall₂ (Tensor.HoldsAt n i) outputs single) ∧
      ∀ x y : Tensor, x.dims = m.inputDims → y.dims = m.inputDims → ∀ i < n, ∀ j < n,
        x.member i = y.member j → ∃ outputs outputs', (m.run x).outputs = .ok outputs ∧
          (m.run y).outputs = .ok outputs' ∧
          List.Forall₂ (Tensor.SameAt n i j) outputs outputs' := by
  have hchecked := (checked_of_ofBlocks hread).withBatch hbatch
  obtain ⟨_, -, hset⟩ := Outcome.bind_eq_ok.mp hbatch
  obtain rfl := Outcome.pure_eq_ok.mp hset
  have hbatches : Build.Batches (fun k => k = n ∨ k = 1) b.layers :=
    ⟨fun _ _ _ k hk => hk.elim (fun h => h ▸ hn) fun h => h ▸ (by decide), fun _ _ _ => .inr rfl⟩
  obtain ⟨hsingle, hbatched⟩ := Model.compile_single (b := { b with input.batch := n }) hbatches
    (.inl rfl) hcompiled (.inr hcrop)
  have hrun := fun (x : Tensor) hx (i : Nat) hi =>
    Model.run_single (x := x) (i := i) hchecked hcompiled hsizes hbatched hx hi
  refine ⟨_, m.single, rfl, hsingle, m.single_sameButBatch, fun x hx i hi => ?_,
    fun x y hx hy i hi j hj hsame => ?_⟩
  · obtain ⟨outputs, single, houtputs, hone, hholds, -⟩ := hrun x hx i hi
    exact ⟨outputs, single, houtputs, hone, hholds⟩
  · obtain ⟨outputs, single, houtputs, hone, hholds, hdims⟩ := hrun x hx i hi
    obtain ⟨outputs', single', houtputs', hone', hholds', hdims'⟩ := hrun y hy j hj
    rw [hsame, hone'] at hone
    obtain rfl := Except.ok.inj hone
    refine ⟨outputs, outputs', houtputs, houtputs',
      List.forall₂_iff_get.mpr ⟨?_, fun k hk hk' => ?_⟩⟩
    · rw [hholds.length_eq, hholds'.length_eq]
    · have hk₁ : k < single'.length := hholds.length_eq ▸ hk
      refine ((List.forall₂_iff_get.mp hholds).2 k hk hk₁).sameAt
        ((List.forall₂_iff_get.mp hholds').2 k hk' hk₁) ?_
      have hget := congrArg (·[k]?) (hdims'.trans hdims.symm)
      simpa [hk, hk'] using hget

theorem batch_independent_spotBlueprint :
    ∃ m m₁ outputs single, Model.compile (spotBlueprint 2) #[] = .ok m ∧
      Model.compile (spotBlueprint 1) #[] = .ok m₁ ∧ m.SameButBatch m₁ ∧
      (m.run (Tensor.zeros [2, 6, 1, 1])).outputs = .ok outputs ∧
      (m₁.run ((Tensor.zeros [2, 6, 1, 1]).member 1)).outputs = .ok single ∧
      List.Forall₂ (Tensor.HoldsAt 2 1) outputs single := by
  obtain ⟨m, hcompiled, hdims, hsizes, hnodes⟩ := compile_spotBlueprint
  have hcrop : m.graph.Uncropped := by
    intro node hnode w hw
    rw [hnodes] at hnode
    rcases List.mem_pair.mp hnode with rfl | rfl <;> cases hw
  obtain ⟨b₁, m₁, hone, hcompiled₁, hsame, hruns, -⟩ :=
    batch_independent ofBlocks_spotBlocks (by decide) withBatch_spotBlueprint hcompiled hsizes hcrop
  obtain rfl : spotBlueprint 1 = b₁ := Except.ok.inj hone
  obtain ⟨outputs, single, hrun, hrun₁, hholds⟩ :=
    hruns (Tensor.zeros [2, 6, 1, 1]) hdims.symm 1 (by decide)
  exact ⟨m, m₁, outputs, single, hcompiled, hcompiled₁, hsame, hrun, hrun₁, hholds⟩

end Blueprint

end GridNet
