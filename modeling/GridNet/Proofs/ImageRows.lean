import GridNet.Proofs.AlikeRuns
import GridNet.Proofs.ServedImages

/-!
# The rows of one image

What a run says about one image of a batch hangs on this image alone: not on the other images, not
on its place among them, and not on how many there are.

* `RawRow.ofOutputs_member` — the rows of an image are those of its member of the outputs.
* `Model.Decodes` — a model with decoded heads, and its runs.
* `Model.rows`, `Model.rows_of_member` — the rows of an image hang on the image only.
-/

namespace GridNet

/-! ## Rows of outputs -/

namespace RawRow

variable {boxes scores classes t : Tensor} {images rows index : Nat}

theorem rowCount_eq_ok {width : Nat} {name : String} (h : rowCount t index width name = .ok rows) :
    ∃ images, t.dims = [images, rows, width] ∧ index < images := by
  unfold rowCount at h
  split at h
  · next images found w hdims =>
    split at h
    · next hfound =>
      obtain rfl := Except.ok.inj h
      obtain ⟨rfl, hindex⟩ := hfound
      exact ⟨images, hdims, hindex⟩
    · cases h
  · cases h

/-- Outputs in which an image is found have as many scores and classes as boxes. -/
theorem dims_of_ofOutputs {raw : List RawRow} (h : ofOutputs boxes scores classes index = .ok raw) :
    ∃ rows n n' n'', boxes.dims = [n, rows, 4] ∧ scores.dims = [n', rows, 1] ∧
      classes.dims = [n'', rows, 1] := by
  unfold ofOutputs at h
  obtain ⟨rows, hboxes, h⟩ := Outcome.bind_eq_ok.mp h
  obtain ⟨scoreRows, hscores, h⟩ := Outcome.bind_eq_ok.mp h
  obtain ⟨classRows, hclasses, h⟩ := Outcome.bind_eq_ok.mp h
  obtain ⟨_, hsame, -⟩ := Outcome.bind_eq_ok.mp h
  have hsame := Outcome.ensure_eq_ok.mp hsame
  simp only [Bool.and_eq_true, decide_eq_true_eq] at hsame
  obtain ⟨rfl, rfl⟩ := hsame
  obtain ⟨n, hn, -⟩ := rowCount_eq_ok hboxes
  obtain ⟨n', hn', -⟩ := rowCount_eq_ok hscores
  obtain ⟨n'', hn'', -⟩ := rowCount_eq_ok hclasses
  exact ⟨_, n, n', n'', hn, hn', hn''⟩

/-- Row number `k` of three outputs. -/
def nth (boxes scores classes : Tensor) (k : Nat) : RawRow where
  first := boxes.item (4 * k)
  second := boxes.item (4 * k + 1)
  third := boxes.item (4 * k + 2)
  fourth := boxes.item (4 * k + 3)
  score := scores.item k
  label := classes.item k

/-- An image that is found has the rows behind those of the images in front of it. -/
theorem ofOutputs_of_dims (hboxes : boxes.dims = [images, rows, 4])
    (hscores : scores.dims = [images, rows, 1]) (hclasses : classes.dims = [images, rows, 1])
    (hindex : index < images) : ofOutputs boxes scores classes index =
      .ok ((List.range rows).map fun row => nth boxes scores classes (index * rows + row)) := by
  unfold ofOutputs
  rw [rowCount_of_dims hboxes, rowCount_of_dims hscores, rowCount_of_dims hclasses, if_pos hindex,
    if_pos hindex, if_pos hindex]
  simp only [Outcome.ok_bind, decide_true, Bool.and_self, ensure, if_true]
  rfl

/-- **The rows of an image** are those of its member of the outputs. -/
theorem ofOutputs_member (hboxes : boxes.dims = [images, rows, 4])
    (hscores : scores.dims = [images, rows, 1]) (hclasses : classes.dims = [images, rows, 1])
    (hindex : index < images) :
    ofOutputs (boxes.member index) (scores.member index) (classes.member index) 0 =
      ofOutputs boxes scores classes index := by
  rw [ofOutputs_of_dims hboxes hscores hclasses hindex, ofOutputs_of_dims
    (Tensor.member_dims hboxes index) (Tensor.member_dims hscores index)
    (Tensor.member_dims hclasses index) Nat.one_pos]
  refine congrArg Except.ok (List.map_congr_left fun row hrow => ?_)
  have hlt : row < rows := List.mem_range.mp hrow
  have hbox : ∀ part < 4, (boxes.member index).item (4 * row + part) =
      boxes.item (4 * (index * rows + row) + part) := by
    intro part hpart
    rw [Tensor.item_member hboxes index (by simp only [volume]; omega)]
    congr 1
    simp only [volume]
    ring
  have hone : ∀ {t : Tensor}, t.dims = [images, rows, 1] →
      (t.member index).item row = t.item (index * rows + row) := by
    intro t ht
    rw [Tensor.item_member ht index (by simpa only [volume, Nat.mul_one] using hlt)]
    simp only [volume, Nat.mul_one]
  rw [Nat.zero_mul, Nat.zero_add, nth, nth, hbox 1 (by decide), hbox 2 (by decide),
    hbox 3 (by decide), hone hscores, hone hclasses]
  exact congrArg (RawRow.mk · _ _ _ _ _) (hbox 0 (by decide))

end RawRow

/-! ## Runs of decoded networks -/

theorem Graph.Valued.run_decoded {g : Graph} {feeds : Feeds} {vs : List Tensor} {first : TensorId}
    (hv : g.Valued feeds vs) (hg : g.WellFormed)
    (houtputs : g.outputs = decodedNames.zip [first, first + 1, first + 2]) :
    ∃ boxes scores classes, (g.runNamed feeds).outputs =
      .ok [("boxes", boxes), ("classes", classes), ("scores", scores)] := by
  have hids : ∀ t ∈ g.outputs.map (·.2), t < vs.length := by
    intro t ht
    obtain ⟨entry, hentry, rfl⟩ := List.mem_map.mp ht
    exact hv.length_eq ▸ hg.marked entry hentry
  obtain ⟨values, hvalues⟩ := Reads.exists_of_lt hids
  have hnames : g.outputs.map (·.1) = decodedNames := by
    rw [houtputs, List.map_fst_zip (by simp [decodedNames])]
  obtain ⟨boxes, scores, classes, rfl⟩ : ∃ boxes scores classes,
    values = [boxes, scores, classes] := by
    refine List.length_eq_three.mp ?_
    rw [← hvalues.length_eq, List.length_map, houtputs]
    rfl
  refine ⟨boxes, scores, classes, ?_⟩
  rw [hv.runNamed hg, Graph.namedValues_eq hvalues, hnames, Build.sorted_decodedNames]

namespace Model

variable {b : Blueprint} {weights : WeightBuffer} {m : Model} {x y : Tensor} {i j : Nat}

/-- A model that **keeps images apart**: it decodes heads, no node mixes the images of a batch, and
its outputs are batches of the size of the network. -/
structure KeepsApart (m : Model) : Prop where
  wellFormed : m.graph.WellFormed
  inputs : m.graph.inputs = [(inputName, 0)]
  outputs : ∃ first, m.graph.outputs = decodedNames.zip [first, first + 1, first + 2]
  batched : m.graph.Batched fun k => k = m.blueprint.input.batch ∨ k = 1
  leading : ∀ dims ∈ m.graph.outputExtents, dims.head? = some m.blueprint.input.batch

/-- A compiled network with heads has its decode node behind the pass over the layers. -/
theorem decoded_of_compile (h : compile b weights = .ok m) (hheads : m.built.isDecoded) :
    m.graph.WellFormed ∧ m.graph.inputs = [(inputName, 0)] ∧ 0 < b.input.batch ∧
      ∃ first, m.graph.outputs = decodedNames.zip [first, first + 1, first + 2] := by
  unfold compile at h
  split at h
  · next built dend hnetwork =>
    obtain rfl := (Except.ok.inj h).symm
    obtain ⟨input, p, dpass, hbody, -, hclose⟩ := Build.network_eq_ok.mp hnetwork
    obtain ⟨shape, d₀, hshape, hdeclared, hpass⟩ := Build.body_eq_ok.mp hbody
    obtain ⟨rfl, rfl⟩ := Build.start_eq_ok hdeclared
    obtain ⟨marked, hfinish, -, hmarked, -⟩ := Build.close_eq_ok hclose
    have hgrows := Build.pass_extends _ _ _ _ _ hpass
    obtain ⟨hinputs, houtputs⟩ := hgrows.named
    have hbatch : 0 < b.input.batch :=
      shape.positive _ (Shape.ofDims_eq_ok.mp hshape ▸ List.mem_cons_self)
    rcases Build.finish_eq_ok hfinish with ⟨-, rfl, -⟩ | ⟨-, shapes, hthree, haccepts, -, rfl⟩
    · rw [BuiltNetwork.isDecoded, hmarked] at hheads
      cases hheads
    · have hids : (dpass.graph.push (.decode (Build.decoderOf b p)) p.headTensors shapes).2 =
          [dpass.graph.tensors.size, dpass.graph.tensors.size + 1,
            dpass.graph.tensors.size + 2] := by
        rw [Graph.push, hthree]
        rfl
      have hreachable := (hgrows.reachable (Build.startGraph_reachable shape)).node haccepts
      refine ⟨hreachable.wellFormed.named fun entry hentry => ?_, hinputs, hbatch,
        dpass.graph.tensors.size, ?_⟩
      · have hmem := (List.of_mem_zip hentry).2
        rw [hids] at hmem
        rw [Graph.push_tensors_size, hthree]
        have hnew : ∀ k, ∀ t ∈ [k, k + 1, k + 2], t < k + 3 := by simp
        exact hnew _ _ hmem
      · rw [hids]
        change (dpass.graph.outputs ++ _) = _
        rw [houtputs]
        rfl
  · cases h

/-- **A compiled network with heads keeps images apart**, if no window crops the axis of images, the
batch size is exact as a scalar and the recorded outputs are batches of this size. -/
theorem keepsApart_of_compile (h : compile b weights = .ok m) (hheads : m.built.isDecoded)
    (hcrop : m.graph.Uncropped) (hbatch : b.input.batch ≤ 2 ^ 24)
    (hleading : ∀ dims ∈ m.graph.outputExtents, dims.head? = some b.input.batch) :
    m.KeepsApart := by
  obtain ⟨hg, hinputs, -, houtputs⟩ := decoded_of_compile h hheads
  have hB : Build.Batches (fun k => k = b.input.batch ∨ k = 1) b.layers := by
    refine ⟨fun _ _ _ k hk => ?_, fun _ _ _ => .inr rfl⟩
    rcases hk with rfl | rfl
    · exact hbatch
    · decide
  obtain ⟨-, hbatched⟩ := compile_single hB (.inl rfl) h (.inr hcrop)
  obtain rfl := blueprint_of_compile h
  exact ⟨hg, hinputs, houtputs, hbatched, hleading⟩

/-- A run that succeeds has a valuation of the graph. -/
theorem KeepsApart.valued (hm : m.KeepsApart) {outputs : List (String × Tensor)}
    (h : (m.run x).outputs = .ok outputs) :
    x.dims = m.inputDims ∧ ∃ vs, m.graph.Valued [(inputName, x)] vs := by
  unfold run at h
  split at h
  · next hx =>
    rw [Graph.run, hm.inputs] at h
    exact ⟨hx, (Graph.runNamed_isOk_iff hm.wellFormed).mp ⟨outputs, h⟩⟩
  · cases h

/-- The outputs of a run are batches of the size of the network, and their members at a place are
what the network for single images makes of the image there. -/
theorem KeepsApart.run_eq (hm : m.KeepsApart) (hx : x.dims = m.inputDims) {vs : List Tensor}
    (hv : m.graph.Valued [(inputName, x)] vs) (hi : i < m.blueprint.input.batch) :
    ∃ boxes scores classes : Tensor,
      (m.run x).outputs = .ok [("boxes", boxes), ("classes", classes), ("scores", scores)] ∧
      [boxes, classes, scores].map (·.dims) = m.graph.outputExtents ∧
      (∀ t ∈ [boxes, classes, scores], t.extent 0 = m.blueprint.input.batch) ∧
      (m.graph.single.runNamed [(inputName, x.member i)]).outputs =
        .ok [("boxes", boxes.member i), ("classes", classes.member i),
          ("scores", scores.member i)] := by
  obtain ⟨first, houtputs⟩ := hm.outputs
  obtain ⟨boxes, scores, classes, hrun⟩ := hv.run_decoded hm.wellFormed houtputs
  obtain ⟨outputs, hrun', -, hextents, hsingle⟩ := hv.runNamed_single hm.wellFormed hm.batched i
  obtain rfl := Except.ok.inj (hrun'.symm.trans hrun)
  have hleading : ∀ t ∈ [boxes, classes, scores], t.extent 0 = m.blueprint.input.batch := by
    intro t ht
    have hmem : t.dims ∈ m.graph.outputExtents := by
      rw [← hextents]
      exact List.mem_map_of_mem (f := (·.dims)) ht
    rw [Tensor.extent, ← List.head?_eq_getElem?, hm.leading _ hmem, Option.getD_some]
  have hmember : ∀ t : Tensor, t.extent 0 = m.blueprint.input.batch → t.single i = t.member i := by
    intro t ht
    rw [Tensor.single, ht, Nat.mod_eq_of_lt hi]
  have hinput : x.single i = x.member i := hmember x (by rw [Tensor.extent, hx]; rfl)
  refine ⟨boxes, scores, classes, ?_, hextents, hleading, ?_⟩
  · rw [run, if_pos hx, Graph.run, hm.inputs]
    exact hrun
  · rw [← hinput, ← hmember boxes (hleading _ (by simp)), ← hmember classes (hleading _ (by simp)),
      ← hmember scores (hleading _ (by simp))]
    exact hsingle

/-- The rows that a run has for image `index` of a batch. -/
def rows (m : Model) (x : Tensor) (index : Nat) : Outcome (List RawRow) := do
  let outputs ← (m.run x).outputs
  let boxes ← requireOutput outputs "boxes"
  let scores ← requireOutput outputs "scores"
  let classes ← requireOutput outputs "classes"
  RawRow.ofOutputs boxes scores classes index

theorem rows_eq {boxes scores classes : Tensor}
    (h : (m.run x).outputs = .ok [("boxes", boxes), ("classes", classes), ("scores", scores)])
    (index : Nat) : m.rows x index = RawRow.ofOutputs boxes scores classes index := by
  unfold rows
  rw [h]
  rfl

/-- **The rows of an image hang on the image only**: another batch that has the same image, at
whatever place, has the same rows for it. -/
theorem KeepsApart.rows_of_member (hm : m.KeepsApart) (hi : i < m.blueprint.input.batch)
    (hj : j < m.blueprint.input.batch) (hdims : y.dims = x.dims) (hmember : y.member j = x.member i)
    {raw : List RawRow} (h : m.rows x i = .ok raw) : m.rows y j = .ok raw := by
  obtain ⟨outputs, hrun, -⟩ := Outcome.bind_eq_ok.mp h
  obtain ⟨hx, vs, hv⟩ := hm.valued hrun
  obtain ⟨vs', hv'⟩ := hv.alike hm.wellFormed (Feeds.alike_singleton inputName hdims)
  obtain ⟨boxes, scores, classes, houtputs, hextents, hleading, hsingle⟩ := hm.run_eq hx hv hi
  obtain ⟨boxes', scores', classes', houtputs', hextents', -, hsingle'⟩ :=
    hm.run_eq (hdims.trans hx) hv' hj
  -- the network for single images sees the same image twice
  rw [hmember, hsingle] at hsingle'
  simp only [Except.ok.injEq, List.cons.injEq, Prod.mk.injEq, true_and, and_true] at hsingle'
  obtain ⟨hboxes, hclasses, hscores⟩ := hsingle'
  rw [← hextents] at hextents'
  simp only [List.map_cons, List.map_nil, List.cons.injEq, and_true] at hextents'
  obtain ⟨hboxes', hclasses', hscores'⟩ := hextents'
  rw [rows_eq houtputs] at h
  rw [rows_eq houtputs']
  obtain ⟨rows, k, k', k'', hb, hs, hc⟩ := RawRow.dims_of_ofOutputs h
  obtain rfl : k = m.blueprint.input.batch := Tensor.extent_zero hb ▸ hleading boxes (by simp)
  obtain rfl : k' = m.blueprint.input.batch := Tensor.extent_zero hs ▸ hleading scores (by simp)
  obtain rfl : k'' = m.blueprint.input.batch := Tensor.extent_zero hc ▸ hleading classes (by simp)
  rw [← RawRow.ofOutputs_member (hboxes'.trans hb) (hscores'.trans hs) (hclasses'.trans hc) hj,
    ← hboxes, ← hscores, ← hclasses, RawRow.ofOutputs_member hb hs hc hi, h]

end Model

end GridNet
