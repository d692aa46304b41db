import GridNet.Detection.Detector
import GridNet.Proofs.ImageRows

/-!
# Detecting a list of pictures

A detector prepares as many pictures as a batch holds, runs them together and cuts the outputs apart
again; the last batch may be filled up with zeros. What it returns is what it returns for each
picture on its own, in the same order, however the pictures fall into batches.

* `flatten_chunksOf`, `forall₂_chunksOf` — lists cut into batches.
* `PreparedBatch.stack_member` — the member of a batch is the prepared picture.
* `Detector.Sees`, `Detector.detectChunk_iff` — one batch, picture by picture.
* `Detector.detectAll_iff_detect` — any number of pictures.
-/

namespace GridNet

/-! ## Lists in batches -/

section Chunks

variable {α β : Type} {n : Nat}

theorem flatten_chunksOf (n : Nat) (xs : List α) : (chunksOf n xs).flatten = xs := by
  induction xs using chunksOf.induct n with
  | case1 => rw [chunksOf, List.flatten_nil]
  | case2 x xs ih => rw [chunksOf, List.flatten_cons, ih, List.cons_append, List.take_append_drop]

/-- A batch holds at least one picture and no more than fit into it. -/
theorem length_of_mem_chunksOf (hn : 0 < n) {xs c : List α} (hc : c ∈ chunksOf n xs) :
    c ≠ [] ∧ c.length ≤ n := by
  induction xs using chunksOf.induct n with
  | case1 =>
    rw [chunksOf] at hc
    cases hc
  | case2 x xs ih =>
    rw [chunksOf] at hc
    rcases List.mem_cons.mp hc with rfl | hc
    · refine ⟨List.cons_ne_nil _ _, ?_⟩
      rw [List.length_cons, List.length_take]
      omega
    · exact ih hc

/-- Lists that are related entry by entry fall into batches that are. -/
theorem forall₂_chunksOf {R : α → β → Prop} (n : Nat) {xs : List α} {ys : List β}
    (h : List.Forall₂ R xs ys) : List.Forall₂ (List.Forall₂ R) (chunksOf n xs) (chunksOf n ys) := by
  induction xs using chunksOf.induct n generalizing ys with
  | case1 =>
    rw [List.forall₂_nil_left_iff.mp h, chunksOf, chunksOf]
    exact .nil
  | case2 x xs ih =>
    obtain ⟨y, ys, hxy, hrest, rfl⟩ := List.forall₂_cons_left_iff.mp h
    rw [chunksOf, chunksOf]
    exact .cons (.cons hxy (List.forall₂_take _ hrest)) (ih (List.forall₂_drop _ hrest))

/-- Two relations between lists, one after the other. -/
theorem exists_forall₂_iff {γ : Type} {R : α → β → Prop} {S : β → γ → Prop} {xs : List α}
    {zs : List γ} :
    (∃ ys, List.Forall₂ R xs ys ∧ List.Forall₂ S ys zs) ↔
      List.Forall₂ (fun x z => ∃ y, R x y ∧ S y z) xs zs := by
  constructor
  · rintro ⟨ys, hxy, hyz⟩
    induction hxy generalizing zs with
    | nil => exact List.forall₂_nil_left_iff.mp hyz ▸ .nil
    | cons h _ ih =>
      obtain ⟨z, zs, hz, hrest, rfl⟩ := List.forall₂_cons_left_iff.mp hyz
      exact .cons ⟨_, h, hz⟩ (ih hrest)
  · intro h
    induction h with
    | nil => exact ⟨[], .nil, .nil⟩
    | cons h _ ih =>
      obtain ⟨y, hx, hz⟩ := h
      obtain ⟨ys, hxy, hyz⟩ := ih
      exact ⟨y :: ys, .cons hx hxy, .cons hz hyz⟩

end Chunks

/-! ## Prepared batches -/

namespace PreparedBatch

variable {batch : Nat} {f : InputFormat} {planes : Array Tensor} {t : Tensor} {i : Nat}

/-- **The member of a batch** is the picture that was prepared for this slot. -/
theorem stack_member (hi : i < batch) (ht : planes[i]? = some t) :
    (stack batch f planes).member i =
      .ofFn [1, f.channels, f.size.height, f.size.width] t.item := by
  have hvolume : volume [f.channels, f.size.height, f.size.width] =
      f.channels * f.size.height * f.size.width := by
    simp only [volume, Nat.mul_one, Nat.mul_assoc]
  unfold stack
  rw [Tensor.member_ofFn hi, hvolume]
  refine Tensor.ofFn_congr fun k hk => ?_
  rw [volume, Nat.one_mul, hvolume] at hk
  obtain ⟨hdiv, hmod⟩ := place_div_mod i hk
  simp only [hdiv, hmod, ht]

/-- The pictures can be prepared for the network: it takes gray or colored ones, and has
room for pixels. -/
def Usable (f : InputFormat) : Prop :=
  (f.channels = 1 ∨ f.channels = 3) ∧ 0 < f.size.width ∧ 0 < f.size.height

theorem ofPictures_eq_ok {pictures : List Picture} {b : PreparedBatch} :
    ofPictures batch f pictures = .ok b ↔ (pictures ≠ [] ∧ pictures.length ≤ batch) ∧ Usable f ∧
      ∃ prepared, List.Forall₂ (fun p q => prepareOne f p = .ok q) pictures prepared ∧
        b = ⟨stack batch f (prepared.map (·.1)).toArray, prepared.map (·.2)⟩ := by
  simp only [ofPictures, Outcome.bind_eq_ok, Outcome.ensure_eq_ok, Outcome.mapM_eq_ok,
    Outcome.pure_eq_ok,
    Bool.and_eq_true, Bool.or_eq_true, decide_eq_true_eq, Bool.not_eq_true',
    List.isEmpty_eq_false_iff]
  constructor
  · rintro ⟨_, hcount, _, hchannels, _, hsize, prepared, hprepared, rfl⟩
    exact ⟨hcount, ⟨hchannels, hsize⟩, prepared, hprepared, rfl⟩
  · rintro ⟨hcount, ⟨hchannels, hsize⟩, prepared, hprepared, rfl⟩
    exact ⟨(), hcount, (), hchannels, (), hsize, prepared, hprepared, rfl⟩

end PreparedBatch

namespace Detector

variable {d : Detector}

/-- What the rows of a picture say. -/
def read (d : Detector) (map : CoordinateMap) (raw : List RawRow) : Detections :=
  let candidates := Candidate.ofRows d.thresholds d.format.size d.boxFormat raw
  { candidates, projected := candidates.map (·.project map), source := map.source }

/-- What is detected in one slot of a batch. -/
def slot (d : Detector) (x : Tensor) (index : Nat) (map : CoordinateMap) : Outcome Detections :=
  (d.model.rows x index).map (d.read map)

/-- **A batch is read slot by slot.** -/
theorem runBatch_eq_ok {b : PreparedBatch} (hmaps : b.maps ≠ []) {rs : List Detections} :
    d.runBatch b = .ok rs ↔ List.Forall₂ (fun entry r => d.slot b.tensor entry.1 entry.2 = .ok r)
      ((List.range b.maps.length).zip b.maps) rs := by
  have hslot : ∀ {outputs boxes scores classes index map},
      (d.model.run b.tensor).outputs = .ok outputs →
      requireOutput outputs "boxes" = .ok boxes → requireOutput outputs "scores" = .ok scores →
      requireOutput outputs "classes" = .ok classes →
      d.slot b.tensor index map = d.detections boxes scores classes index map := by
    intro outputs boxes scores classes index map hrun hboxes hscores hclasses
    rw [slot, Model.rows, hrun, Outcome.ok_bind, hboxes, Outcome.ok_bind, hscores, Outcome.ok_bind,
      hclasses, Outcome.ok_bind, detections]
    cases RawRow.ofOutputs boxes scores classes index <;> rfl
  simp only [runBatch, Outcome.bind_eq_ok, Outcome.mapM_eq_ok]
  constructor
  · rintro ⟨outputs, hrun, boxes, hboxes, scores, hscores, classes, hclasses, h⟩
    exact h.imp fun entry r hr => (hslot hrun hboxes hscores hclasses).trans hr
  · intro h
    -- the first slot tells that there are outputs
    obtain ⟨map, maps, hcons⟩ := List.exists_cons_of_ne_nil hmaps
    have hfirst : (List.range b.maps.length).zip b.maps =
        (0, map) :: ((List.range maps.length).map Nat.succ).zip maps := by
      rw [hcons, List.length_cons, List.range_succ_eq_map, List.zip_cons_cons]
    rw [hfirst] at h
    obtain ⟨r, rest, hr, -, -⟩ := List.forall₂_cons_left_iff.mp h
    obtain ⟨raw, hraw, -⟩ := Outcome.map_eq_ok.mp hr
    simp only [Model.rows, Outcome.bind_eq_ok] at hraw
    obtain ⟨outputs, hrun, boxes, hboxes, scores, hscores, classes, hclasses, -⟩ := hraw
    rw [← hfirst] at h
    exact ⟨outputs, hrun, boxes, hboxes, scores, hscores, classes, hclasses,
      h.imp fun entry r hr => (hslot hrun hboxes hscores hclasses).symm.trans hr⟩

/-- Some prepared pictures in the first slots of a batch. -/
def batchOf (d : Detector) (prepared : List (Tensor × CoordinateMap)) : Tensor :=
  PreparedBatch.stack d.model.blueprint.input.batch d.format (prepared.map (·.1)).toArray

/-- Every slot is like the first one of a batch of this picture only. -/
theorem batchOf_member {prepared : List (Tensor × CoordinateMap)}
    {q : Tensor × CoordinateMap} {i : Nat}
    (hi : i < d.model.blueprint.input.batch) (hq : prepared[i]? = some q) :
    (d.batchOf [q]).member 0 = (d.batchOf prepared).member i := by
  have hplanes : (prepared.map (·.1)).toArray[i]? = some q.1 := by simp [hq]
  rw [batchOf, batchOf, PreparedBatch.stack_member hi hplanes]
  exact PreparedBatch.stack_member (Nat.zero_lt_of_lt hi) rfl

/-- What is **seen in one picture**, on its own. -/
def Sees (d : Detector) (p : Picture) (r : Detections) : Prop :=
  PreparedBatch.Usable d.format ∧ ∃ q, PreparedBatch.prepareOne d.format p = .ok q ∧
    d.slot (d.batchOf [q]) 0 q.2 = .ok r

/-- Slots of the same picture say the same. -/
theorem slot_of_member (hm : d.model.KeepsApart) {x y : Tensor} {i j : Nat}
    (hi : i < d.model.blueprint.input.batch) (hj : j < d.model.blueprint.input.batch)
    (hdims : y.dims = x.dims) (hmember : y.member j = x.member i) {map : CoordinateMap}
    {r : Detections} (h : d.slot x i map = .ok r) : d.slot y j map = .ok r := by
  obtain ⟨raw, hraw, hr⟩ := Outcome.map_eq_ok.mp h
  exact Outcome.map_eq_ok.mpr ⟨raw, hm.rows_of_member hi hj hdims hmember hraw, hr⟩

/-- **The slots of a batch** say what its pictures say on their own. -/
theorem slots_iff (hm : d.model.KeepsApart) {prepared : List (Tensor × CoordinateMap)}
    {rs : List Detections} (hlength : prepared.length ≤ d.model.blueprint.input.batch) :
    List.Forall₂ (fun entry r => d.slot (d.batchOf prepared) entry.1 entry.2 = .ok r)
      ((List.range (prepared.map (·.2)).length).zip (prepared.map (·.2))) rs ↔
    List.Forall₂ (fun q r => d.slot (d.batchOf [q]) 0 q.2 = .ok r) prepared rs := by
  have hone : ∀ (i : Nat) (h : i < prepared.length) (r : Detections),
      d.slot (d.batchOf prepared) i prepared[i].2 = .ok r ↔
        d.slot (d.batchOf [prepared[i]]) 0 prepared[i].2 = .ok r := by
    intro i h r
    have hi := h.trans_le hlength
    have hpos := Nat.zero_lt_of_lt hi
    have hmember := d.batchOf_member hi (List.getElem?_eq_getElem h)
    have hdims : (d.batchOf [prepared[i]]).dims = (d.batchOf prepared).dims := rfl
    exact ⟨slot_of_member hm hi hpos hdims hmember,
      slot_of_member hm hpos hi hdims.symm hmember.symm⟩
  rw [List.forall₂_iff_get, List.forall₂_iff_get]
  simp only [List.length_zip, List.length_range, List.length_map, Nat.min_self, List.get_eq_getElem,
    List.getElem_zip, List.getElem_range, List.getElem_map]
  exact and_congr_right fun _ => forall_congr' fun i => forall_congr' fun h =>
    forall_congr' fun _ => hone i h _

/-- **One batch**, picture by picture. -/
theorem detectChunk_iff (hm : d.model.KeepsApart) {pictures : List Picture} (hsome : pictures ≠ [])
    (hlength : pictures.length ≤ d.model.blueprint.input.batch) {rs : List Detections} :
    d.detectChunk pictures = .ok rs ↔ List.Forall₂ d.Sees pictures rs := by
  have hprepared : ∀ {prepared : List (Tensor × CoordinateMap)},
      List.Forall₂ (fun p q => PreparedBatch.prepareOne d.format p = .ok q) pictures prepared →
      (d.runBatch ⟨d.batchOf prepared, prepared.map (·.2)⟩ = .ok rs ↔
        List.Forall₂ (fun q r => d.slot (d.batchOf [q]) 0 q.2 = .ok r) prepared rs) := by
    intro prepared h
    have hmaps : prepared.map (·.2) ≠ [] := by
      intro hnil
      rw [List.map_eq_nil_iff.mp hnil] at h
      exact hsome (List.forall₂_nil_right_iff.mp h)
    rw [runBatch_eq_ok hmaps]
    exact slots_iff hm (h.length_eq ▸ hlength)
  have husable : (∀ p ∈ pictures, PreparedBatch.Usable d.format) ↔
      PreparedBatch.Usable d.format := by
    obtain ⟨p, hp⟩ := List.exists_mem_of_ne_nil pictures hsome
    exact ⟨fun h => h p hp, fun h _ _ => h⟩
  unfold Sees
  rw [List.forall₂_and_left, husable, ← exists_forall₂_iff, detectChunk, Outcome.bind_eq_ok]
  simp only [PreparedBatch.ofPictures_eq_ok]
  constructor
  · rintro ⟨_, ⟨-, hformat, prepared, h, rfl⟩, hrun⟩
    exact ⟨hformat, prepared, h, (hprepared h).mp hrun⟩
  · rintro ⟨hformat, prepared, h, hslots⟩
    exact ⟨_, ⟨⟨hsome, hlength⟩, hformat, prepared, h, rfl⟩, (hprepared h).mpr hslots⟩

/-! ## Any number of pictures -/

section Lists

variable (hm : d.model.KeepsApart) (hbatch : 0 < d.model.blueprint.input.batch)
  (hheads : d.model.built.isDecoded)

include hm hbatch hheads

/-- **All batches** together. -/
theorem detectAll_iff {pictures : List Picture} {rs : List Detections} :
    d.detectAll pictures = .ok rs ↔ List.Forall₂ d.Sees pictures rs := by
  have hchunk : ∀ c ∈ chunksOf d.model.blueprint.input.batch pictures, ∀ results,
      d.detectChunk c = .ok results ↔ List.Forall₂ d.Sees c results := by
    intro c hc results
    obtain ⟨hsome, hlength⟩ := length_of_mem_chunksOf hbatch hc
    exact detectChunk_iff hm hsome hlength
  simp only [detectAll, Outcome.bind_eq_ok, Outcome.ensure_eq_ok, Outcome.mapM_eq_ok,
    Outcome.pure_eq_ok]
  constructor
  · rintro ⟨_, -, results, h, rfl⟩
    have hsees : List.Forall₂ (List.Forall₂ d.Sees)
        (chunksOf d.model.blueprint.input.batch pictures)
        results :=
      ((List.forall₂_and_left _ _).mpr ⟨fun _ hc => hc, h⟩).imp fun c r hcr =>
        (hchunk c hcr.1 r).mp hcr.2
    have hall := List.rel_flatten hsees
    rwa [flatten_chunksOf] at hall
  · intro h
    refine ⟨(), hheads, chunksOf d.model.blueprint.input.batch rs, ?_, flatten_chunksOf _ rs⟩
    exact ((List.forall₂_and_left _ _).mpr ⟨fun _ hc => hc, forall₂_chunksOf _ h⟩).imp
      fun c r hcr => (hchunk c hcr.1 r).mpr hcr.2

/-- A picture on its own is a list of one. -/
theorem detect_iff {picture : Picture} {r : Detections} :
    d.detect picture = .ok r ↔ d.Sees picture r := by
  simp only [detect, Outcome.bind_eq_ok, detectAll_iff hm hbatch hheads, List.forall₂_cons_left_iff,
    List.forall₂_nil_left_iff]
  constructor
  · rintro ⟨_, ⟨r', _, hr, rfl, rfl⟩, h⟩
    obtain rfl := Outcome.pure_eq_ok.mp h
    exact hr
  · intro h
    exact ⟨[r], ⟨r, [], h, rfl, rfl⟩, rfl⟩

end Lists

/-- **Detecting a list of pictures is detecting each of them.** Take a compiled network with heads,
no window of which crops the axis of images, whose batch size is at most `2 ^ 24` and is that of its
outputs. Whatever the detector prepares pictures for and however it reads rows, a list of pictures
is detected just if each of them is, and the result is the list of the results, in order: it does
not matter how the list falls into batches. -/
theorem detectAll_iff_detect {b : Blueprint} {weights : WeightBuffer} {m : Model}
    (hcompiled : Model.compile b weights = .ok m) (hheads : m.built.isDecoded)
    (hcrop : m.graph.Uncropped) (hbatch : b.input.batch ≤ 2 ^ 24)
    (hleading : ∀ dims ∈ m.graph.outputExtents, dims.head? = some b.input.batch)
    (format : InputFormat) (thresholds : Thresholds) (boxFormat : BoxFormat)
    (pictures : List Picture) (rs : List Detections) :
    (Detector.mk m format thresholds boxFormat).detectAll pictures = .ok rs ↔
      List.Forall₂ (fun p r => (Detector.mk m format thresholds boxFormat).detect p = .ok r)
        pictures rs := by
  have hm := Model.keepsApart_of_compile hcompiled hheads hcrop hbatch hleading
  obtain ⟨-, -, hpos, -⟩ := Model.decoded_of_compile hcompiled hheads
  obtain rfl := Model.blueprint_of_compile hcompiled
  simp only [detect_iff (d := Detector.mk m format thresholds boxFormat) hm hpos hheads]
  exact detectAll_iff (d := Detector.mk m format thresholds boxFormat) hm hpos hheads

/-- A description of a head that sees the three colors of a pixel twice, for batches of
two images. -/
def echoBlocks : List Block :=
  [{ kind := "net", line := 1
     assignments := ⟨[("batch", "2"), ("channels", "3"), ("height", "1"),
       ("width", "1")], by decide⟩ },
    { kind := "dropout", line := 6, assignments := ⟨[("probability", "0.5")], by decide⟩ },
    { kind := "route", line := 7, assignments := ⟨[("layers", "-1,-1")], by decide⟩ },
    { kind := "yolo", line := 9
      assignments := ⟨[("anchors", "1,1"), ("classes", "1"), ("ignore_thresh", "0.7"),
        ("num", "1")], by decide⟩ }]

/-- The blueprint that is read from it. -/
def echoBlueprint : Blueprint where
  name := "echo"
  input := { width := 1, height := 1, channels := 3, batch := 2 }
  layers := [⟨0, .dropout⟩, ⟨1, .route [-1, -1] 0 none⟩, ⟨2, .head .yolo 0⟩]
  heads := [{ Blueprint.spotHead with name := "yolo_2" }]
  classes := 1
  activatedHeads := false

/-- A picture of one white pixel. -/
def whitePixel : Picture := .ofFn .rgb .eight ⟨1, 1⟩ fun _ _ _ => 255

/-- Pixels as they are. -/
def pixelFormat : InputFormat := { size := ⟨1, 1⟩, fit := .centerCrop }

/-- It compiles to a concatenation and the decode node, and its sizes are in range. -/
theorem compile_echoBlueprint :
    ∃ m, Model.compile echoBlueprint #[] = .ok m ∧ m.built.isDecoded ∧ m.inputDims = [2, 3, 1, 1] ∧
      m.graph.WithinSizes ∧ m.graph.Uncropped ∧
      m.graph.outputExtents = [[2, 1, 4], [2, 1, 1], [2, 1, 1]] := by
  have hgraph : (Model.compile echoBlueprint #[]).toOption.map (fun m =>
      (m.built.isDecoded, m.inputDims, m.graph.tensors.toList.map (·.shape.dims),
        m.graph.nodes.toList)) =
      some (true, [2, 3, 1, 1], [[2, 3, 1, 1], [2, 6, 1, 1], [2, 1, 4], [2, 1, 1], [2, 1, 1]],
        [⟨.input "data", [], [0]⟩, ⟨.concat 1, [0, 0], [1]⟩,
          ⟨.decode ⟨1, 1, 1, false,
            [{ Blueprint.spotHead with name := "yolo_2", gridWidth := 1, gridHeight := 1 }], 1⟩,
            [1], [2, 3, 4]⟩]) := by
    decide +kernel
  obtain ⟨m, hm, hfound⟩ := Option.map_eq_some_iff.mp hgraph
  obtain ⟨hheads, hfound⟩ := Prod.mk.inj hfound
  obtain ⟨hdims, hfound⟩ := Prod.mk.inj hfound
  obtain ⟨htensors, hnodes⟩ := Prod.mk.inj hfound
  have hcompiled := Outcome.toOption_eq_some.mp hm
  refine ⟨m, hcompiled, hheads, hdims, ?_, ?_, ?_⟩
  · refine .of_eq htensors hnodes (by decide) fun node hnode operands hoperands => ?_
    simp only [List.mem_cons, List.not_mem_nil, or_false] at hnode
    rcases hnode with rfl | rfl | rfl
    · trivial
    · obtain ⟨first, _, hfirst, hrest, rfl⟩ := List.forall₂_cons_left_iff.mp hoperands
      obtain ⟨second, hsecond, rfl⟩ := forall₂_singleton_left.mp hrest
      cases hfirst
      cases hsecond
      show _ < Word.signedModulus
      decide
    · exact ⟨by decide, by decide⟩
  · intro node hnode w hw
    rw [hnodes] at hnode
    simp only [List.mem_cons, List.not_mem_nil, or_false] at hnode
    rcases hnode with rfl | rfl | rfl <;> cases hw
  · obtain ⟨images, rows, -, hextents⟩ := Model.outputExtents_of_heads hcompiled (by decide)
    -- only one tensor of the graph has rows of four
    obtain ⟨rfl, rfl⟩ : images = 2 ∧ rows = 1 := by
      obtain ⟨e, he, hboxes⟩ := Graph.mem_outputExtents (hextents ▸ List.mem_cons_self)
      have hmem := List.mem_map_of_mem (f := (·.shape.dims)) he
      rw [htensors, hboxes] at hmem
      simpa using hmem
    exact hextents

theorem detectAll_echoBlueprint :
    ∃ m r, Model.compile echoBlueprint #[] = .ok m ∧
      (Detector.mk m pixelFormat .usual .center).detectAll [whitePixel, whitePixel, whitePixel] =
        .ok [r, r, r] := by
  obtain ⟨m, hcompiled, hheads, hdims, hsizes, hcrop, hextents⟩ := compile_echoBlueprint
  have hread : Blueprint.ofBlocks echoBlocks "echo" = .ok echoBlueprint :=
    Outcome.toOption_eq_some.mp (by decide +kernel)
  have hleading : ∀ dims ∈ m.graph.outputExtents, dims.head? = some echoBlueprint.input.batch := by
    rw [hextents]
    decide
  have hm := Model.keepsApart_of_compile hcompiled hheads hcrop (by decide) hleading
  have hblueprint := Model.blueprint_of_compile hcompiled
  let d : Detector := ⟨m, pixelFormat, .usual, .center⟩
  obtain ⟨q, hq⟩ : ∃ q, PreparedBatch.prepareOne pixelFormat whitePixel = .ok q := ⟨_, rfl⟩
  have hx : (d.batchOf [q]).dims = m.inputDims := by
    rw [hdims]
    change [m.blueprint.input.batch, 3, 1, 1] = _
    rw [hblueprint]
    rfl
  obtain ⟨boxes, scores, classes, hrun, hfound⟩ := Model.serves_of_outputExtents
    (Blueprint.checked_of_ofBlocks hread) hcompiled (by decide) hsizes hextents (d.batchOf [q]) hx
  obtain ⟨raw, hraw⟩ := (hfound 0).mpr (by decide)
  have hslot : d.slot (d.batchOf [q]) 0 q.2 = .ok (d.read q.2 raw) :=
    Outcome.map_eq_ok.mpr ⟨raw, (Model.rows_eq hrun 0).trans hraw, rfl⟩
  have hone : d.detect whitePixel = .ok (d.read q.2 raw) := by
    refine (detect_iff hm ?_ hheads).mpr ⟨⟨.inr rfl, Nat.one_pos, Nat.one_pos⟩, q, hq, hslot⟩
    change 0 < m.blueprint.input.batch
    rw [hblueprint]
    decide
  -- the third picture is alone in its batch
  exact ⟨m, d.read q.2 raw, hcompiled,
    (detectAll_iff_detect hcompiled hheads hcrop (by decide) hleading
    pixelFormat .usual .center _ _).mpr (.cons hone (.cons hone (.cons hone .nil)))⟩

end Detector

end GridNet
