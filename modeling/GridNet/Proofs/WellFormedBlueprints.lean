import GridNet.Proofs.HeadWiring

/-!
# What every blueprint keeps to

Reading a description refuses what later steps would have to look out for: no extent and no step is
zero, a route joins something and keeps a part of it that exists, the heads are numbered by the
order of their layers, and each box of a head takes an anchor that is there. What is said here of a
blueprint is said of its fields, and of the blocks that it was read from.

* `LayerKind.WellFormed`, `Head.WellFormed`, `Head.CountedBy` — one layer, one head, and its block.
* `Blueprint.readLayer_wellFormed`, `Blueprint.readHead_wellFormed` — what reading one
  block has seen to.
* `Blueprint.WellFormed`, `Blueprint.wellFormed_of_ofBlocks` — all of it holds of each
  blueprint that is read.
-/

namespace GridNet

/-! ## Fields -/

namespace Section

variable {s : Section} {field : String} {n default : Nat}

theorem checkPositive_eq_ok {value : Nat} :
    s.checkPositive field value = .ok n ↔ value = n ∧ 0 < n := by
  unfold checkPositive
  split
  · next hzero =>
    constructor
    · intro h
      cases h
    · rintro ⟨rfl, hpos⟩
      omega
  · next hne =>
    rw [Except.ok.injEq]
    constructor
    · rintro rfl
      exact ⟨rfl, Nat.pos_of_ne_zero hne⟩
    · exact fun h => h.1

theorem positive_eq_ok : s.positive field = .ok n ↔ s.required size field = .ok n ∧ 0 < n := by
  simp [positive, checkPositive_eq_ok]

theorem pos_of_positive (h : s.positive field = .ok n) : 0 < n := (positive_eq_ok.mp h).2

theorem pos_of_positiveOr (h : s.positiveOr field default = .ok n) : 0 < n := by
  obtain ⟨_, -, h⟩ := Outcome.bind_eq_ok.mp h
  exact (checkPositive_eq_ok.mp h).2

/-- A field that has to be assigned has been, with a text that can be read. -/
theorem required_eq_ok {α : Type} {read : Reader α} {value : α} :
    s.required read field = .ok value ↔
    ∃ text, s.block.assignments.get? field = some text ∧ read (Text.trim text) = some value := by
  rw [required, Outcome.bind_eq_ok]
  have hparse : ∀ text, s.parse read field text = .ok value ↔
      read (Text.trim text) = some value := by
    intro text
    unfold parse
    cases read (Text.trim text) <;> simp
  have hraw : ∀ text, s.raw field = .ok text ↔ s.block.assignments.get? field = some text := by
    intro text
    unfold raw
    cases s.block.assignments.get? field <;> simp
  simp only [hparse, hraw]

end Section

/-! ## One layer -/

/-- The sizes of a layer are not zero; a route has sources, and a part of its channels is
one of several. -/
def LayerKind.WellFormed : LayerKind → Prop
  | convolution c | deconvolution c => 0 < c.filters ∧ 0 < c.size ∧ 0 < c.stride ∧ 0 < c.groups
  | implicit filters => 0 < filters
  | route sources _ group => sources ≠ [] ∧ ∀ g ∈ group, 1 < g.groups ∧ g.part < g.groups
  | upsample stride | reorg stride => 0 < stride
  | maxPool size stride => 0 < size ∧ 0 < stride
  | _ => True

/-! ## One head -/

namespace Head

variable {h : Head} {slot i : Nat}

/-- The **pair of anchors that a box takes**, counted from 0: the one with the number of the box, or
the one that the mask has in this place. -/
def Takes (h : Head) (slot i : Nat) : Prop := h.mask = [] ∧ i = slot ∨ h.mask[slot]? = some i

/-- A **well-formed head**. -/
structure WellFormed (h : Head) : Prop where
  /-- anchors come in pairs, and there is one -/
  anchors : h.anchors ≠ [] ∧ Even h.anchors.length
  boxes : 0 < h.boxes
  /-- there is a pair for each box -/
  pairs : 2 * h.boxes ≤ h.anchors.length
  /-- a mask counts the boxes -/
  mask : h.mask ≠ [] → h.boxes = h.mask.length
  /-- each box finds its pair -/
  anchor : ∀ slot < h.boxes, ∃ i width height, h.Takes slot i ∧
    h.anchors[2 * i]? = some width ∧ h.anchors[2 * i + 1]? = some height ∧
    h.anchor slot = some (width, height)

/-- The block **counts the boxes** of the head, unless a mask does. -/
def CountedBy (h : Head) (block : Block) : Prop := h.mask = [] →
  ∃ text, block.assignments.get? "num" = some text ∧ Section.size (Text.trim text) = some h.boxes

theorem takes_of_anchorIndex (hindex : h.anchorIndex slot = some i) : h.Takes slot i := by
  unfold anchorIndex at hindex
  split at hindex
  · next hempty => exact .inl ⟨List.isEmpty_iff.mp hempty, (Option.some.inj hindex).symm⟩
  · exact .inr hindex

/-- A pair that is within the anchors is found. -/
theorem anchor_of_anchorIndex (hindex : h.anchorIndex slot = some i)
    (hi : 2 * i + 1 < h.anchors.length) :
    h.anchor slot = some (h.anchors[2 * i], h.anchors[2 * i + 1]) := by
  have hlt : 2 * i < h.anchors.length := by omega
  simp [anchor, hindex, hi, hlt]

end Head

namespace Blueprint

variable {s : Section}

/-- A step that is chosen from two, with one continuation for both. -/
theorem ite_bind_eq_ok {α β : Type} {p : Prop} [Decidable p] {x y : Outcome α}
    {k : α → Outcome β} {b : β}
    (h : (if p then x >>= k else y >>= k) = .ok b) :
    ∃ a, (if p then x else y) = .ok a ∧ k a = .ok b := by
  split at h
  · next hp => simpa [hp] using Outcome.bind_eq_ok.mp h
  · next hp => simpa [hp] using Outcome.bind_eq_ok.mp h

/-- What `readHead_eq_ok` leaves out: the number of the anchors, and where the boxes are counted. -/
theorem readHead_counted {kind : HeadKind} {index : Nat} {h : Head}
    (hread : readHead s kind index = .ok h) :
    (h.anchors ≠ [] ∧ Even h.anchors.length) ∧ (h.mask = [] → s.positive "num" = .ok h.boxes) := by
  unfold readHead at hread
  obtain ⟨classes, -, hread⟩ := Outcome.bind_eq_ok.mp hread
  obtain ⟨anchors, -, hread⟩ := Outcome.bind_eq_ok.mp hread
  dsimp only at hread
  split at hread
  · exact absurd hread Outcome.throw_bind_ne_ok
  next hanchors =>
  obtain ⟨mask, -, hread⟩ := Outcome.bind_eq_ok.mp hread
  obtain ⟨boxes, hboxes, hread⟩ := ite_bind_eq_ok hread
  split at hread
  · exact absurd hread Outcome.throw_bind_ne_ok
  split at hread
  · exact absurd hread Outcome.throw_bind_ne_ok
  obtain ⟨centreScale, -, hread⟩ := Outcome.bind_eq_ok.mp hread
  obtain rfl := Outcome.pure_eq_ok.mp hread
  refine ⟨by simpa [Nat.even_iff] using hanchors, fun hnil => ?_⟩
  rwa [if_pos (List.isEmpty_iff.mpr hnil)] at hboxes

/-- **A head that is read** is well formed, and counted by its block. -/
theorem readHead_wellFormed {kind : HeadKind} {index : Nat} {h : Head}
    (hread : readHead s kind index = .ok h) :
    h.WellFormed ∧ h.CountedBy s.block := by
  obtain ⟨-, -, hpairs, hmask, hwithin⟩ := readHead_eq_ok hread
  obtain ⟨hanchors, hnum⟩ := readHead_counted hread
  have hmask : h.mask ≠ [] → h.boxes = h.mask.length := fun hne => hmask (by simpa using hne)
  -- the number of the pair is that of the box, or an entry of the mask; both are within the anchors
  have hindex : ∀ slot < h.boxes, ∃ i, h.anchorIndex slot = some i ∧ i < h.anchors.length / 2 := by
    intro slot hslot
    by_cases hnil : h.mask = []
    · exact ⟨slot, by simp [Head.anchorIndex, hnil], by omega⟩
    · have hlt : slot < h.mask.length := hmask hnil ▸ hslot
      exact ⟨h.mask[slot], by simp [Head.anchorIndex, hnil, hlt], hwithin _ (List.getElem_mem hlt)⟩
  refine ⟨⟨hanchors, ?_, by omega, hmask, fun slot hslot => ?_⟩, fun hnil => ?_⟩
  · by_cases hnil : h.mask = []
    · exact Section.pos_of_positive (hnum hnil)
    · rw [hmask hnil]
      exact List.length_pos_iff.mpr hnil
  · obtain ⟨i, hindex, hi⟩ := hindex slot hslot
    have hheight : 2 * i + 1 < h.anchors.length := by omega
    exact ⟨i, _, _, Head.takes_of_anchorIndex hindex, List.getElem?_eq_getElem (by omega),
      List.getElem?_eq_getElem hheight, Head.anchor_of_anchorIndex hindex hheight⟩
  · exact Section.required_eq_ok.mp (Section.positive_eq_ok.mp (hnum hnil)).1

/-! ## Reading one block -/

theorem readConvolution_wellFormed {c : Convolution} (h : readConvolution s = .ok c) :
    0 < c.filters ∧ 0 < c.size ∧ 0 < c.stride ∧ 0 < c.groups := by
  unfold readConvolution at h
  obtain ⟨filters, hfilters, h⟩ := Outcome.bind_eq_ok.mp h
  obtain ⟨size, hsize, h⟩ := Outcome.bind_eq_ok.mp h
  obtain ⟨normalized, -, h⟩ := Outcome.bind_eq_ok.mp h
  obtain ⟨pad, -, h⟩ := Outcome.bind_eq_ok.mp h
  obtain ⟨padding, -, h⟩ := ite_bind_eq_ok h
  obtain ⟨stride, hstride, h⟩ := Outcome.bind_eq_ok.mp h
  obtain ⟨groups, hgroups, h⟩ := Outcome.bind_eq_ok.mp h
  obtain ⟨bias, -, h⟩ := Outcome.bind_eq_ok.mp h
  obtain ⟨activation, -, h⟩ := Outcome.bind_eq_ok.mp h
  obtain rfl := Outcome.pure_eq_ok.mp h
  exact ⟨Section.pos_of_positive hfilters, Section.pos_of_positive hsize,
    Section.pos_of_positive hstride, Section.pos_of_positiveOr hgroups⟩

theorem readRoute_wellFormed {kind : LayerKind} (h : readRoute s = .ok kind) : kind.WellFormed := by
  unfold readRoute at h
  obtain ⟨sources, -, h⟩ := Outcome.bind_eq_ok.mp h
  dsimp only at h
  split at h
  · exact absurd h Outcome.throw_bind_ne_ok
  next hsources =>
  obtain ⟨groups, -, h⟩ := Outcome.bind_eq_ok.mp h
  obtain ⟨part, -, h⟩ := Outcome.bind_eq_ok.mp h
  split at h
  · exact absurd h Outcome.throw_bind_ne_ok
  next hpart =>
  obtain ⟨axis, -, h⟩ := Outcome.bind_eq_ok.mp h
  obtain rfl := Outcome.pure_eq_ok.mp h
  refine ⟨fun hnil => hsources (List.isEmpty_iff.mpr hnil), fun g hg => ?_⟩
  obtain ⟨hseveral, rfl⟩ : 1 < groups ∧ { groups, part } = g := by simpa using hg
  exact ⟨hseveral, Nat.lt_of_not_le hpart⟩

/-- What reading a block has seen to. -/
def Reading.WellFormed : Reading → Prop
  | layer kind => kind.WellFormed
  | head h _ => h.WellFormed

/-- **One block** is well formed when it is read. -/
theorem readLayer_wellFormed {index : Nat} {r : Reading} (h : readLayer s index = .ok r) :
    r.WellFormed := by
  unfold readLayer at h
  split at h
  case h_1 | h_2 =>
    obtain ⟨c, hc, rfl⟩ := Outcome.map_eq_ok.mp h
    exact readConvolution_wellFormed hc
  case h_4 | h_5 | h_6 =>
    obtain ⟨filters, hfilters, rfl⟩ := Outcome.map_eq_ok.mp h
    exact Section.pos_of_positive hfilters
  case h_12 | h_18 =>
    obtain ⟨stride, hstride, rfl⟩ := Outcome.map_eq_ok.mp h
    exact Section.pos_of_positiveOr hstride
  case h_11 =>
    obtain ⟨kind, hkind, rfl⟩ := Outcome.map_eq_ok.mp h
    exact readRoute_wellFormed hkind
  case h_13 | h_14 =>
    obtain ⟨size, hsize, h⟩ := Outcome.bind_eq_ok.mp h
    obtain ⟨stride, hstride, h⟩ := Outcome.bind_eq_ok.mp h
    obtain rfl := Outcome.pure_eq_ok.mp h
    exact ⟨Section.pos_of_positive hsize, Section.pos_of_positive hstride⟩
  case h_19 | h_20 =>
    obtain ⟨activated, -, h⟩ := Outcome.bind_eq_ok.mp h
    obtain ⟨head, hhead, h⟩ := Outcome.bind_eq_ok.mp h
    obtain rfl := Outcome.pure_eq_ok.mp h
    exact (readHead_wellFormed hhead).1
  case h_9 | h_10 =>
    obtain ⟨_, -, h⟩ := Outcome.bind_eq_ok.mp h
    obtain ⟨_, -, h⟩ := Outcome.bind_eq_ok.mp h
    obtain rfl := Outcome.pure_eq_ok.mp h
    trivial
  case h_3 | h_7 | h_8 =>
    obtain ⟨_, -, rfl⟩ := Outcome.map_eq_ok.mp h
    trivial
  case h_15 | h_16 | h_17 | h_21 =>
    obtain rfl := Except.ok.inj h
    trivial
  case h_22 => cases h

/-! ## Reading all of them -/

theorem readLayers_wellFormed {index : Nat} {blocks : List Block} {readings : List Reading}
    (h : readLayers index blocks = .ok readings) : ∀ r ∈ readings, r.WellFormed := by
  induction blocks generalizing index readings with
  | nil =>
    cases h
    exact fun _ hr => absurd hr List.not_mem_nil
  | cons block rest ih =>
    simp only [readLayers, Outcome.bind_eq_ok, Outcome.pure_eq_ok] at h
    obtain ⟨r, hr, others, hothers, rfl⟩ := h
    intro r' hr'
    rcases List.mem_cons.mp hr' with rfl | hr'
    · exact readLayer_wellFormed hr
    · exact ih hothers r' hr'

theorem length_layersOf (readings : List Reading) (index place : Nat) :
    (layersOf index place readings).length = readings.length := by
  induction readings generalizing index place with
  | nil => rfl
  | cons r rest ih => cases r <;> rw [layersOf, List.length_cons, ih, List.length_cons]

/-- Each layer comes from a reading. -/
theorem mem_layersOf {readings : List Reading} {index place : Nat} {l : Layer}
    (hl : l ∈ layersOf index place readings) :
    .layer l.kind ∈ readings ∨ ∃ h i, l.kind = .head h i := by
  induction readings generalizing index place with
  | nil => cases hl
  | cons r rest ih =>
    cases r with
    | layer kind =>
      rcases List.mem_cons.mp hl with rfl | hl
      · exact .inl List.mem_cons_self
      · exact (ih hl).imp_left (List.mem_cons_of_mem _)
    | head h activated =>
      rcases List.mem_cons.mp hl with rfl | hl
      · exact .inr ⟨_, _, rfl⟩
      · exact (ih hl).imp_left (List.mem_cons_of_mem _)

/-- Each head comes from a reading. -/
theorem mem_headsOf {readings : List Reading} {block : Nat} {entry : Head × Nat}
    (he : entry ∈ headsOf block readings) : ∃ activated, .head entry.1 activated ∈ readings := by
  induction readings generalizing block with
  | nil => cases he
  | cons r rest ih =>
    cases r with
    | layer kind => exact (ih he).imp fun _ => List.mem_cons_of_mem _
    | head h activated =>
      rcases List.mem_cons.mp he with rfl | he
      · exact ⟨activated, List.mem_cons_self⟩
      · exact (ih he).imp fun _ => List.mem_cons_of_mem _

/-- There are as many head layers as heads. -/
theorem headLayers_layersOf {blocks : List Block} {readings : List Reading}
    (h : List.Forall₂ Reading.Matches blocks readings) (index place block : Nat) :
    headLayers (layersOf index place readings) = (headsOf block readings).length := by
  induction h generalizing index place block with
  | nil => rfl
  | @cons _ r _ _ hr _ ih =>
    cases r with
    | layer kind =>
      rw [layersOf, headLayers_cons, ih _ _ (block + 1), if_neg (by simp [hr.1]),
        Nat.zero_add, headsOf]
    | head h activated =>
      rw [layersOf, headLayers_cons, ih _ _ (block + 1), headsOf, List.length_cons, Nat.add_comm]
      rfl

theorem readInput_positive {input : InputGeometry} (h : readInput s = .ok input) :
    0 < input.width ∧ 0 < input.height ∧ 0 < input.channels ∧ 0 < input.batch := by
  obtain ⟨width, hwidth, h⟩ := Outcome.bind_eq_ok.mp h
  obtain ⟨height, hheight, h⟩ := Outcome.bind_eq_ok.mp h
  obtain ⟨channels, hchannels, h⟩ := Outcome.bind_eq_ok.mp h
  obtain ⟨letterbox, -, h⟩ := Outcome.bind_eq_ok.mp h
  obtain ⟨batch, hbatch, h⟩ := Outcome.bind_eq_ok.mp h
  obtain rfl := Outcome.pure_eq_ok.mp h
  exact ⟨Section.pos_of_positive hwidth, Section.pos_of_positive hheight,
    Section.pos_of_positive hchannels, Section.pos_of_positiveOr hbatch⟩

/-- A blueprint that is **well formed**, seen from its blocks. -/
structure WellFormed (blocks : List Block) (b : Blueprint) : Prop where
  input : 0 < b.input.width ∧ 0 < b.input.height ∧ 0 < b.input.channels ∧ 0 < b.input.batch
  /-- there is one layer for each block below the network block -/
  oneEach : b.layers.length + 1 = blocks.length
  index : ∀ (i : Nat) (l : Layer), b.layers[i]? = some l → l.index = i
  layers : ∀ l ∈ b.layers, l.kind.WellFormed
  heads : ∀ head ∈ b.heads, head.WellFormed ∧ head.classes = b.classes
  headLayers : b.headLayerCount = b.heads.length
  /-- head layer `j` has the number `j` and the kind of head `j`; the boxes of this head are counted
  by the block of the layer, if not by a mask -/
  places : ∀ (j : Nat) (l : Layer), (b.layers.filter (·.kind.isHead))[j]? = some l → ∃ block head,
    blocks[l.index + 1]? = some block ∧ b.heads[j]? = some head ∧ l.kind = .head head.kind j ∧
      head.CountedBy block

/-- **Every blueprint that is read is well formed.** -/
theorem wellFormed_of_ofBlocks {blocks : List Block} {name : String} {b : Blueprint}
    (h : ofBlocks blocks name = .ok b) : b.WellFormed blocks := by
  obtain ⟨first, rest, readings, rfl, -, hinput, hreadings, hlayers, hheads, hclasses⟩ :=
    ofBlocks_eq_ok h
  have hmatches := readLayers_matches hreadings
  have hformed := readLayers_wellFormed hreadings
  refine ⟨readInput_positive hinput, ?_, fun i l hl => ?_, fun l hl => ?_, fun head hhead =>
    ⟨?_, hclasses head hhead⟩, ?_, fun j l hl => ?_⟩
  · rw [hlayers, length_layersOf, ← hmatches.length_eq, List.length_cons]
  · rw [Build.index_of_layersOf (hlayers ▸ hl), Nat.zero_add]
  · rcases mem_layersOf (hlayers ▸ hl) with hmem | ⟨_, _, hkind⟩
    · exact hformed _ hmem
    · rw [hkind]
      trivial
  · rw [hheads] at hhead
    obtain ⟨entry, hentry, rfl⟩ := List.mem_map.mp hhead
    obtain ⟨_, hmem⟩ := mem_headsOf hentry
    exact hformed _ hmem
  · rw [hheads, List.length_map, ← headLayers_layersOf hmatches 0 0 1, ← hlayers]
    rfl
  · obtain ⟨block, head, -, hblock, hread, hhead, hkind⟩ :=
      head_of_layersOf hreadings (hlayers ▸ hl)
    rw [Nat.zero_add] at hkind
    exact ⟨block, head, hblock, hheads ▸ hhead, hkind, (readHead_wellFormed hread).2⟩

/-- A description with a part of a route, and with a head whose mask names one pair of anchors for
both boxes. -/
def maskedBlocks : List Block :=
  [{ kind := "net", line := 1
     assignments := ⟨[("channels", "3"), ("height", "8"), ("width", "8")], by decide⟩ },
    { kind := "convolutional", line := 5
      assignments := ⟨[("filters", "24"), ("pad", "1"), ("size", "3"), ("stride", "2")], by decide⟩
        },
    { kind := "route", line := 10
      assignments := ⟨[("group_id", "1"), ("groups", "2"), ("layers", "-1")], by decide⟩ },
    { kind := "yolo", line := 14
      assignments := ⟨[("anchors", "1,2,3,4"), ("classes", "1"), ("mask", "1,1")], by decide⟩ }]

/-- The blueprint that is read from it. -/
def maskedBlueprint : Blueprint where
  name := "masked"
  input := { width := 8, height := 8, channels := 3 }
  layers := [
    ⟨0, .convolution { filters := 24, size := 3, stride := 2, padding := 1, groups := 1,
                       normalized := false, bias := true, activation := .linear }⟩,
    ⟨1, .route [-1] 0 (some { groups := 2, part := 1 })⟩, ⟨2, .head .yolo 0⟩]
  heads := [{ name := "yolo_2", kind := .yolo, boxes := 2, classes := 1,
              anchors := [.one, .ofNat 2, .ofNat 3, .ofNat 4], mask :=
                [1, 1], centreScale := .one }]
  classes := 1
  activatedHeads := false

theorem wellFormed_maskedBlocks :
    ofBlocks maskedBlocks "masked" = .ok maskedBlueprint ∧
      maskedBlueprint.WellFormed maskedBlocks := by
  have hread : ofBlocks maskedBlocks "masked" = .ok maskedBlueprint :=
    Outcome.toOption_eq_some.mp (by decide +kernel)
  exact ⟨hread, wellFormed_of_ofBlocks hread⟩

end Blueprint

end GridNet
