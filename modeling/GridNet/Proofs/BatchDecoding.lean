import GridNet.Proofs.BatchMembers

/-!
# Decoding the heads of a batch

A decode node has one table of rows for all images of a batch. Each image writes its own part of it,
and what it writes there is what it writes into a table of its own when it is decoded alone.

* `Shape.single` — the shape of a batch of one.
* `HeadDecoder.outputShapes_single` — the check passes for a batch of one as well.
* `HeadDecoder.Writes` — two steps that write the same rows, one of them further behind.
* `HeadDecoder.decode_single` — the three results of a decode node.
-/

namespace GridNet

/-! ## Shapes -/

/-- The shape of a **batch of one**. -/
def Shape.single (s : Shape) : Shape where
  dims := 1 :: s.dims.tail
  nonempty := List.cons_ne_nil _ _
  positive d hd := by
    rcases List.mem_cons.mp hd with rfl | hd
    · exact Nat.one_pos
    · exact s.positive d (List.mem_of_mem_tail hd)
  countable := by
    have hcountable := s.countable
    have hpositive := s.positive
    rw [volume, Nat.one_mul]
    cases hdims : s.dims with
    | nil => exact absurd hdims s.nonempty
    | cons k rest =>
      rw [hdims, volume] at hcountable
      rw [hdims] at hpositive
      exact (Nat.le_mul_of_pos_left _ (hpositive k List.mem_cons_self)).trans_lt hcountable

@[simp] theorem Shape.single_dims (s : Shape) : s.single.dims = 1 :: s.dims.tail := rfl

theorem Shape.nchw_single {s : Shape} {b : Shape.Nchw} (h : s.nchw = .ok b) :
    s.single.nchw = .ok { b with batch := 1 } := by
  rw [Shape.nchw_eq_ok] at h ⊢
  rw [single_dims, h]
  rfl

/-- Every entry of a list that is worked through has its step. -/
theorem Outcome.foldlM_mem {α β : Type} {f : β → α → Outcome β} {xs : List α} {acc last : β}
    (h : xs.foldlM f acc = .ok last) {x : α} (hx : x ∈ xs) : ∃ acc next, f acc x = .ok next := by
  induction xs generalizing acc with
  | nil => exact absurd hx List.not_mem_nil
  | cons y rest ih =>
    rw [List.foldlM_cons] at h
    obtain ⟨next, hy, hrest⟩ := Outcome.bind_eq_ok.mp h
    rcases List.mem_cons.mp hx with rfl | hx
    · exact ⟨acc, next, hy⟩
    · exact ih hrest hx

namespace HeadDecoder

variable {d : HeadDecoder}

theorem checkHeads_single {batch : Option Nat} {pairs : List (Head × Shape)} {n : Nat}
    (h : checkHeads batch pairs = .ok n) :
    checkHeads (batch.map fun _ => 1) (pairs.map fun p => (p.1, p.2.single)) = .ok 1 := by
  induction pairs generalizing batch with
  | nil => cases batch <;> rfl
  | cons p rest ih =>
    obtain ⟨head, shape⟩ := p
    simp only [checkHeads, Outcome.bind_eq_ok] at h
    obtain ⟨s, hs, channels, hcounted, ⟨⟩, hextents, h⟩ := h
    obtain ⟨hrest, hextents⟩ : checkHeads (some s.batch) rest = .ok n ∧
        (s.channels = channels && s.height = head.gridHeight && s.width = head.gridWidth) =
          true := by
      refine ⟨?_, by simpa using hextents⟩
      cases batch with
      | none => exact h
      | some expected =>
        obtain ⟨-, -, h⟩ := Outcome.bind_eq_ok.mp h
        exact h
    rw [List.map_cons, checkHeads, Shape.nchw_single hs, Outcome.ok_bind, hcounted, Outcome.ok_bind]
    refine Outcome.bind_eq_ok.mpr ⟨(), Outcome.ensure_eq_ok.mpr hextents, ?_⟩
    cases batch with
    | none => exact ih hrest
    | some expected => exact Outcome.bind_eq_ok.mpr ⟨(), by simp, ih hrest⟩

/-- **The check** passes for a batch of one. -/
theorem outputShapes_single {inputs shapes : List Shape} (h : d.outputShapes inputs = .ok shapes) :
    d.outputShapes (inputs.map Shape.single) = .ok (shapes.map Shape.single) := by
  unfold outputShapes at h ⊢
  simp only [Outcome.bind_eq_ok, Outcome.ensure_eq_ok, Outcome.pure_eq_ok, List.length_map,
    List.isEmpty_map] at h ⊢
  obtain ⟨-, hlength, -, hne, batch, hbatch, rows, hcounted, -, hrows, boxes, hboxes, scores,
    hscores, rfl⟩ := h
  have hzip : d.heads.zip (inputs.map Shape.single) =
      (d.heads.zip inputs).map fun p => (p.1, p.2.single) := by
    rw [List.zip_map_right]
    rfl
  refine ⟨(), hlength, (), hne, 1, hzip ▸ checkHeads_single hbatch, rows, hcounted, (), hrows,
    boxes.single, ?_, scores.single, ?_, rfl⟩
  · rw [Shape.ofDims_eq_ok] at hboxes ⊢
    rw [Shape.single_dims, hboxes]
    rfl
  · rw [Shape.ofDims_eq_ok] at hscores ⊢
    rw [Shape.single_dims, hscores]
    rfl

/-! ## Rows written into a table -/

/-- Rows written one after the other, with places that are counted from `base` on. -/
def write (base : Nat) (rows : List (Nat × DecodedRow)) (table : Array DecodedRow) :
    Array DecodedRow :=
  rows.foldl (fun table r => table.setIfInBounds (base + r.1) r.2) table

theorem size_write (base : Nat) (rows : List (Nat × DecodedRow)) (table : Array DecodedRow) :
    (write base rows table).size = table.size := by
  induction rows generalizing table with
  | nil => rfl
  | cons r rest ih => rw [write, List.foldl_cons, ← write, ih, Array.size_setIfInBounds]

/-- What is not written stays. -/
theorem getElem?_write_of_ne {base i : Nat} {rows : List (Nat × DecodedRow)}
    (h : ∀ r ∈ rows, base + r.1 ≠ i) (table : Array DecodedRow) :
    (write base rows table)[i]? = table[i]? := by
  induction rows generalizing table with
  | nil => rfl
  | cons r rest ih =>
    rw [write, List.foldl_cons, ← write, ih fun s hs => h s (List.mem_cons_of_mem _ hs),
      Array.getElem?_setIfInBounds_ne (h r List.mem_cons_self)]

/-- The second table is the part of the first one from `base` on. -/
structure Shows (base : Nat) (table part : Array DecodedRow) : Prop where
  inside : base + part.size ≤ table.size
  rows : ∀ i < part.size, table[base + i]? = part[i]?

/-- Rows that are written into both keep it so. -/
theorem Shows.write {base : Nat} {table part : Array DecodedRow} (h : Shows base table part)
    (rows : List (Nat × DecodedRow)) :
    Shows base (HeadDecoder.write base rows table) (HeadDecoder.write 0 rows part) := by
  induction rows generalizing table part with
  | nil => exact h
  | cons r rest ih =>
    refine ih ⟨by simpa using h.inside, fun i hi => ?_⟩
    rw [Array.size_setIfInBounds] at hi
    have hinside : base + i < table.size := (Nat.add_lt_add_left hi base).trans_le h.inside
    dsimp only
    rw [Nat.zero_add]
    by_cases hr : r.1 = i
    · rw [hr, Array.getElem?_setIfInBounds_self_of_lt hinside,
        Array.getElem?_setIfInBounds_self_of_lt hi]
    · rw [Array.getElem?_setIfInBounds_ne (by omega),
        Array.getElem?_setIfInBounds_ne hr, h.rows i hi]

/-- **Two steps write the same rows**, all of them with places below `count`: one from `base` on,
and the other one from the start. -/
def Writes (base count : Nat) (f f' : Array DecodedRow → Outcome (Array DecodedRow)) : Prop :=
  ∃ rows : List (Nat × DecodedRow), (∀ r ∈ rows, r.1 < count) ∧
    (∀ table, f table = .ok (write base rows table)) ∧ ∀ table, f' table = .ok (write 0 rows table)

section Writes

variable {base count : Nat} {f f' g g' : Array DecodedRow → Outcome (Array DecodedRow)}

theorem Writes.none : Writes base count .ok .ok :=
  ⟨[], fun _ h => absurd h List.not_mem_nil, fun _ => rfl, fun _ => rfl⟩

theorem Writes.bind (hf : Writes base count f f') (hg : Writes base count g g') :
    Writes base count (fun table => f table >>= g) (fun table => f' table >>= g') := by
  obtain ⟨rows, hlt, hrows, hrows'⟩ := hf
  obtain ⟨others, hlt', hothers, hothers'⟩ := hg
  have happend : ∀ base table, write base others (write base rows table) =
      write base (rows ++ others) table := fun _ _ => (List.foldl_append ..).symm
  refine ⟨rows ++ others, fun r hr => ?_, fun table => ?_, fun table => ?_⟩
  · rcases List.mem_append.mp hr with hr | hr
    · exact hlt r hr
    · exact hlt' r hr
  · dsimp only
    rw [hrows, Outcome.ok_bind, hothers, happend]
  · dsimp only
    rw [hrows', Outcome.ok_bind, hothers', happend]

theorem Writes.foldlM {α : Type} {f f' : Array DecodedRow → α → Outcome (Array DecodedRow)}
    {xs : List α} (h : ∀ x ∈ xs, Writes base count (f · x) (f' · x)) :
    Writes base count (fun table => xs.foldlM f table) (fun table => xs.foldlM f' table) := by
  induction xs with
  | nil => exact .none
  | cons x rest ih =>
    simp only [List.foldlM_cons]
    exact (h x List.mem_cons_self).bind (ih fun y hy => h y (List.mem_cons_of_mem _ hy))

end Writes

/-! ## One image -/

section Images

variable {n b : Nat}

theorem cell_single {t : Tensor} {rest : List Nat} (ht : t.dims = n :: rest) (hn : 0 < n)
    (slot y x : Nat) : d.cell (t.single b) 0 slot y x = d.cell t (b % n) slot y x := by
  have hvalue : ∀ c, (t.single b).get [0, c, y, x] = t.get [b % n, c, y, x] :=
    fun c => Tensor.single_get ht hn [c, y, x]
  simp only [cell, hvalue]

/-- The rows of one box of all cells, with their places from `offset` on. -/
def slotRows (d : HeadDecoder) (h : Head) (anchor : Scalar × Scalar) (t : Tensor)
    (b offset slot : Nat) :
    List (Nat × DecodedRow) :=
  (gridCells h).map fun (y, x) =>
    (offset + slot * h.gridWidth * h.gridHeight + y * h.gridWidth + x,
      Cell.decode h.kind d.activated (d.frame h anchor y x) (d.cell t b slot y x))

/-- One box of all cells, and the room that its rows have. -/
theorem decodeSlot_writes {h : Head} {t : Tensor} {rest : List Nat} {offset slot : Nat}
    {table next : Array DecodedRow} (ht : t.dims = n :: rest) (hn : 0 < n)
    (hok : d.decodeSlot h t (b % n) (b % n * d.rows + offset) slot table = .ok next) :
    Writes (b % n * d.rows) d.rows (d.decodeSlot h t (b % n) (b % n * d.rows + offset) slot)
        (d.decodeSlot h (t.single b) 0 offset slot) ∧
      offset + (slot + 1) * h.gridWidth * h.gridHeight ≤ d.rows := by
  obtain ⟨anchor, hanchor, hchannels, hrows, -⟩ := decodeSlot_eq_ok.mp hok
  have hinside : offset + (slot + 1) * h.gridWidth * h.gridHeight ≤ d.rows := by
    rw [Nat.succ_mul (b % n)] at hrows
    omega
  refine ⟨⟨d.slotRows h anchor t (b % n) offset slot, fun r hr => ?_, fun table => ?_,
    fun table => ?_⟩, hinside⟩
  · obtain ⟨⟨y, x⟩, hcell, rfl⟩ := List.mem_map.mp hr
    obtain ⟨y', hy, hcolumns⟩ := List.mem_flatMap.mp hcell
    obtain ⟨x', hx, heq⟩ := List.mem_map.mp hcolumns
    obtain ⟨rfl, rfl⟩ := Prod.mk.inj heq
    -- the cell lies in the grid of this box
    have hplace : y' * h.gridWidth + x' < h.gridHeight * h.gridWidth :=
      place_lt (List.mem_range.mp hy) (List.mem_range.mp hx)
    have hgrid : (slot + 1) * h.gridWidth * h.gridHeight =
        slot * h.gridWidth * h.gridHeight + h.gridHeight * h.gridWidth := by ring
    dsimp only
    omega
  · refine decodeSlot_eq_ok.mpr ⟨anchor, hanchor, hchannels, hrows, ?_⟩
    rw [write, slotRows, List.foldl_map]
    simp only [Nat.add_assoc]
  · have halone : (slot + 1) * (5 + d.classes) ≤ (t.single b).extent 1 := by
      rwa [Tensor.extent_single]
    refine decodeSlot_eq_ok.mpr ⟨anchor, hanchor, halone, by simpa using hinside, ?_⟩
    rw [write, slotRows, List.foldl_map]
    simp only [Nat.zero_add, cell_single ht hn]

/-- **The heads of one image** are written as when the image is alone. -/
theorem decodeHeads_writes {pairs : List (Head × Tensor)} (hn : 0 < n)
    (hpairs : ∀ p ∈ pairs, ∃ rest, p.2.dims = n :: rest) {offset : Nat}
    {table last : Array DecodedRow} (hoffset : offset ≤ d.rows)
    (hok : d.decodeHeads (b % n) (b % n * d.rows + offset) pairs table = .ok last) :
    Writes (b % n * d.rows) d.rows (d.decodeHeads (b % n) (b % n * d.rows + offset) pairs)
      (d.decodeHeads 0 offset (pairs.map fun p => (p.1, p.2.single b))) := by
  induction pairs generalizing offset table with
  | nil => exact .none
  | cons p others ih =>
    obtain ⟨h, t⟩ := p
    obtain ⟨rest, ht⟩ := hpairs (h, t) List.mem_cons_self
    rw [decodeHeads] at hok
    obtain ⟨stride, hstride, hok⟩ := Outcome.bind_eq_ok.mp hok
    obtain ⟨next, hslots, hothers⟩ := Outcome.bind_eq_ok.mp hok
    have hslot : ∀ slot ∈ List.range h.boxes, Writes (b % n * d.rows) d.rows
        (d.decodeSlot h t (b % n) (b % n * d.rows + offset) slot)
        (d.decodeSlot h (t.single b) 0 offset slot) ∧
        offset + (slot + 1) * h.gridWidth * h.gridHeight ≤ d.rows := by
      intro slot hslot
      obtain ⟨_, _, hone⟩ := Outcome.foldlM_mem hslots hslot
      exact decodeSlot_writes ht hn hone
    have hroom : offset + h.rows ≤ d.rows := by
      unfold Head.rows
      cases hboxes : h.boxes with
      | zero => simpa using hoffset
      | succ boxes => exact (hslot boxes (by simp [hboxes])).2
    rw [Nat.add_assoc] at hothers
    rw [List.map_cons]
    simp only [decodeHeads, hstride, Outcome.ok_bind, Nat.add_assoc]
    exact (Writes.foldlM fun slot hmem => (hslot slot hmem).1).bind
      (ih (fun p hp => hpairs p (List.mem_cons_of_mem _ hp)) hroom hothers)

/-- **One image** is written as when it is alone. -/
theorem image_writes {pairs : List (Head × Tensor)} (hn : 0 < n)
    (hpairs : ∀ p ∈ pairs, ∃ rest, p.2.dims = n :: rest) {table last : Array DecodedRow}
    (hok : d.decodeHeads (b % n) (b % n * d.rows) pairs table = .ok last) :
    Writes (b % n * d.rows) d.rows (d.decodeHeads (b % n) (b % n * d.rows) pairs)
      (d.decodeHeads 0 0 (pairs.map fun p => (p.1, p.2.single b))) :=
  decodeHeads_writes hn hpairs (Nat.zero_le _) hok

/-- The images that are not looked at write elsewhere. -/
theorem decodeImages_elsewhere {pairs : List (Head × Tensor)} (hn : 0 < n)
    (hpairs : ∀ p ∈ pairs, ∃ rest, p.2.dims = n :: rest)
    {images : List Nat} {m : Nat} (himages : ∀ a ∈ images, a < n ∧ a ≠ m)
    {table last : Array DecodedRow}
    (hok : images.foldlM (fun table a => d.decodeHeads a (a * d.rows) pairs table)
      table = .ok last) :
    last.size = table.size ∧ ∀ i < d.rows, last[m * d.rows + i]? = table[m * d.rows + i]? := by
  induction images generalizing table with
  | nil =>
    obtain rfl := Outcome.pure_eq_ok.mp hok
    exact ⟨rfl, fun _ _ => rfl⟩
  | cons a others ih =>
    rw [List.foldlM_cons] at hok
    obtain ⟨next, hfirst, hothers⟩ := Outcome.bind_eq_ok.mp hok
    obtain ⟨ha, hne⟩ := himages a List.mem_cons_self
    obtain ⟨hsize, hrows⟩ := ih (fun c hc => himages c (List.mem_cons_of_mem _ hc)) hothers
    have hthis : d.decodeHeads (a % n) (a % n * d.rows) pairs table = .ok next := by
      rwa [Nat.mod_eq_of_lt ha]
    obtain ⟨rows, hlt, hwrite, -⟩ := image_writes hn hpairs hthis
    rw [Nat.mod_eq_of_lt ha] at hwrite
    obtain rfl := Except.ok.inj (hfirst.symm.trans (hwrite table))
    rw [size_write] at hsize
    refine ⟨hsize, fun i hi => (hrows i hi).trans (getElem?_write_of_ne (fun r hr heq => ?_) table)⟩
    -- a place belongs to one image only
    have hplace : (a * d.rows + r.1) / d.rows = (m * d.rows + i) / d.rows :=
      congrArg (· / d.rows) heq
    rw [(place_div_mod a (hlt r hr)).1, (place_div_mod m hi).1] at hplace
    exact hne hplace

/-- **The rows of an image** are those that it has when it is decoded alone. -/
theorem decodeBatch_single {inputs : List Tensor} {table : Array DecodedRow} (hn : 0 < n)
    (hinputs : ∀ t ∈ inputs, ∃ rest, t.dims = n :: rest)
    (h : d.decodeBatch n inputs = .ok table) :
    ∃ part, d.decodeBatch 1 (inputs.map (Tensor.single b)) = .ok part ∧
      ∀ i < d.rows, table[b % n * d.rows + i]? = part[i]? := by
  have hpairs : ∀ p ∈ d.heads.zip inputs, ∃ rest, p.2.dims = n :: rest := fun p hp =>
    hinputs p.2 (List.of_mem_zip hp).2
  have hm : b % n < n := Nat.mod_lt b hn
  unfold decodeBatch at h
  -- the images in front, this one, and those behind
  obtain ⟨front, behind, hsplit⟩ := List.append_of_mem (List.mem_range.mpr hm)
  have hnodup := List.nodup_range (n := n)
  have hlt : ∀ a ∈ front ++ b % n :: behind, a < n := fun a ha =>
    List.mem_range.mp (hsplit ▸ ha)
  rw [hsplit, List.nodup_append] at hnodup
  obtain ⟨-, hbehind, hfront⟩ := hnodup
  rw [hsplit, List.foldlM_append] at h
  obtain ⟨first, hfirst, h⟩ := Outcome.bind_eq_ok.mp h
  rw [List.foldlM_cons] at h
  obtain ⟨next, hthis, hlast⟩ := Outcome.bind_eq_ok.mp h
  obtain ⟨hsize, hrows⟩ := decodeImages_elsewhere hn hpairs (m := b % n)
    (fun a ha => ⟨hlt a (List.mem_append_left _ ha),
      fun heq => hfront a ha _ List.mem_cons_self heq⟩) hfirst
  obtain ⟨-, hrows'⟩ := decodeImages_elsewhere hn hpairs (m := b % n)
    (fun a ha => ⟨hlt a (List.mem_append_right _ (List.mem_cons_of_mem _ ha)),
      fun heq => (List.nodup_cons.mp hbehind).1 (heq ▸ ha)⟩) hlast
  obtain ⟨rows, -, hwrite, hwrite'⟩ := image_writes hn hpairs hthis
  obtain rfl := Except.ok.inj (hthis.symm.trans (hwrite first))
  have hstart : Shows (b % n * d.rows) first (Array.replicate d.rows .zero) := by
    refine ⟨?_, fun i hi => ?_⟩
    · rw [hsize, Array.size_replicate, Array.size_replicate, ← Nat.succ_mul]
      exact Nat.mul_le_mul_right _ hm
    · rw [Array.size_replicate] at hi
      have hplace : b % n * d.rows + i < n * d.rows := place_lt hm hi
      rw [hrows i hi, Array.getElem?_replicate, Array.getElem?_replicate, if_pos hplace, if_pos hi]
  refine ⟨write 0 rows (Array.replicate d.rows .zero), ?_, fun i hi => ?_⟩
  · have hzip : d.heads.zip (inputs.map (Tensor.single b)) =
        (d.heads.zip inputs).map fun p => (p.1, p.2.single b) := by
      rw [List.zip_map_right]
      rfl
    rw [decodeBatch, hzip, Nat.one_mul, List.range_one, List.foldlM_cons, Nat.zero_mul, hwrite']
    rfl
  · have hshows := hstart.write rows
    rw [hrows' i hi, hshows.rows i (by simpa [size_write] using hi)]

end Images

/-- A result with `width` numbers in each row. -/
theorem table_single {table part : Array DecodedRow} {n b width : Nat}
    {f : DecodedRow → Nat → Scalar} (hn : 0 < n) (hwidth : 0 < width)
    (h : ∀ i < d.rows, table[b % n * d.rows + i]? = part[i]?) :
    Tensor.ofFn [1, d.rows, width] (fun i => f ((part[i / width]?).getD .zero) (i % width)) =
      (Tensor.ofFn [n, d.rows, width]
        fun i => f ((table[i / width]?).getD .zero) (i % width)).single b := by
  rw [Tensor.single_ofFn hn]
  refine Tensor.ofFn_congr fun i hi => ?_
  have hvolume : volume [d.rows, width] = d.rows * width := by simp [volume]
  rw [volume, Nat.one_mul, hvolume] at hi
  have hrow : i / width < d.rows := Nat.div_lt_of_lt_mul (by rwa [Nat.mul_comm])
  rw [hvolume, ← Nat.mul_assoc, Nat.add_comm, Nat.add_mul_div_right _ _ hwidth,
    Nat.add_mul_mod_self_right, Nat.add_comm, h _ hrow]

/-- The head tensors have **one batch**, which is that of the results. -/
theorem batch_of_outputShapes {inputs : List Tensor} {sources shapes : List Shape}
    (hread : List.Forall₂ (fun t s => Shape.ofDims t.dims = .ok s) inputs sources)
    (h : d.outputShapes sources = .ok shapes) :
    inputs ≠ [] ∧ ∃ n boxes scores, shapes = [boxes, scores, scores] ∧ boxes.dims = [n, d.rows, 4] ∧
      ∀ t ∈ inputs, ∃ rest, t.dims = n :: rest := by
  obtain ⟨hlength, hne, -, n, boxes, scores, hshapes, hboxes, -, hheads⟩ := outputShapes_eq_ok h
  refine ⟨?_, n, boxes, scores, hshapes, hboxes, fun t ht => ?_⟩
  · rintro rfl
    exact hne (List.forall₂_nil_left_iff.mp hread)
  · obtain ⟨i, hi, rfl⟩ := List.getElem_of_mem ht
    have hi' : i < sources.length := hread.length_eq ▸ hi
    have hdims := hheads (d.heads[i], sources[i])
      (List.mem_iff_getElem.mpr ⟨i, by simp; omega, by simp⟩)
    exact ⟨_, (Shape.ofDims_eq_ok.mp ((List.forall₂_iff_get.mp hread).2 i hi hi')).symm.trans hdims⟩

/-- **A decode node** makes of the single tensors what it makes of the batch, for each of
its results. -/
theorem decode_single {inputs : List Tensor} {r : DecodedHeads} {n b : Nat} (hn : 0 < n)
    (hinputs : ∀ t ∈ inputs, ∃ rest, t.dims = n :: rest) (h : d.decode inputs = .ok r) :
    d.decode (inputs.map (Tensor.single b)) =
      .ok ⟨r.boxes.single b, r.scores.single b, r.classes.single b⟩ := by
  unfold decode at h
  obtain ⟨sources, hsources, h⟩ := Outcome.bind_eq_ok.mp h
  obtain ⟨shapes, hshapes, h⟩ := Outcome.bind_eq_ok.mp h
  obtain ⟨table, htable, h⟩ := Outcome.bind_eq_ok.mp h
  obtain rfl := Outcome.pure_eq_ok.mp h
  have hread := Outcome.mapM_eq_ok.mp hsources
  have hsources' : (inputs.map (Tensor.single b)).mapM (fun t => Shape.ofDims t.dims) =
      .ok (sources.map Shape.single) := by
    refine Outcome.mapM_eq_ok.mpr
      (List.forall₂_map_left_iff.mpr (List.forall₂_map_right_iff.mpr ?_))
    refine hread.imp fun t s hs => Shape.ofDims_eq_ok.mpr ?_
    rw [Shape.single_dims, Shape.ofDims_eq_ok.mp hs, Tensor.single_dims]
  -- the batch is that of the first head
  obtain ⟨hne, batch, boxes, scores, rfl, hboxes, hbatch⟩ := batch_of_outputShapes hread hshapes
  obtain ⟨first, others, rfl⟩ := List.exists_cons_of_ne_nil hne
  obtain ⟨rest, hfirst⟩ := hinputs first List.mem_cons_self
  obtain ⟨rest', hfirst'⟩ := hbatch first List.mem_cons_self
  obtain rfl : n = batch := (List.cons.inj (hfirst.symm.trans hfirst')).1
  have hcount : ((first :: others).head?.map (·.extent 0)).getD 1 = n := Tensor.extent_zero hfirst
  rw [hcount] at htable ⊢
  obtain ⟨part, hpart, hrows⟩ := decodeBatch_single (b := b) hn hinputs htable
  have hone : (((first :: others).map (Tensor.single b)).head?.map (·.extent 0)).getD 1 = 1 := rfl
  unfold decode
  rw [hsources', Outcome.ok_bind, outputShapes_single hshapes, Outcome.ok_bind, hone]
  dsimp only
  rw [hpart, Outcome.ok_bind]
  refine Outcome.pure_eq_ok.mpr ?_
  have hscores := fun f : DecodedRow → Scalar =>
    table_single (f := fun row _ => f row) hn Nat.one_pos hrows
  simp only [Nat.div_one] at hscores
  rw [DecodedHeads.mk.injEq]
  exact ⟨table_single hn (by decide) hrows, hscores _, hscores _⟩

end HeadDecoder

end GridNet
