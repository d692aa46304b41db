import GridNet.Proofs.CountedHeads
import GridNet.Proofs.Recording

/-!
# The decode node finds what it reads

Head tensors that the recorder has accepted can be decoded: every box has its channels, and the rows
of the heads fill the output of each image without leaving it.

* `HeadDecoder.checkHeads_eq_ok`, `HeadDecoder.outputShapes_eq_ok` — what the check says.
* `HeadDecoder.Countable` — heads that are accepted have been counted.
* `HeadDecoder.Exact`, `HeadDecoder.Anchored` — sizes in range, and anchors and classes
  for all boxes.
* `HeadDecoder.Finds` — a tensor with all that its head reads.
* `HeadDecoder.decode_ok` — decoding succeeds, with results of the inferred extents.
-/

namespace GridNet

namespace HeadDecoder

/-! ## What the check says -/

/-- Every head tensor has the channels and the grid of its head, and all have one batch size. -/
theorem checkHeads_eq_ok {batch : Option Nat} {pairs : List (Head × Shape)} {b : Nat}
    (h : checkHeads batch pairs = .ok b) :
    (∀ expected, batch = some expected → b = expected) ∧
      ∀ p ∈ pairs, p.2.dims = [b, p.1.channels, p.1.gridHeight, p.1.gridWidth] := by
  induction pairs generalizing batch with
  | nil =>
    refine ⟨fun expected he => ?_, fun _ hp => absurd hp List.not_mem_nil⟩
    subst he
    exact (Except.ok.inj h).symm
  | cons p rest ih =>
    obtain ⟨head, shape⟩ := p
    simp only [checkHeads, Outcome.bind_eq_ok, Outcome.ensure_eq_ok, Bool.and_eq_true,
      decide_eq_true_eq] at h
    obtain ⟨s, hs, _, hcounted, -, ⟨⟨hchannels, hheight⟩, hwidth⟩, h⟩ := h
    obtain ⟨-, -, rfl⟩ := Head.countChannels_eq_ok.mp hcounted
    have hdims := Shape.nchw_eq_ok.mp hs
    rcases batch with _ | expected
    · obtain ⟨hb, hrest⟩ := ih h
      obtain rfl := hb s.batch rfl
      refine ⟨fun _ he => absurd he (Option.some_ne_none _).symm, fun p hp => ?_⟩
      rcases List.mem_cons.mp hp with rfl | hp
      · rw [hdims, hchannels, hheight, hwidth]
      · exact hrest p hp
    · simp only [Outcome.bind_eq_ok, Outcome.ensure_eq_ok, decide_eq_true_eq] at h
      obtain ⟨-, rfl, h⟩ := h
      obtain ⟨hb, hrest⟩ := ih h
      obtain rfl := hb s.batch rfl
      refine ⟨fun _ he => Option.some.inj he, fun p hp => ?_⟩
      rcases List.mem_cons.mp hp with rfl | hp
      · rw [hdims, hchannels, hheight, hwidth]
      · exact hrest p hp

/-- The channels of every head have been counted. -/
theorem checkHeads_counted {batch : Option Nat} {pairs : List (Head × Shape)} {b : Nat}
    (h : checkHeads batch pairs = .ok b) :
    ∀ p ∈ pairs, 5 + p.1.classes < Word.modulus ∧ p.1.channels < Word.modulus := by
  induction pairs generalizing batch with
  | nil => exact fun _ hp => absurd hp List.not_mem_nil
  | cons p rest ih =>
    simp only [checkHeads, Outcome.bind_eq_ok, Head.countChannels_eq_ok] at h
    obtain ⟨s, -, _, ⟨hclasses, hchannels, -⟩, -, -, h⟩ := h
    have hrest : ∃ batch, checkHeads batch rest = .ok b := by
      cases batch with
      | none => exact ⟨_, h⟩
      | some expected =>
        obtain ⟨-, -, h⟩ := Outcome.bind_eq_ok.mp h
        exact ⟨_, h⟩
    intro q hq
    rcases List.mem_cons.mp hq with rfl | hq
    · exact ⟨hclasses, hchannels⟩
    · exact ih hrest.choose_spec q hq

variable {d : HeadDecoder}

theorem outputShapes_eq_ok {inputs shapes : List Shape} (h : d.outputShapes inputs = .ok shapes) :
    inputs.length = d.heads.length ∧ inputs ≠ [] ∧ rowsOf d.heads = d.rows ∧
      ∃ batch boxes scores, shapes = [boxes, scores, scores] ∧
        boxes.dims = [batch, d.rows, 4] ∧ scores.dims = [batch, d.rows, 1] ∧
        ∀ p ∈ d.heads.zip inputs,
          p.2.dims = [batch, p.1.channels, p.1.gridHeight, p.1.gridWidth] := by
  simp only [outputShapes, Outcome.bind_eq_ok, Outcome.ensure_eq_ok, Outcome.pure_eq_ok,
    decide_eq_true_eq, Bool.not_eq_true', List.isEmpty_eq_false_iff] at h
  obtain ⟨-, hlength, -, hne, batch, hbatch, _, hcounted, -, hrows, boxes, hboxes, scores,
    hscores, rfl⟩ := h
  obtain ⟨rfl, -⟩ := countRows_eq_ok hcounted
  exact ⟨hlength, hne, hrows, batch, boxes, scores, rfl, hrows ▸ Shape.ofDims_eq_ok.mp hboxes,
    hrows ▸ Shape.ofDims_eq_ok.mp hscores, (checkHeads_eq_ok hbatch).2⟩

/-- The channels and rows of **accepted heads** have been counted. -/
structure Countable (d : HeadDecoder) : Prop where
  classes : ∀ h ∈ d.heads, 5 + h.classes < Word.modulus
  channels : ∀ h ∈ d.heads, h.channels < Word.modulus
  rows : rowsOf d.heads < Word.modulus

theorem countable_of_outputShapes {inputs shapes : List Shape}
    (h : d.outputShapes inputs = .ok shapes) :
    d.Countable := by
  have hlength := (outputShapes_eq_ok h).1
  simp only [outputShapes, Outcome.bind_eq_ok] at h
  obtain ⟨-, -, -, -, batch, hbatch, rows, hrows, -⟩ := h
  have hcounted : ∀ h ∈ d.heads, 5 + h.classes < Word.modulus ∧ h.channels < Word.modulus := by
    intro h hh
    obtain ⟨i, hi, rfl⟩ := List.getElem_of_mem hh
    have hpair : (d.heads[i], inputs[i]) ∈ d.heads.zip inputs :=
      List.mem_iff_getElem.mpr ⟨i, by simp [hi, hlength], by simp⟩
    exact checkHeads_counted hbatch _ hpair
  obtain ⟨rfl, hlt⟩ := countRows_eq_ok hrows
  exact ⟨fun h hh => (hcounted h hh).1, fun h hh => (hcounted h hh).2, hlt⟩

/-! ## Decoding -/

/-- The channels and rows of all heads are sizes that an array can have. -/
def Exact (d : HeadDecoder) : Prop :=
  (∀ h ∈ d.heads, h.channels < Word.signedModulus) ∧ rowsOf d.heads < Word.signedModulus

/-- Every box of every head has an anchor, and values for all classes. -/
def Anchored (d : HeadDecoder) : Prop :=
  ∀ h ∈ d.heads, d.classes ≤ h.classes ∧ ∀ slot < h.boxes, (h.anchor slot).isSome

/-- A head **finds what it reads** in its tensor: the channels of a box have been counted, and every
box has its anchor and its channels. -/
structure Finds (d : HeadDecoder) (h : Head) (t : Tensor) : Prop where
  counted : 5 + d.classes < Word.modulus
  anchors : ∀ slot < h.boxes, (h.anchor slot).isSome
  channels : h.boxes * (5 + d.classes) ≤ t.extent 1

/-- One box of all cells is written exactly when there is an anchor and its channels and rows are
there. -/
theorem decodeSlot_eq_ok {h : Head} {t : Tensor} {b offset slot : Nat}
    {table next : Array DecodedRow} :
    d.decodeSlot h t b offset slot table = .ok next ↔ ∃ anchor, h.anchor slot = some anchor ∧
      (slot + 1) * (5 + d.classes) ≤ t.extent 1 ∧
      offset + (slot + 1) * h.gridWidth * h.gridHeight ≤ (b + 1) * d.rows ∧
      (gridCells h).foldl
        (fun table (y, x) =>
          table.setIfInBounds (offset + slot * h.gridWidth * h.gridHeight + y * h.gridWidth + x)
            (Cell.decode h.kind d.activated (d.frame h anchor y x) (d.cell t b slot y x)))
        table = next := by
  unfold decodeSlot
  cases h.anchor slot with
  | none => simp
  | some anchor =>
    dsimp only
    split
    · next hout =>
      simp only [Bool.or_eq_true, decide_eq_true_eq] at hout
      simp only [reduceCtorEq, Option.some.injEq, exists_eq_left', false_iff]
      rintro ⟨hchannels, hrows, -⟩
      omega
    · next hin =>
      simp only [Bool.or_eq_true, decide_eq_true_eq, not_or, Nat.not_lt] at hin
      simp [hin.1, hin.2]

/-- It is written whatever stands in the table. -/
theorem decodeSlot_ok {h : Head} {t : Tensor} {b offset slot : Nat} (table : Array DecodedRow)
    (hanchor : (h.anchor slot).isSome) (hchannels : (slot + 1) * (5 + d.classes) ≤ t.extent 1)
    (hrows : offset + (slot + 1) * h.gridWidth * h.gridHeight ≤ (b + 1) * d.rows) :
    ∃ next, d.decodeSlot h t b offset slot table = .ok next := by
  obtain ⟨anchor, ha⟩ := Option.isSome_iff_exists.mp hanchor
  exact ⟨_, decodeSlot_eq_ok.mpr ⟨anchor, ha, hchannels, hrows, rfl⟩⟩

/-- All heads of one image are written, the rows of each behind those of the heads in
front of it. -/
theorem decodeHeads_ok {b : Nat} :
    ∀ (pairs : List (Head × Tensor)) (offset : Nat) (table : Array DecodedRow),
      (∀ p ∈ pairs, d.Finds p.1 p.2) →
      offset + (pairs.map fun p => p.1.rows).sum ≤ (b + 1) * d.rows →
      ∃ last, d.decodeHeads b offset pairs table = .ok last := by
  intro pairs
  induction pairs with
  | nil => exact fun _ table _ _ => ⟨table, rfl⟩
  | cons p rest ih =>
    obtain ⟨h, t⟩ := p
    intro offset table hpairs hrows
    have hfinds : d.Finds h t := hpairs (h, t) List.mem_cons_self
    rw [List.map_cons, List.sum_cons] at hrows
    dsimp only at hrows
    have hslots : ∀ table, ∀ slot ∈ List.range h.boxes,
        ∃ next, d.decodeSlot h t b offset slot table = .ok next := by
      intro table slot hslot
      have hlt : slot + 1 ≤ h.boxes := List.mem_range.mp hslot
      refine decodeSlot_ok table (hfinds.anchors slot hlt) ?_ ?_
      · exact (Nat.mul_le_mul_right _ hlt).trans hfinds.channels
      · have hpart : (slot + 1) * h.gridWidth * h.gridHeight ≤ h.rows :=
          Nat.mul_le_mul_right _ (Nat.mul_le_mul_right _ hlt)
        omega
    obtain ⟨next, hnext⟩ := Outcome.foldlM_total hslots table
    obtain ⟨last, hlast⟩ := ih (offset + h.rows) next
      (fun p hp => hpairs p (List.mem_cons_of_mem _ hp)) (by omega)
    refine ⟨last, ?_⟩
    rw [decodeHeads, Word.add_of_lt hfinds.counted, Outcome.ok_bind, hnext, Outcome.ok_bind]
    exact hlast

/-- **What is known of head tensors** that have been accepted: their extents, with one batch size
for all of them, which is that of the results. -/
theorem accepted_dims {inputs : List Tensor} {sources shapes : List Shape}
    (hshapes : d.outputShapes sources = .ok shapes)
    (hinputs : List.Forall₂ (fun t s => t.dims = s.dims) inputs sources) :
    inputs.mapM (fun t => Shape.ofDims t.dims) = .ok sources ∧ inputs.length = d.heads.length ∧
      rowsOf d.heads = d.rows ∧
      ∃ batch, ((inputs.head?).map (·.extent 0)).getD 1 = batch ∧ batch * d.rows < Word.modulus ∧
        shapes.map (·.dims) = [[batch, d.rows, 4], [batch, d.rows, 1], [batch, d.rows, 1]] ∧
        ∀ p ∈ d.heads.zip inputs,
          p.2.dims = [batch, p.1.channels, p.1.gridHeight, p.1.gridWidth] := by
  obtain ⟨hlength, hne, hrows, batch, boxes, scores, rfl, hboxes, hscores, hheads⟩ :=
    outputShapes_eq_ok hshapes
  have hsources : inputs.mapM (fun t => Shape.ofDims t.dims) = .ok sources :=
    Outcome.mapM_eq_ok.mpr (hinputs.imp fun t s h => Shape.ofDims_eq_ok.mpr h.symm)
  -- each tensor with its head, as the check has left them
  have hpairs : ∀ p ∈ d.heads.zip inputs,
      p.2.dims = [batch, p.1.channels, p.1.gridHeight, p.1.gridWidth] := by
    intro p hp
    obtain ⟨i, hi, rfl⟩ := List.getElem_of_mem hp
    simp only [List.length_zip, Nat.lt_min] at hi
    have hs : i < sources.length := hinputs.length_eq ▸ hi.2
    have hd := hheads (d.heads[i], sources[i])
      (List.mem_iff_getElem.mpr ⟨i, by simp [hi.1, hs], by simp⟩)
    simpa using ((List.forall₂_iff_get.mp hinputs).2 i hi.2 hs).trans hd
  have hfirst : ((inputs.head?).map (·.extent 0)).getD 1 = batch := by
    rcases inputs with _ | ⟨t, rest⟩
    · exact absurd (List.forall₂_nil_left_iff.mp hinputs) hne
    · rcases hh : d.heads with _ | ⟨h, heads⟩
      · simp [hh] at hlength
        exact absurd hlength hne
      · have hd : t.dims = [batch, h.channels, h.gridHeight, h.gridWidth] :=
          hpairs (h, t) (by simp [hh])
        simp [Tensor.extent, hd]
  have hcount : batch * d.rows < Word.modulus := by
    have hvolume := boxes.countable
    rw [hboxes] at hvolume
    simp only [volume, Nat.mul_one] at hvolume
    have : batch * d.rows ≤ batch * (d.rows * 4) := Nat.mul_le_mul_left _ (by omega)
    omega
  exact ⟨hsources, hinputs.length_eq.trans hlength, hrows, batch, hfirst,
    hcount, by simp [hboxes, hscores], hpairs⟩

/-- The rows of the heads, each with its tensor. -/
theorem rows_zip {heads : List Head} {inputs : List Tensor}
    (hlength : inputs.length = heads.length) :
    (heads.zip inputs).map (fun p => p.1.rows) = heads.map Head.rows := by
  rw [show (fun p : Head × Tensor => p.1.rows) = Head.rows ∘ Prod.fst from rfl, ← List.map_map,
    List.map_fst_zip (by rw [hlength])]

/-- **Accepted head tensors are decoded**, and the results have the inferred extents. -/
theorem decode_ok {inputs : List Tensor} {sources shapes : List Shape}
    (hshapes : d.outputShapes sources = .ok shapes) (hanchored : d.Anchored)
    (hinputs : List.Forall₂ (fun t s => t.dims = s.dims) inputs sources) :
    ∃ r, d.decode inputs = .ok r ∧
      [r.boxes.dims, r.scores.dims, r.classes.dims] = shapes.map (·.dims) := by
  obtain ⟨hsources, hlength, hrows, batch, hfirst, -, hdims, hpairs⟩ :=
    accepted_dims hshapes hinputs
  have hcountable := countable_of_outputShapes hshapes
  have hbatch : ∃ table, d.decodeBatch batch inputs = .ok table := by
    refine Outcome.foldlM_total (fun table b hb => ?_) _
    have hlt : b + 1 ≤ batch := List.mem_range.mp hb
    refine decodeHeads_ok _ _ _ (fun p hp => ?_) ?_
    · have hmem : p.1 ∈ d.heads := (List.of_mem_zip hp).1
      obtain ⟨hclasses, hanchors⟩ := hanchored p.1 hmem
      have hchannels : p.2.extent 1 = p.1.boxes * (5 + p.1.classes) := by
        simp only [Tensor.extent, hpairs p hp]
        rfl
      refine ⟨(Nat.add_le_add_left hclasses 5).trans_lt (hcountable.classes p.1 hmem), hanchors, ?_⟩
      rw [hchannels]
      exact Nat.mul_le_mul_left _ (by omega)
    · rw [rows_zip hlength, show (d.heads.map Head.rows).sum = d.rows from hrows,
        Nat.add_mul, Nat.one_mul]
  obtain ⟨table, htable⟩ := hbatch
  refine ⟨{
      boxes := .ofFn [batch, d.rows, 4] fun i => boxPart ((table[i / 4]?).getD .zero) (i % 4)
      scores := .ofFn [batch, d.rows, 1] fun i => ((table[i]?).getD .zero).score
      classes := .ofFn [batch, d.rows, 1] fun i => ((table[i]?).getD .zero).label }, ?_, ?_⟩
  · simp only [decode, hsources, Outcome.ok_bind, hshapes, hfirst, htable]
    rfl
  · simp [Tensor.ofFn, hdims]

end HeadDecoder

end GridNet
