import GridNet.Proofs.DecodedRows
import GridNet.Proofs.ScalarOrder
import Mathlib.Data.List.Induction

/-!
# The class of a decoded row

Decoding a box compares the values of its classes, from the first class on, with the best
value so far, and starts from class zero with the value zero. Where some value is above
zero, or the first one is not below zero, this finds the first of the largest values.
Logistic values and exponentials have no sign, so it always does for heads that decoding
activates itself; a head whose values are activated already may hold nothing but negative
values, and then the first class is named with the value zero.

* `Cell.Leads` — the first of the largest values.
* `Cell.argmax_cases`, `Cell.leads_argmax_iff` — what the comparison finds, by induction
  over the classes.
* `Cell.shows_of_unsigned`, `Cell.isNegative_sigmoid`, `Cell.isNegative_softmax` — values
  without a sign.
* `HeadDecoder.fills_of_decode` — a decoding that ends has filled its results.
* `HeadDecoder.decode_leads` — class and score of every row.
-/

namespace GridNet

/-! ## Numbers without a sign -/

namespace Scalar

variable {x y : Scalar}

theorem signed_nonneg (hx : x.isNegative = false) : 0 ≤ x.signed := by
  rw [signed, hx, if_neg Bool.false_ne_true]
  exact Int.natCast_nonneg _

theorem isNegative_roundSum {a b : Int} (ha : 0 ≤ a) (hb : 0 ≤ b) (i j : Int) :
    (roundSum a i b j false).isNegative = false := by
  unfold roundSum
  generalize (if i ≤ j then i else j) = e
  have htotal : (0 : Int) ≤ a * ((1 <<< (i - e).toNat : Nat) : Int) +
      b * ((1 <<< (j - e).toNat : Nat) : Int) :=
    Int.add_nonneg (Int.mul_nonneg ha (Int.natCast_nonneg _))
      (Int.mul_nonneg hb (Int.natCast_nonneg _))
  dsimp only
  split
  · rfl
  · rw [decide_eq_false (Int.not_lt.mpr htotal)]
    exact isNegative_round _ _

theorem isNegative_add (hx : x.isNegative = false) (hy : y.isNegative = false) :
    (x + y).isNegative = false := by
  change (add x y).isNegative = false
  unfold add
  split
  · rfl
  split
  · split
    · rfl
    · exact hx
  split
  · exact hy
  rw [hx, Bool.false_and]
  exact isNegative_roundSum (signed_nonneg hx) (signed_nonneg hy) _ _

theorem isNegative_div (hx : x.isNegative = false) (hy : y.isNegative = false) :
    (x / y).isNegative = false := by
  have hquotient : ∀ n d e,
      (ofWord false (BinaryFormat.single.quotient n d e)).isNegative = false := by
    intro n d e
    unfold BinaryFormat.quotient
    split
    · rfl
    · exact isNegative_round _ _
  change (div x y).isNegative = false
  unfold div
  dsimp only
  rw [hx, hy, bne_self_eq_false]
  repeat' split
  all_goals first | rfl | exact hquotient _ _ _

theorem isNegative_exp (x : Scalar) : x.exp.isNegative = false := by
  unfold exp
  dsimp only
  split
  · rfl
  split
  · split
    · rfl
    · next hsign => simpa using hsign
  split
  · rfl
  · exact isNegative_round _ _

/-- A number without a sign is not below zero. -/
theorem zero_le_of_isNegative (hx : x.isNegative = false) (hnan : x.isNaN = false) :
    zero.le x = true := by
  refine le_iff.mpr ⟨rfl, hnan, ?_⟩
  rw [key_zero, key, hx, if_neg Bool.false_ne_true]
  exact Int.natCast_nonneg _

end Scalar

/-! ## The first of the largest values -/

namespace Cell

variable {values : List Scalar} {i : Nat} {v : Scalar}

/-- **The first of the largest** of some values stands at place `i`, and `v` is equal to it. -/
structure Leads (values : List Scalar) (i : Nat) (v : Scalar) : Prop where
  stands : ∃ w, values[i]? = some w ∧ w.same v = true
  largest : ∀ w ∈ values, w.le v = true
  first : ∀ j < i, ∀ w, values[j]? = some w → w.lt v = true

/-- There is one first place only. -/
theorem Leads.unique {j : Nat} {w : Scalar} (h : Leads values i v)
    (h' : Leads values j w) : i = j := by
  have hle : ∀ {i j : Nat} {v w : Scalar}, Leads values i v → Leads values j w → i ≤ j := by
    intro i j v w h h'
    refine Nat.le_of_not_lt fun hlt => ?_
    obtain ⟨u, hu, hsame⟩ := h.stands
    obtain ⟨u', hu', hsame'⟩ := h'.stands
    obtain ⟨-, -, hbelow⟩ := Scalar.lt_iff.mp (h.first j hlt u' hu')
    obtain ⟨-, -, hlargest⟩ := Scalar.le_iff.mp (h'.largest u (List.mem_of_getElem? hu))
    obtain ⟨-, -, hkey⟩ := Scalar.same_iff.mp hsame
    obtain ⟨-, -, hkey'⟩ := Scalar.same_iff.mp hsame'
    omega
  exact Nat.le_antisymm (hle h h') (hle h' h)

/-- Some value is above zero, or the first one is not below. -/
def Shows (values : List Scalar) : Prop :=
  (∃ v ∈ values, Scalar.zero.lt v = true) ∨ ∃ v, values[0]? = some v ∧ Scalar.zero.le v = true

theorem argmax_concat (values : List Scalar) (v : Scalar) :
    argmax (values ++ [v]) = better (argmax values) (values.length, v) := by
  rw [argmax, List.length_append, List.length_singleton, List.range_succ,
    List.zip_append (List.length_range), List.foldl_append]
  rfl

/-- A value behind smaller ones leads. -/
theorem leads_concat {w : Scalar} (hw : w.isNaN = false) (h : ∀ u ∈ values, u.lt w = true) :
    Leads (values ++ [w]) values.length w := by
  refine ⟨⟨w, List.getElem?_concat_length, Scalar.same_iff.mpr ⟨hw, hw, rfl⟩⟩, fun u hu => ?_,
    fun j hj u hu => ?_⟩
  · rcases List.mem_append.mp hu with hu | hu
    · exact Scalar.le_of_lt (h u hu)
    · obtain rfl := List.mem_singleton.mp hu
      exact Scalar.le_refl hw
  · rw [List.getElem?_append_left hj] at hu
    exact h u (List.mem_of_getElem? hu)

/-- A value behind the others that is not larger changes nothing. -/
theorem Leads.concat {w : Scalar} (h : Leads values i v) (hw : w.le v = true) :
    Leads (values ++ [w]) i v := by
  obtain ⟨u, hu, hsame⟩ := h.stands
  have hi : i < values.length := (List.getElem?_eq_some_iff.mp hu).1
  refine ⟨⟨u, by rw [List.getElem?_append_left hi, hu], hsame⟩, fun u hu => ?_, fun j hj u hu => ?_⟩
  · rcases List.mem_append.mp hu with hu | hu
    · exact h.largest u hu
    · obtain rfl := List.mem_singleton.mp hu
      exact hw
  · rw [List.getElem?_append_left (hj.trans hi)] at hu
    exact h.first j hj u hu

/-- **What the comparison finds**, by induction over the classes from the last one: nothing above
zero, or the first of the largest values. -/
theorem argmax_cases (hnumbers : ∀ v ∈ values, v.isNaN = false) :
    (argmax values = (0, .zero) ∧ ∀ v ∈ values, v.le .zero = true) ∨
      (Scalar.zero.lt (argmax values).2 = true ∧
        Leads values (argmax values).1 (argmax values).2) := by
  induction values using List.reverseRecOn with
  | nil => exact .inl ⟨rfl, fun v hv => absurd hv List.not_mem_nil⟩
  | append_singleton values w ih =>
    have hw : w.isNaN = false := hnumbers w (by simp)
    rw [argmax_concat]
    rcases ih fun v hv => hnumbers v (List.mem_append_left _ hv) with ⟨hzero, hnone⟩ |
      ⟨hpositive, hleads⟩
    · rw [hzero]
      by_cases hlt : Scalar.zero.lt w = true
      · -- the first value above zero is above all in front of it
        rw [better, if_pos hlt]
        exact .inr ⟨hlt, leads_concat hw fun u hu => Scalar.lt_of_le_of_lt (hnone u hu) hlt⟩
      · rw [better, if_neg hlt]
        refine .inl ⟨rfl, fun u hu => ?_⟩
        rcases List.mem_append.mp hu with hu | hu
        · exact hnone u hu
        · obtain rfl := List.mem_singleton.mp hu
          exact (Scalar.not_lt_iff rfl hw).mp hlt
    · have hbest : (argmax values).2.isNaN = false := (Scalar.lt_iff.mp hpositive).2.1
      by_cases hlt : (argmax values).2.lt w = true
      · rw [better, if_pos hlt]
        refine .inr ⟨Scalar.lt_of_le_of_lt (Scalar.le_of_lt hpositive) hlt,
          leads_concat hw fun u hu => ?_⟩
        exact Scalar.lt_of_le_of_lt (hleads.largest u hu) hlt
      · rw [better, if_neg hlt]
        exact .inr ⟨hpositive, hleads.concat ((Scalar.not_lt_iff hbest hw).mp hlt)⟩

/-- **The comparison finds the first of the largest values** exactly where some value is above zero
or the first one is not below. -/
theorem leads_argmax_iff (hnumbers : ∀ v ∈ values, v.isNaN = false) :
    Leads values (argmax values).1 (argmax values).2 ↔ Shows values := by
  rcases argmax_cases hnumbers with ⟨hzero, hnone⟩ | ⟨hpositive, hleads⟩
  · rw [hzero]
    constructor
    · intro h
      obtain ⟨w, hw, hsame⟩ := h.stands
      obtain ⟨hnumber, -, hkey⟩ := Scalar.same_iff.mp hsame
      exact .inr ⟨w, hw, Scalar.le_iff.mpr ⟨rfl, hnumber, hkey.ge⟩⟩
    · rintro (⟨v, hv, hlt⟩ | ⟨v, hv, hle⟩)
      · exact absurd hlt ((Scalar.not_lt_iff rfl (hnumbers v hv)).mpr (hnone v hv))
      · have hmem : v ∈ values := List.mem_of_getElem? hv
        obtain ⟨-, -, hbelow⟩ := Scalar.le_iff.mp (hnone v hmem)
        obtain ⟨-, -, habove⟩ := Scalar.le_iff.mp hle
        exact ⟨⟨v, hv, Scalar.same_iff.mpr ⟨hnumbers v hmem, rfl, le_antisymm hbelow habove⟩⟩,
          hnone, fun j hj => absurd hj (Nat.not_lt_zero j)⟩
  · refine ⟨fun _ => ?_, fun _ => hleads⟩
    -- the leading value stands in the list, and is above zero
    obtain ⟨w, hw, hsame⟩ := hleads.stands
    obtain ⟨hnumber, -, hkey⟩ := Scalar.same_iff.mp hsame
    obtain ⟨-, -, hlt⟩ := Scalar.lt_iff.mp hpositive
    exact .inl ⟨w, List.mem_of_getElem? hw, Scalar.lt_iff.mpr ⟨rfl, hnumber, hkey ▸ hlt⟩⟩

/-- Otherwise it stays at the first class with the value zero. -/
theorem argmax_of_not_shows (hnumbers : ∀ v ∈ values, v.isNaN = false) (h : ¬ Shows values) :
    argmax values = (0, .zero) := by
  rcases argmax_cases hnumbers with ⟨hzero, -⟩ | ⟨-, hleads⟩
  · exact hzero
  · exact absurd ((leads_argmax_iff hnumbers).mp hleads) h

/-- Values without a sign. -/
theorem shows_of_unsigned (hnumbers : ∀ v ∈ values, v.isNaN = false)
    (hsigns : ∀ v ∈ values, v.isNegative = false) (hne : values ≠ []) : Shows values := by
  obtain ⟨v, rest, rfl⟩ := List.exists_cons_of_ne_nil hne
  exact .inr ⟨v, rfl, Scalar.zero_le_of_isNegative (hsigns v List.mem_cons_self)
    (hnumbers v List.mem_cons_self)⟩

/-! ## Logistic values and exponentials -/

theorem isNegative_sigmoid (x : Scalar) : (sigmoid x).isNegative = false :=
  Scalar.isNegative_div rfl (Scalar.isNegative_add rfl (Scalar.isNegative_exp _))

theorem isNegative_foldl_add {start : Scalar} (hstart : start.isNegative = false)
    (hsigns : ∀ v ∈ values, v.isNegative = false) :
    (values.foldl (· + ·) start).isNegative = false := by
  induction values generalizing start with
  | nil => exact hstart
  | cons v rest ih =>
    exact ih (Scalar.isNegative_add hstart (hsigns v List.mem_cons_self))
      fun w hw => hsigns w (List.mem_cons_of_mem _ hw)

theorem isNegative_softmax (values : List Scalar) : ∀ v ∈ softmax values, v.isNegative = false := by
  have hpowers : ∀ largest, ∀ v ∈ values.map fun v => (v - largest).exp, v.isNegative = false := by
    intro largest v hv
    obtain ⟨w, -, rfl⟩ := List.mem_map.mp hv
    exact Scalar.isNegative_exp _
  unfold softmax
  dsimp only
  split
  · intro v hv
    obtain ⟨w, hw, rfl⟩ := List.mem_map.mp hv
    exact Scalar.isNegative_div (hpowers _ w hw) (isNegative_foldl_add rfl (hpowers _))
  · exact hpowers _

theorem length_softmax (values : List Scalar) : (softmax values).length = values.length := by
  unfold softmax
  dsimp only
  split <;> simp

/-! ## What a box says of its classes -/

/-- The **probabilities** of the classes of a box. -/
def probabilities (kind : HeadKind) (activated : Bool) (c : Cell) : List Scalar :=
  match kind with
  | .yolo => if activated then c.classes else c.classes.map sigmoid
  | .region => softmax c.classes

/-- The probability that a box holds an object at all. -/
def presence (kind : HeadKind) (activated : Bool) (c : Cell) : Scalar :=
  if kind = .yolo ∧ activated then c.objectness else sigmoid c.objectness

theorem length_probabilities (kind : HeadKind) (activated : Bool) (c : Cell) :
    (c.probabilities kind activated).length = c.classes.length := by
  cases kind with
  | yolo =>
    unfold probabilities
    dsimp only
    split <;> simp
  | region => exact length_softmax c.classes

/-- Probabilities that decoding computes itself have no sign. -/
theorem isNegative_probabilities {kind : HeadKind} {activated : Bool}
    (h : ¬ (kind = .yolo ∧ activated)) (c : Cell) :
    ∀ v ∈ c.probabilities kind activated, v.isNegative = false := by
  cases kind with
  | yolo =>
    have hactivated : activated = false := by simpa using h
    intro v hv
    rw [probabilities, hactivated, if_neg Bool.false_ne_true] at hv
    obtain ⟨w, -, rfl⟩ := List.mem_map.mp hv
    exact isNegative_sigmoid w
  | region => exact isNegative_softmax c.classes

/-- **A decoded row** names what the comparison of the probabilities finds. -/
theorem decode_named (kind : HeadKind) (activated : Bool) (f : CellFrame) (c : Cell) :
    (c.decode kind activated f).label = .ofNat (argmax (c.probabilities kind activated)).1 ∧
      (c.decode kind activated f).score =
        c.presence kind activated * (argmax (c.probabilities kind activated)).2 := by
  cases kind with
  | region => exact ⟨rfl, rfl⟩
  | yolo => cases activated <;> exact ⟨rfl, rfl⟩

end Cell

/-- A row **names the class of a box** that is there with some probability and has the given
probabilities for its classes: the first of the largest, if some class is above zero or the first
one is not below, and else the first class with the value zero. The class stands there as the scalar
nearest to its number. -/
structure DecodedHeads.Names (r : DecodedHeads) (b row : Nat) (presence : Scalar)
    (probabilities : List Scalar) : Prop where
  leading : Cell.Shows probabilities → ∃ i v, Cell.Leads probabilities i v ∧
    r.classes.get [b, row, 0] = .ofNat i ∧ r.scores.get [b, row, 0] = presence * v
  otherwise : ¬ Cell.Shows probabilities →
    r.classes.get [b, row, 0] = .ofNat 0 ∧ r.scores.get [b, row, 0] = presence * .zero

/-! ## What a finished decoding has found -/

namespace HeadDecoder

variable {d : HeadDecoder} {inputs : List Tensor} {r : DecodedHeads}

/-- **Heads that have been decoded** have found what they read, and the image has their rows, by
induction over the heads. -/
theorem finds_of_decodeHeads {b : Nat} {pairs : List (Head × Tensor)} {offset : Nat}
    {table last : Array DecodedRow} (hoffset : offset ≤ (b + 1) * d.rows)
    (hheads : d.decodeHeads b offset pairs table = .ok last) : ∀ p ∈ pairs, d.Finds p.1 p.2 := by
  induction pairs generalizing offset table with
  | nil => exact fun p hp => absurd hp List.not_mem_nil
  | cons p rest ih =>
    obtain ⟨h, t⟩ := p
    rw [decodeHeads] at hheads
    obtain ⟨_, hcounted, hheads⟩ := Outcome.bind_eq_ok.mp hheads
    obtain ⟨next, hslots, hrest⟩ := Outcome.bind_eq_ok.mp hheads
    have hslot : ∀ slot < h.boxes, (h.anchor slot).isSome ∧
        (slot + 1) * (5 + d.classes) ≤ t.extent 1 ∧
        offset + (slot + 1) * h.gridWidth * h.gridHeight ≤ (b + 1) * d.rows := by
      intro slot hlt
      obtain ⟨_, _, hone⟩ := Outcome.foldlM_mem hslots (List.mem_range.mpr hlt)
      obtain ⟨anchor, hanchor, hchannels, hrows, -⟩ := decodeSlot_eq_ok.mp hone
      exact ⟨Option.isSome_of_eq_some hanchor, hchannels, hrows⟩
    -- what the last box needs is what all of them need
    have hall : h.boxes * (5 + d.classes) ≤ t.extent 1 ∧ offset + h.rows ≤ (b + 1) * d.rows := by
      rw [Head.rows]
      rcases hboxes : h.boxes with _ | n
      · simpa using hoffset
      · exact (hslot n (by omega)).2
    intro p hp
    rcases List.mem_cons.mp hp with rfl | hp
    · exact ⟨(Word.add_eq_ok.mp hcounted).1, fun slot hlt => (hslot slot hlt).1, hall.1⟩
    · exact ih hall.2 hrest p hp

/-- **A decoding that ends has filled its results.** -/
theorem fills_of_decode (h : d.decode inputs = .ok r) : ∃ batch, d.Fills inputs batch r := by
  obtain ⟨sources, hsources, hrest⟩ := Outcome.bind_eq_ok.mp h
  obtain ⟨shapes, hshapes, hrest⟩ := Outcome.bind_eq_ok.mp hrest
  obtain ⟨table, htable, -⟩ := Outcome.bind_eq_ok.mp hrest
  have hinputs : List.Forall₂ (fun t s => t.dims = s.dims) inputs sources :=
    (Outcome.mapM_eq_ok.mp hsources).imp fun t s hs => (Shape.ofDims_eq_ok.mp hs).symm
  obtain ⟨-, -, -, batch, hfirst, -, hdims, -⟩ := accepted_dims hshapes hinputs
  rw [hfirst] at htable
  have hbatch : 0 < batch := by
    obtain ⟨boxes, others, rfl, hboxes, -⟩ := List.map_eq_cons_iff.mp hdims
    exact boxes.positive batch (by rw [hboxes]; exact List.mem_cons_self)
  obtain ⟨_, _, himage⟩ := Outcome.foldlM_mem htable (List.mem_range.mpr hbatch)
  have hpairs := finds_of_decodeHeads (by omega) himage
  obtain ⟨r', batch', hdecode, hfills⟩ := exists_fills_of_pairs hshapes hinputs hpairs
  obtain rfl := Except.ok.inj (h.symm.trans hdecode)
  exact ⟨batch', hfills⟩

/-! ## Class and score -/

/-- **Class and score of every row.** A decoding that ends fills its results. Where no probability
of a box is missing, its row names the first of the largest; only a head whose values are activated
already can fail to show one. -/
theorem decode_leads (h : d.decode inputs = .ok r) (hclasses : 0 < d.classes) :
    ∃ batch, d.Fills inputs batch r ∧
      ∀ b < batch, ∀ p : Place, p.In d.heads → ∀ head t, d.heads[p.head]? = some head →
      inputs[p.head]? = some t →
        let c := d.cell t b p.slot p.y p.x
        let probabilities := c.probabilities head.kind d.activated
        (∀ v ∈ probabilities, v.isNaN = false) →
          r.Names b (p.rowOf d.heads) (c.presence head.kind d.activated) probabilities ∧
            (¬ (head.kind = .yolo ∧ d.activated) → Cell.Shows probabilities) := by
  obtain ⟨batch, hfills⟩ := fills_of_decode h
  refine ⟨batch, hfills, fun b hb p hp head t hhead ht => ?_⟩
  obtain ⟨head', t', anchor, hhead', ht', -, hrow⟩ := hfills.rows b hb p hp
  obtain rfl := Option.some.inj (hhead.symm.trans hhead')
  obtain rfl := Option.some.inj (ht.symm.trans ht')
  intro c probabilities hnumbers
  obtain ⟨hlabel, hscore⟩ := Cell.decode_named head.kind d.activated (d.frame head anchor p.y p.x) c
  have hclass := hrow.label.trans hlabel
  have hvalue := hrow.score.trans hscore
  refine ⟨⟨fun hshows => ?_, fun hnot => ?_⟩, fun hkind => ?_⟩
  · exact ⟨_, _, (Cell.leads_argmax_iff hnumbers).mpr hshows, hclass, hvalue⟩
  · have hnone : Cell.argmax (c.probabilities head.kind d.activated) = (0, .zero) :=
      Cell.argmax_of_not_shows hnumbers hnot
    rw [hnone] at hclass hvalue
    exact ⟨hclass, hvalue⟩
  · refine Cell.shows_of_unsigned hnumbers (Cell.isNegative_probabilities hkind c)
      (List.ne_nil_of_length_pos ?_)
    rw [Cell.length_probabilities]
    simpa [c, cell] using hclasses

/-- Two heads of different kinds with three classes. -/
def tiedHeads : HeadDecoder :=
  ofHeads 8 4 3 false
    [{ name := "yolo_0", kind := .yolo, gridWidth := 1, gridHeight := 1, boxes := 1,
       classes := 3, anchors := [.one, .two], mask := [], centreScale := .one },
     { name := "region_1", kind := .region, gridWidth := 1, gridHeight := 1, boxes := 1,
       classes := 3, anchors := [.one, .two], mask := [], centreScale := .one }]

/-- Values of one box, of whose classes the last two are equal. -/
def tiedInput : Tensor :=
  ⟨[1, 8, 1, 1], #[.zero, .zero, .zero, .zero, .one, .half, .two, .two], by decide⟩

/-- The second class leads in both heads. -/
theorem decode_leads_tiedHeads :
    let c := tiedHeads.cell tiedInput 0 0 0 0
    ∃ r, tiedHeads.decode [tiedInput, tiedInput] = .ok r ∧ 0 < tiedHeads.classes ∧
      Cell.Leads (c.probabilities .yolo false) 1 (Cell.sigmoid .two) ∧
      r.Names 0 0 (c.presence .yolo false) (c.probabilities .yolo false) ∧
      Cell.Shows (c.probabilities .region false) ∧
      r.Names 0 1 (c.presence .region false) (c.probabilities .region false) := by
  intro c
  have hdecode : (tiedHeads.decode [tiedInput, tiedInput]).toOption.isSome = true := by
    decide +kernel
  obtain ⟨r, hr⟩ := Option.isSome_iff_exists.mp hdecode
  have hr := Outcome.toOption_eq_some.mp hr
  have hyolo : ∀ v ∈ c.probabilities .yolo false, v.isNaN = false := by decide +kernel
  have hregion : ∀ v ∈ c.probabilities .region false, v.isNaN = false := by decide +kernel
  obtain ⟨batch, hfills, hrows⟩ := decode_leads hr (by decide)
  have hbatch : 0 < batch := by
    rw [← hfills.images tiedInput List.mem_cons_self]
    decide
  obtain ⟨hfirst, hshows⟩ := hrows 0 hbatch ⟨0, 0, 0, 0⟩ ⟨_, rfl, by decide⟩ _ _ rfl rfl hyolo
  obtain ⟨hsecond, hshows'⟩ := hrows 0 hbatch ⟨1, 0, 0, 0⟩ ⟨_, rfl, by decide⟩ _ _ rfl rfl hregion
  have hleads := (Cell.leads_argmax_iff hyolo).mpr (hshows (by decide))
  have hargmax : Cell.argmax (c.probabilities .yolo false) = (1, Cell.sigmoid .two) := by
    decide +kernel
  rw [hargmax] at hleads
  exact ⟨r, hr, by decide, hleads, hfirst, hshows' (by decide), hsecond⟩

/-- A head whose values are activated already, with two classes. -/
def activatedHead : HeadDecoder :=
  ofHeads 1 1 2 true
    [{ name := "yolo_0", kind := .yolo, gridWidth := 1, gridHeight := 1, boxes := 1, classes := 2,
       anchors := [.one, .one], mask := [], centreScale := .one }]

/-- A box whose second class has the larger value, though it is below zero. -/
def belowZeroInput : Tensor :=
  ⟨[1, 7, 1, 1], #[.half, .half, .half, .half, .half, -.one, -.half], by decide⟩

/-- **Values below zero** are all passed over: the first class is named, with the value zero. -/
theorem activatedHead_passes_over :
    let probabilities := (activatedHead.cell belowZeroInput 0 0 0 0).probabilities .yolo true
    ∃ r, activatedHead.decode [belowZeroInput] = .ok r ∧ (∀ v ∈ probabilities, v.isNaN = false) ∧
      Cell.Leads probabilities 1 (-.half) ∧
      r.classes.get [0, 0, 0] = .ofNat 0 ∧ r.scores.get [0, 0, 0] = .zero ∧
      ¬ ∃ i v, Cell.Leads probabilities i v ∧ r.classes.get [0, 0, 0] = .ofNat i := by
  intro probabilities
  have hdecode : ((activatedHead.decode [belowZeroInput]).toOption.map fun r =>
      (r.classes.get [0, 0, 0], r.scores.get [0, 0, 0])) = some (.ofNat 0, .zero) := by
        decide +kernel
  obtain ⟨r, hr, hrow⟩ := Option.map_eq_some_iff.mp hdecode
  obtain ⟨hclass, hscore⟩ := Prod.mk.inj hrow
  have hvalues : probabilities = [] ++ [-.one] ++ [-.half] := by decide +kernel
  have hleads : Cell.Leads probabilities 1 (-.half) := by
    rw [hvalues]
    exact Cell.leads_concat (by decide) (by decide)
  refine ⟨r, Outcome.toOption_eq_some.mp hr, by rw [hvalues]; decide, hleads, hclass, hscore, ?_⟩
  rintro ⟨i, v, hother, hnamed⟩
  obtain rfl := hother.unique hleads
  exact absurd (hclass.symm.trans hnamed) (by decide)

end HeadDecoder

end GridNet
