import GridNet.Calibration.Ranges
import GridNet.Proofs.ObservedRuns
import GridNet.Proofs.ScalarOrder
import Mathlib.Data.List.Induction
import Mathlib.Data.List.Sort

/-!
# Peaks of what has been observed

The ranges that are recorded hold, for each tensor that has been observed and that no decoding made,
the largest absolute value of all its numbers; missing numbers do not count, and where there is no
number it is zero. Which observation came first plays no part.

* `Largest` — the largest absolute value of some numbers; `Largest.or`, `Largest.unique`.
* `Ranges.Covers`, `Ranges.Covers.record` — what ranges know of some observations, and one
  observation more.
* `Ranges.covers_observed` — what they know of all.
* `Graph.measured`, `Ranges.Covers.table` — the lines of a table, one for each tensor of a graph.
-/

namespace GridNet

/-! ## The largest absolute value -/

namespace Scalar

variable {x y : Scalar}

theorem magnitude_abs (x : Scalar) : x.abs.magnitude = x.magnitude := by
  refine UInt32.toNat_inj.mp ?_
  rw [magnitude, abs, magnitude, UInt32.toNat_mod, UInt32.toNat_mod, Nat.mod_mod]

theorem isNaN_abs (x : Scalar) : x.abs.isNaN = x.isNaN := by rw [isNaN, isNaN, magnitude_abs]

/-- A missing number gives way. -/
theorem max_of_isNaN (hx : x.isNaN = false) (hy : y.isNaN = true) : x.max y = x := by
  simp [max, lt, hx, hy]

end Scalar

/-- The **largest absolute value** of some numbers: it is that of one of them, or zero if there is
none, and that of no other is above it. -/
structure Largest (values : Scalar → Prop) (peak : Scalar) : Prop where
  reached : peak = .zero ∨ ∃ v, values v ∧ v.isNaN = false ∧ peak = v.abs
  bound : ∀ v, values v → v.isNaN = false → v.abs.le peak = true

namespace Largest

variable {P Q : Scalar → Prop} {p q v : Scalar}

theorem isNaN (h : Largest P p) : p.isNaN = false := by
  rcases h.reached with rfl | ⟨v, -, hv, rfl⟩
  · decide
  · rw [Scalar.isNaN_abs, hv]

theorem none : Largest (fun _ => False) .zero := ⟨.inl rfl, fun _ h => h.elim⟩

/-- **Two sets of numbers together.** -/
theorem or (hp : Largest P p) (hq : Largest Q q) : Largest (fun v => P v ∨ Q v) (p.max q) := by
  have hreached : ∀ {R : Scalar → Prop}, (∀ v, R v → P v ∨ Q v) → ∀ {r : Scalar},
      (r = .zero ∨ ∃ v, R v ∧ v.isNaN = false ∧ r = v.abs) →
      r = .zero ∨ ∃ v, (P v ∨ Q v) ∧ v.isNaN = false ∧ r = v.abs := by
    intro R hR r h
    exact h.imp_right fun ⟨v, hv, hnumber⟩ => ⟨v, hR v hv, hnumber⟩
  rcases Scalar.max_cases hp.isNaN hq.isNaN with ⟨hmax, hle⟩ | ⟨hmax, hle⟩
  · rw [hmax]
    refine ⟨hreached (fun _ => .inl) hp.reached, fun v hv hnumber => ?_⟩
    exact hv.elim (hp.bound v · hnumber) fun hv => Scalar.le_trans (hq.bound v hv hnumber) hle
  · rw [hmax]
    refine ⟨hreached (fun _ => .inr) hq.reached, fun v hv hnumber => ?_⟩
    exact hv.elim (fun hv => Scalar.le_trans (hp.bound v hv hnumber) hle) (hq.bound v · hnumber)

/-- **One number more.** -/
theorem next (hp : Largest P p) (v : Scalar) : Largest (fun w => P w ∨ w = v) (p.max v.abs) := by
  by_cases hv : v.isNaN = true
  · rw [Scalar.max_of_isNaN hp.isNaN (by rwa [Scalar.isNaN_abs])]
    refine ⟨hp.reached.imp_right fun ⟨w, hw, hnumber⟩ => ⟨w, .inl hw, hnumber⟩,
      fun w hw hnumber => ?_⟩
    rcases hw with hw | rfl
    · exact hp.bound w hw hnumber
    · rw [hv] at hnumber
      cases hnumber
  · have hnumber : v.isNaN = false := by simpa using hv
    refine hp.or ⟨.inr ⟨v, rfl, hnumber, rfl⟩, fun w hw _ => ?_⟩
    rw [hw]
    exact Scalar.le_refl (by rwa [Scalar.isNaN_abs])

theorem congr (hp : Largest P p) (h : ∀ v, P v ↔ Q v) : Largest Q p := by
  obtain rfl : P = Q := funext fun v => propext (h v)
  exact hp

/-- Absolute values are ordered by their words. -/
theorem key_eq (h : Largest P p) : p.bits.toNat < 0x80000000 ∧ p.key = p.bits.toNat := by
  have hsmall : p.bits.toNat < 0x80000000 := by
    rcases h.reached with rfl | ⟨v, -, -, rfl⟩
    · decide
    · exact Nat.mod_lt _ (by decide)
  have hpositive : p.isNegative = false := by
    rw [Scalar.isNegative, decide_eq_false_iff_not, UInt32.le_iff_toNat_le]
    exact Nat.not_le.mpr hsmall
  refine ⟨hsmall, ?_⟩
  rw [Scalar.key, hpositive, if_neg Bool.false_ne_true, Scalar.magnitude, UInt32.toNat_mod]
  exact congrArg _ (Nat.mod_eq_of_lt hsmall)

/-- There is one largest absolute value only. -/
theorem unique (hp : Largest P p) (hq : Largest P q) : p = q := by
  have hle : ∀ {p q : Scalar}, Largest P p → Largest P q → p.bits.toNat ≤ q.bits.toNat := by
    intro p q hp hq
    rcases hp.reached with rfl | ⟨v, hv, hnumber, rfl⟩
    · exact Nat.zero_le _
    · have hbound := hq.bound v hv hnumber
      simp only [Scalar.le, Bool.and_eq_true, decide_eq_true_eq, hp.key_eq.2, hq.key_eq.2] at hbound
      omega
  have hbits : p.bits = q.bits := UInt32.toNat_inj.mp (Nat.le_antisymm (hle hp hq) (hle hq hp))
  obtain ⟨bits⟩ := p
  obtain ⟨bits'⟩ := q
  exact congrArg _ hbits

end Largest

/-! ## Ranges -/

/-- **Widening** changes the range of the tensor, or adds one if there is none. -/
theorem mem_widenRange {t : TensorId} {label : String} {peak : Scalar} {ranges : List Range}
    (hascending : ranges.Pairwise (·.tensor < ·.tensor)) {e : Range} :
    e ∈ widenRange t label peak ranges ↔
      (e ∈ ranges ∧ e.tensor ≠ t) ∨
        (∃ e' ∈ ranges, e'.tensor = t ∧ e = { e' with peak := e'.peak.max peak }) ∨
        (∀ e' ∈ ranges, e'.tensor ≠ t) ∧ e = ⟨t, label, Scalar.zero.max peak⟩ := by
  induction ranges with
  | nil => simp [widenRange]
  | cons head rest ih =>
    obtain ⟨habove, hrest⟩ := List.pairwise_cons.mp hascending
    rw [widenRange]
    split
    · next hsame =>
      have hne : ∀ e ∈ rest, e.tensor ≠ t := fun e he => hsame ▸ (habove e he).ne'
      constructor
      · intro he
        rcases List.mem_cons.mp he with rfl | he
        · exact .inr (.inl ⟨head, List.mem_cons_self, hsame.symm, rfl⟩)
        · exact .inl ⟨List.mem_cons_of_mem _ he, hne e he⟩
      · rintro (⟨he, hother⟩ | ⟨e', he', htensor, rfl⟩ | ⟨hnone, -⟩)
        · rcases List.mem_cons.mp he with rfl | he
          · exact absurd hsame.symm hother
          · exact List.mem_cons_of_mem _ he
        · rcases List.mem_cons.mp he' with rfl | he'
          · exact List.mem_cons_self
          · exact absurd htensor (hne e' he')
        · exact absurd hsame.symm (hnone head List.mem_cons_self)
    · next hother =>
      split
      · next hbelow =>
        have hne : ∀ e ∈ head :: rest, e.tensor ≠ t := by
          intro e he
          rcases List.mem_cons.mp he with rfl | he
          · exact hbelow.ne'
          · exact (hbelow.trans (habove e he)).ne'
        constructor
        · intro he
          rcases List.mem_cons.mp he with rfl | he
          · exact .inr (.inr ⟨hne, rfl⟩)
          · exact .inl ⟨he, hne e he⟩
        · rintro (⟨he, -⟩ | ⟨e', he', htensor, -⟩ | ⟨-, rfl⟩)
          · exact List.mem_cons_of_mem _ he
          · exact absurd htensor (hne e' he')
          · exact List.mem_cons_self
      · have hhead : head.tensor ≠ t := Ne.symm hother
        rw [List.mem_cons, ih hrest]
        constructor
        · rintro (rfl | ⟨he, hne⟩ | ⟨e', he', hchanged⟩ | ⟨hnone, rfl⟩)
          · exact .inl ⟨List.mem_cons_self, hhead⟩
          · exact .inl ⟨List.mem_cons_of_mem _ he, hne⟩
          · exact .inr (.inl ⟨e', List.mem_cons_of_mem _ he', hchanged⟩)
          · exact .inr (.inr ⟨List.forall_mem_cons.mpr ⟨hhead, hnone⟩, rfl⟩)
        · rintro (⟨he, hne⟩ | ⟨e', he', htensor, rfl⟩ | ⟨hnone, rfl⟩)
          · exact (List.mem_cons.mp he).imp_right fun he => .inl ⟨he, hne⟩
          · rcases List.mem_cons.mp he' with rfl | he'
            · exact absurd htensor hhead
            · exact .inr (.inr (.inl ⟨e', he', htensor, rfl⟩))
          · exact .inr (.inr (.inr ⟨(List.forall_mem_cons.mp hnone).2, rfl⟩))

namespace Ranges

/-- The peak of a list of numbers. -/
theorem peakOf_largest (values : List Scalar) : Largest (· ∈ values) (peakOf values) := by
  suffices h : ∀ {P p}, Largest P p →
      Largest (fun v => P v ∨ v ∈ values) (values.foldl (fun peak v => peak.max v.abs) p) from
    (h Largest.none).congr fun v => by simp
  induction values with
  | nil =>
    intro P p hp
    exact hp.congr fun v => by simp
  | cons v rest ih =>
    intro P p hp
    exact (ih (hp.next v)).congr fun w => by simp [or_assoc]

/-- A number that has been **recorded** for a tensor: it belongs to an observation of the tensor
that no decoding made. -/
def Recorded (seen : List Observation) (t : TensorId) (v : Scalar) : Prop :=
  ∃ o ∈ seen, isDecode o.node = false ∧ o.id = t ∧ v ∈ o.value.data.toList

/-- What ranges **know of some observations**. -/
structure Covers (seen : List Observation) (r : Ranges) : Prop where
  /-- each range is that of an observed tensor, and has its name -/
  named : ∀ e ∈ r.entries, ∃ o ∈ seen, isDecode o.node = false ∧ o.id = e.tensor ∧
    e.label = labelOf o.node o.id
  /-- each observed tensor has a range -/
  complete : ∀ o ∈ seen, isDecode o.node = false → ∃ e ∈ r.entries, e.tensor = o.id
  peaks : ∀ e ∈ r.entries, Largest (Recorded seen e.tensor) e.peak

variable {seen : List Observation} {o : Observation} {r : Ranges}

theorem covers_empty : Covers [] empty where
  named _ h := absurd h List.not_mem_nil
  complete _ h := absurd h List.not_mem_nil
  peaks _ h := absurd h List.not_mem_nil

/-- **One observation more.** -/
theorem Covers.record (h : Covers seen r) (o : Observation) :
    Covers (seen ++ [o]) (r.record o) := by
  have hnamed : ∀ e ∈ r.entries, ∃ o' ∈ seen ++ [o],
      isDecode o'.node = false ∧ o'.id = e.tensor ∧ e.label = labelOf o'.node o'.id := by
    intro e he
    obtain ⟨o', hmem, ho'⟩ := h.named e he
    exact ⟨o', List.mem_append_left _ hmem, ho'⟩
  have hrecorded : ∀ {t v}, Recorded (seen ++ [o]) t v ↔
      Recorded seen t v ∨ isDecode o.node = false ∧ o.id = t ∧ v ∈ o.value.data.toList := by
    intro t v
    simp [Recorded, or_and_right, exists_or]
  rw [Ranges.record]
  split
  · next hdecode =>
    refine ⟨hnamed, fun o' ho' hplain => ?_, fun e he => ?_⟩
    · rcases List.mem_append.mp ho' with ho' | ho'
      · exact h.complete o' ho' hplain
      · obtain rfl := List.mem_singleton.mp ho'
        rw [hdecode] at hplain
        cases hplain
    · exact (h.peaks e he).congr fun v => by simp [hrecorded, hdecode]
  · next hdecode =>
    have hplain : isDecode o.node = false := by simpa using hdecode
    have hwiden := @mem_widenRange o.id (labelOf o.node o.id)
      (peakOf o.value.data.toList) r.entries r.ascending
    have hmem : o ∈ seen ++ [o] := List.mem_append_right _ List.mem_cons_self
    have hpeak := peakOf_largest o.value.data.toList
    refine ⟨fun e he => ?_, fun o' ho' hplain' => ?_, fun e he => ?_⟩
    · rcases hwiden.mp he with ⟨he, -⟩ | ⟨e', he', -, rfl⟩ | ⟨-, rfl⟩
      · exact hnamed e he
      · exact hnamed e' he'
      · exact ⟨o, hmem, hplain, rfl, rfl⟩
    · -- the range that there was, or the one that is new
      have hrange : (∃ e ∈ r.entries, e.tensor = o'.id) ∨ o'.id = o.id := by
        rcases List.mem_append.mp ho' with ho' | ho'
        · exact .inl (h.complete o' ho' hplain')
        · exact .inr (congrArg _ (List.mem_singleton.mp ho'))
      by_cases hid : o'.id = o.id
      · by_cases hold : ∃ e ∈ r.entries, e.tensor = o.id
        · obtain ⟨e, he, htensor⟩ := hold
          exact ⟨_, hwiden.mpr (.inr (.inl ⟨e, he, htensor, rfl⟩)), htensor.trans hid.symm⟩
        · simp only [not_exists, not_and] at hold
          exact ⟨_, hwiden.mpr (.inr (.inr ⟨hold, rfl⟩)), hid.symm⟩
      · obtain ⟨e, he, htensor⟩ := hrange.resolve_right hid
        exact ⟨e, hwiden.mpr (.inl ⟨he, htensor ▸ hid⟩), htensor⟩
    · rcases hwiden.mp he with ⟨he, hne⟩ | ⟨e', he', htensor, rfl⟩ | ⟨hnone, rfl⟩
      · exact (h.peaks e he).congr fun v => by simp [hrecorded, Ne.symm hne]
      · exact ((h.peaks e' he').or hpeak).congr fun v => by simp [hrecorded, hplain, htensor]
      · -- nothing has been recorded for a tensor without a range
        have hnew : ∀ v, ¬ Recorded seen o.id v := by
          rintro v ⟨o', ho', hplain', hid, -⟩
          obtain ⟨e, he, htensor⟩ := h.complete o' ho' hplain'
          exact hnone e he (htensor.trans hid)
        exact (Largest.none.or hpeak).congr fun v => by simp [hrecorded, hplain, hnew]

/-- **All observations**, by induction over them. -/
theorem covers_observed (seen : List Observation) :
    Covers seen (seen.foldl Ranges.record empty) := by
  induction seen using List.reverseRecOn with
  | nil => exact covers_empty
  | append_singleton seen o ih =>
    rw [List.foldl_concat]
    exact ih.record o

end Ranges

/-! ## Tables -/

/-- The results that **have a place in a table**: those that no decoding makes, in the
order of the nodes. -/
def Graph.measured (g : Graph) : List (Node × TensorId) :=
  g.results.filter fun result => !Ranges.isDecode result.1

/-- They are numbered in this order. -/
theorem Graph.WellFormed.measured_ascending {g : Graph} (hg : g.WellFormed) :
    g.measured.Pairwise (·.2 < ·.2) :=
  hg.results_ascending.filter _

namespace Ranges

/-- The **line of a tensor**: the name of the operation, the number, and eight digits for the bits
of the scale, which covers the largest absolute value with 127 steps. -/
def TableLine (seen : List Observation) (result : Node × TensorId) (line : String) : Prop :=
  ∃ peak, Largest (Recorded seen result.2) peak ∧
    line = result.1.operation.name ++ "_" ++ toString result.2 ++ ": " ++
      Hex.ofNat 8 (peak / Scalar.ofNat 127).bits.toNat ++ "\n"

variable {g : Graph} {seen : List Observation} {r : Ranges}

/-- Where all results of a graph have been observed, and nothing else, the ranges are those of the
results in the table, in their order. -/
theorem Covers.tensors (h : Covers seen r) (hg : g.WellFormed)
    (hobserved : ∀ node t, (∃ o ∈ seen, o.node = node ∧ o.id = t) ↔ (node, t) ∈ g.results) :
    r.entries.map (fun e => (e.tensor, e.label)) =
      g.measured.map fun result => (result.2, labelOf result.1 result.2) := by
  have hentries : (r.entries.map fun e => (e.tensor, e.label)).Pairwise (·.1 < ·.1) :=
    List.pairwise_map.mpr r.ascending
  have hresults : (g.measured.map fun result => (result.2, labelOf result.1 result.2)).Pairwise
      (·.1 < ·.1) :=
    List.pairwise_map.mpr hg.measured_ascending
  -- both are ascending, so that they agree as soon as they have the same members
  refine hentries.eq_of_mem_iff hresults fun p => ?_
  simp only [List.mem_map]
  constructor
  · rintro ⟨e, he, rfl⟩
    obtain ⟨o, ho, hplain, hid, hlabel⟩ := h.named e he
    have hresult := (hobserved o.node o.id).mp ⟨o, ho, rfl, rfl⟩
    exact ⟨(o.node, o.id), List.mem_filter.mpr ⟨hresult, by simp [hplain]⟩, by rw [hlabel, hid]⟩
  · rintro ⟨⟨node, t⟩, hmem, rfl⟩
    obtain ⟨hresult, hplain⟩ := List.mem_filter.mp hmem
    obtain ⟨o, ho, rfl, rfl⟩ := (hobserved node t).mpr hresult
    obtain ⟨e, he, htensor⟩ := h.complete o ho (by simpa using hplain)
    obtain ⟨o', ho', -, hid, hlabel⟩ := h.named e he
    have hid : o'.id = o.id := hid.trans htensor
    have hnode : o'.node = o.node :=
      hg.results_unique ((hobserved o'.node o'.id).mp ⟨o', ho', rfl, rfl⟩) (hid ▸ hresult)
    exact ⟨e, he, by rw [htensor, hlabel, hnode, hid]⟩

/-- **The table of a graph** has a title, and one line for each of these results. -/
theorem Covers.table (h : Covers seen r) (hg : g.WellFormed)
    (hobserved : ∀ node t, (∃ o ∈ seen, o.node = node ∧ o.id = t) ↔ (node, t) ∈ g.results) :
    r.size = g.measured.length ∧ ∃ lines, List.Forall₂ (TableLine seen) g.measured lines ∧
      r.table = "DarknetEntropyCalibration\n" ++ String.join lines := by
  have htensors := h.tensors hg hobserved
  refine ⟨by simpa [size] using congrArg List.length htensors, _, ?_, rfl⟩
  have hmatching : List.Forall₂ (fun (e : Range) (result : Node × TensorId) =>
      e.tensor = result.2 ∧ e.label = labelOf result.1 result.2) r.entries g.measured := by
    have hequal := List.forall₂_eq_eq_eq ▸ htensors
    simpa [List.forall₂_map_left_iff, List.forall₂_map_right_iff] using hequal
  rw [List.forall₂_map_right_iff]
  have hranges := (List.forall₂_and_left _ _).mpr ⟨h.peaks, hmatching⟩
  refine List.Forall₂.flip (hranges.imp ?_)
  rintro e ⟨node, t⟩ ⟨hpeak, htensor, hlabel⟩
  subst htensor
  exact ⟨e.peak, hpeak, by rw [hlabel]; rfl⟩

end Ranges

end GridNet
