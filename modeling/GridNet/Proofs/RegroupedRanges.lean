import GridNet.Proofs.PeakTables
import GridNet.Proofs.TextCuts

/-!
# Ranges of regrouped observations

What is recorded of a tensor is a set of numbers. In which order they came, and in how many pieces,
leaves no trace in the ranges, and so none in the table that is stored. The name of a range says
which tensor it belongs to, because the number of the tensor stands behind the last underscore.

* `Ranges.splitAtFirst_labelOf`, `Ranges.labelOf_inj` — different tensors have different names.
* `Ranges.SameRecords`, `Ranges.Covers.eq_of_same` — ranges hang on nothing but what has
  been recorded.
* `Ranges.Regroups`, `Ranges.Regroups.same` — observations in another order or in other pieces
  record the same.
* `Ranges.observed_regrouped` — the ranges of some observations, and of the same
  observations regrouped.
-/

namespace GridNet

/-- A largest absolute value is not below zero. -/
theorem Largest.zero_le {values : Scalar → Prop} {peak : Scalar} (h : Largest values peak) :
    Scalar.zero.le peak = true := by
  have hzero : Scalar.zero.key = 0 := by decide
  refine Scalar.le_iff.mpr ⟨by decide, h.isNaN, ?_⟩
  rw [hzero, h.key_eq.2]
  exact Int.natCast_nonneg _

namespace Ranges

/-! ## Names -/

variable {node node' : Node} {t t' : TensorId}

/-- Read from its end, a name has the number of the tensor in front of the first underscore. -/
theorem splitAtFirst_labelOf (node : Node) (t : TensorId) :
    splitAtFirst '_' (labelOf node t).toList.reverse =
      some ((toString t).toList.reverse, node.operation.name.toList.reverse) := by
  have hlabel : labelOf node t = node.operation.name ++ "_" ++ toString t := rfl
  have hbackwards : (labelOf node t).toList.reverse =
      (toString t).toList.reverse ++ '_' :: node.operation.name.toList.reverse := by
    simp [hlabel]
  rw [hbackwards]
  exact splitAtFirst_append (by simp) _

/-- **Different tensors** have different names. -/
theorem labelOf_inj (h : labelOf node t = labelOf node' t') : t = t' := by
  have hcut := splitAtFirst_labelOf node t
  rw [h, splitAtFirst_labelOf] at hcut
  have hdigits := List.reverse_injective (Prod.mk.inj (Option.some.inj hcut)).1
  rw [Nat.toString_eq_repr, Nat.toString_eq_repr, Nat.toList_repr, Nat.toList_repr] at hdigits
  rw [← Nat.ofDigitChars_ten_toDigits (n := t), ← hdigits, Nat.ofDigitChars_ten_toDigits]

/-! ## What has been recorded -/

/-- Each tensor comes **with one node** only. -/
def OneNodeEach (seen : List Observation) : Prop :=
  ∀ o ∈ seen, ∀ o' ∈ seen, o.id = o'.id → o.node = o'.node

/-- Two lists of observations **record the same**: the same tensors with the same nodes, and for
each tensor the same numbers. -/
structure SameRecords (seen seen' : List Observation) : Prop where
  tensors : ∀ node t, (∃ o ∈ seen, o.node = node ∧ o.id = t) ↔ ∃ o ∈ seen', o.node = node ∧ o.id = t
  numbers : ∀ t v, Recorded seen t v ↔ Recorded seen' t v

variable {seen seen' seen'' : List Observation} {r r' : Ranges}

theorem SameRecords.symm (h : SameRecords seen seen') : SameRecords seen' seen :=
  ⟨fun node t => (h.tensors node t).symm, fun t v => (h.numbers t v).symm⟩

theorem SameRecords.trans (h : SameRecords seen seen') (h' : SameRecords seen' seen'') :
    SameRecords seen seen'' :=
  ⟨fun node t => (h.tensors node t).trans (h'.tensors node t), fun t v =>
    (h.numbers t v).trans (h'.numbers t v)⟩

theorem SameRecords.oneNodeEach (h : SameRecords seen seen') (hseen : OneNodeEach seen) :
    OneNodeEach seen' := by
  intro o ho o' ho' hid
  obtain ⟨p, hp, hnode, hpid⟩ := (h.tensors o.node o.id).mpr ⟨o, ho, rfl, rfl⟩
  obtain ⟨p', hp', hnode', hpid'⟩ := (h.tensors o'.node o'.id).mpr ⟨o', ho', rfl, rfl⟩
  rw [← hnode, ← hnode']
  exact hseen p hp p' hp' (hpid.trans (hid.trans hpid'.symm))

/-- The name of a range is that of any observation of its tensor. -/
theorem Covers.label_eq (h : Covers seen r) (hseen : OneNodeEach seen) {e : Range}
    (he : e ∈ r.entries)
    {o : Observation} (ho : o ∈ seen) (hid : o.id = e.tensor) : e.label = labelOf o.node o.id := by
  obtain ⟨o', ho', -, hid', hlabel⟩ := h.named e he
  have hids : o'.id = o.id := hid'.trans hid.symm
  rw [hlabel, hseen o' ho' o ho hids, hids]

/-- A range is found again where the same has been recorded. -/
theorem Covers.mem_of_same (h : Covers seen r) (h' : Covers seen' r')
    (hsame : SameRecords seen seen')
    (hseen : OneNodeEach seen) {e : Range} (he : e ∈ r.entries) : e ∈ r'.entries := by
  obtain ⟨o, ho, hplain, hid, hlabel⟩ := h.named e he
  obtain ⟨o', ho', hnode, hid'⟩ := (hsame.tensors o.node o.id).mp ⟨o, ho, rfl, rfl⟩
  obtain ⟨e', he', htensor⟩ := h'.complete o' ho' (hnode ▸ hplain)
  have htensors : e'.tensor = e.tensor := htensor.trans (hid'.trans hid)
  have hlabels : e'.label = e.label := by
    rw [h'.label_eq (hsame.oneNodeEach hseen) he' ho' htensor.symm, hnode, hid', hlabel]
  have hpeaks : e'.peak = e.peak := by
    refine (h'.peaks e' he').unique ((h.peaks e he).congr fun v => ?_)
    rw [htensors]
    exact hsame.numbers e.tensor v
  have hequal : e' = e := by
    obtain ⟨tensor, label, peak⟩ := e
    obtain ⟨tensor', label', peak'⟩ := e'
    simp only at htensors hlabels hpeaks
    rw [htensors, hlabels, hpeaks]
  exact hequal ▸ he'

/-- **Ranges hang on what has been recorded**, and on nothing else. -/
theorem Covers.eq_of_same (h : Covers seen r) (h' : Covers seen' r')
    (hsame : SameRecords seen seen') (hseen : OneNodeEach seen) : r = r' := by
  -- both are ascending, so that they agree as soon as they have the same members
  have hentries : r.entries = r'.entries := r.ascending.eq_of_mem_iff r'.ascending fun e =>
    ⟨h.mem_of_same h' hsame hseen, h'.mem_of_same h hsame.symm (hsame.oneNodeEach hseen)⟩
  obtain ⟨entries, _⟩ := r
  obtain ⟨entries', _⟩ := r'
  obtain rfl : entries = entries' := hentries
  rfl

/-! ## Observations regrouped -/

/-- Some observations **regrouped**: they may come in another order, the numbers of an observation
may come in several pieces, and pieces may come in one. -/
inductive Regroups : List Observation → List Observation → Prop
  | permuted {seen seen' : List Observation} (h : seen.Perm seen') : Regroups seen seen'
  | divided (before after : List Observation) (o : Observation) {parts : List Tensor}
      (hparts : parts ≠ []) (hdata : parts.flatMap (·.data.toList) = o.value.data.toList) :
      Regroups (before ++ o :: after)
        (before ++ (parts.map fun part => ⟨o.node, o.id, part⟩) ++ after)
  | symm {seen seen' : List Observation} : Regroups seen seen' → Regroups seen' seen
  | trans {seen seen' seen'' : List Observation} :
      Regroups seen seen' → Regroups seen' seen'' → Regroups seen seen''

/-- **Regrouping keeps the records**, by induction over what has been done. -/
theorem Regroups.same (h : Regroups seen seen') : SameRecords seen seen' := by
  induction h with
  | permuted hperm =>
    exact ⟨fun node t => by simp [hperm.mem_iff], fun t v => by simp [Recorded, hperm.mem_iff]⟩
  | divided before after o hparts hdata =>
    obtain ⟨first, hfirst⟩ := List.exists_mem_of_ne_nil _ hparts
    constructor
    · intro node t
      simp only [List.mem_append, List.mem_cons, List.mem_map, or_and_right, exists_or,
        exists_eq_left]
      constructor
      · rintro (hfront | hhere | hback)
        · exact .inl (.inl hfront)
        · exact .inl (.inr ⟨_, ⟨first, hfirst, rfl⟩, hhere⟩)
        · exact .inr hback
      · rintro ((hfront | ⟨_, ⟨part, -, rfl⟩, hhere⟩) | hback)
        · exact .inl hfront
        · exact .inr (.inl hhere)
        · exact .inr (.inr hback)
    · intro t v
      simp only [Recorded, ← hdata, List.mem_append, List.mem_cons, List.mem_map,
        List.mem_flatMap, or_and_right, exists_or, exists_eq_left]
      constructor
      · rintro (hfront | ⟨hplain, hid, part, hpart, hv⟩ | hback)
        · exact .inl (.inl hfront)
        · exact .inl (.inr ⟨_, ⟨part, hpart, rfl⟩, hplain, hid, hv⟩)
        · exact .inr hback
      · rintro ((hfront | ⟨_, ⟨part, hpart, rfl⟩, hplain, hid, hv⟩) | hback)
        · exact .inl hfront
        · exact .inr (.inl ⟨hplain, hid, part, hpart, hv⟩)
        · exact .inr (.inr hback)
  | symm _ ih => exact ih.symm
  | trans _ _ ih ih' => exact ih.trans ih'

/-! ## Ranges by name -/

theorem nodup_tensors (r : Ranges) : (r.entries.map (·.tensor)).Nodup :=
  List.pairwise_map.mpr (r.ascending.imp Nat.ne_of_lt)

/-- Each range is that of a tensor with this name, and no two tensors share one. -/
theorem Covers.nodup_labels (h : Covers seen r) : (r.entries.map (·.label)).Nodup := by
  refine List.pairwise_map.mpr (r.ascending.imp_of_mem fun {e e'} he he' hlt hlabels => ?_)
  obtain ⟨o, -, -, hid, hlabel⟩ := h.named e he
  obtain ⟨o', -, -, hid', hlabel'⟩ := h.named e' he'
  have hids : o.id = o'.id := labelOf_inj (hlabel.symm.trans (hlabels.trans hlabel'))
  exact Nat.ne_of_lt hlt (hid.symm.trans (hids.trans hid'))

/-- **A name is looked up**: what is found is the peak of the one range that has it. -/
theorem peak?_eq_some_iff (hlabels : (r.entries.map (·.label)).Nodup) {label : String}
    {peak : Scalar} :
    r.peak? label = some peak ↔ ∃ e ∈ r.entries, e.label = label ∧ e.peak = peak := by
  rw [peak?, Option.map_eq_some_iff]
  constructor
  · rintro ⟨e, hfound, hpeak⟩
    exact ⟨e, List.mem_of_find?_eq_some hfound, by simpa using List.find?_some hfound, hpeak⟩
  · rintro ⟨e, he, hlabel, hpeak⟩
    have hany : (r.entries.find? (·.label = label)).isSome :=
      List.find?_isSome.mpr ⟨e, he, decide_eq_true hlabel⟩
    obtain ⟨e', hfound⟩ := Option.isSome_iff_exists.mp hany
    have hlabel' : e'.label = label := by simpa using List.find?_some hfound
    obtain rfl := List.inj_on_of_nodup_map hlabels (List.mem_of_find?_eq_some hfound) he
      (hlabel'.trans hlabel.symm)
    exact ⟨e', hfound, hpeak⟩

/-! ## Tables -/

/-- **Ranges of observations, and of the same regrouped.** Let each tensor come with one node. Then
there is one range for each tensor that has been observed and that no decoding made. It has the name
of the operation, an underscore and the number; its peak is the largest of zero and all absolute
values that have been recorded of the tensor, missing numbers left out. No two names are equal, and
what is looked up by a name is the peak of the one tensor that has it. In another order or in other
pieces, the observations make the same ranges and the same text of the table. -/
theorem observed_regrouped {seen : List Observation} (hseen : OneNodeEach seen) :
    let r := seen.foldl record empty
    (∀ t, (∃ e ∈ r.entries, e.tensor = t) ↔ ∃ o ∈ seen, o.id = t ∧ isDecode o.node = false) ∧
      (r.entries.map (·.tensor)).Nodup ∧
      (∀ o ∈ seen, ∀ e ∈ r.entries, e.tensor = o.id →
        e.label = o.node.operation.name ++ "_" ++ toString o.id ∧
        Largest (Recorded seen o.id) e.peak ∧
          e.peak.isNaN = false ∧ Scalar.zero.le e.peak = true) ∧
      (r.entries.map (·.label)).Nodup ∧
      (∀ label peak, r.peak? label = some peak ↔ ∃ e ∈ r.entries, e.label = label ∧ e.peak = peak) ∧
      ∀ seen', Regroups seen seen' →
        seen'.foldl record empty = r ∧ (seen'.foldl record empty).table = r.table := by
  intro r
  have hcovers : Covers seen r := covers_observed seen
  refine ⟨fun t => ⟨?_, ?_⟩, nodup_tensors r, fun o ho e he htensor => ?_, hcovers.nodup_labels,
    fun label peak => peak?_eq_some_iff hcovers.nodup_labels, fun seen' hregroups => ?_⟩
  · rintro ⟨e, he, rfl⟩
    obtain ⟨o, ho, hplain, hid, -⟩ := hcovers.named e he
    exact ⟨o, ho, hid, hplain⟩
  · rintro ⟨o, ho, rfl, hplain⟩
    exact hcovers.complete o ho hplain
  · have hpeak := hcovers.peaks e he
    exact ⟨hcovers.label_eq hseen he ho htensor.symm, htensor ▸ hpeak, hpeak.isNaN, hpeak.zero_le⟩
  · have hsame : r = seen'.foldl record empty :=
      hcovers.eq_of_same (covers_observed seen') hregroups.same hseen
    rw [← hsame]
    exact ⟨rfl, rfl⟩

/-- Values of a declared input. -/
def inputObservation (dims : List Nat) (data : Array Scalar) (h : data.size = volume dims) :
    Observation :=
  ⟨⟨.input "data", [], [0]⟩, 0, ⟨dims, data, h⟩⟩

/-- Two pictures, and between them what was made of the first one. The first has a missing number,
and the second is where the largest absolute value comes from: that of minus two. -/
def pictureObservations : List Observation :=
  [inputObservation [2] #[.one, ⟨0x7fc00000⟩] rfl,
    ⟨⟨.activation .relu, [0], [1]⟩, 1, ⟨[1], #[.one], rfl⟩⟩,
    inputObservation [1] #[⟨0xc0000000⟩] rfl]

/-- Both pictures in one piece, behind what was made of them. -/
def joinedObservations : List Observation :=
  [⟨⟨.activation .relu, [0], [1]⟩, 1, ⟨[1], #[.one], rfl⟩⟩,
    inputObservation [3] #[.one, ⟨0x7fc00000⟩, ⟨0xc0000000⟩] rfl]

theorem observed_regrouped_pictures : OneNodeEach pictureObservations ∧
    Regroups pictureObservations joinedObservations ∧
    (pictureObservations.foldl record empty).peak? "input_0" = some ⟨0x40000000⟩ ∧
    joinedObservations.foldl record empty = pictureObservations.foldl record empty := by
  have hseen : OneNodeEach pictureObservations := by
    unfold OneNodeEach
    decide
  have hregroups : Regroups pictureObservations joinedObservations := by
    -- what was made comes first, and then the pieces are joined
    refine .trans (.permuted (.swap _ _ _)) (.symm ?_)
    exact @Regroups.divided [joinedObservations.head (by decide)] []
      (inputObservation [3] #[.one, ⟨0x7fc00000⟩, ⟨0xc0000000⟩] rfl)
      [⟨[2], #[.one, ⟨0x7fc00000⟩], rfl⟩, ⟨[1], #[⟨0xc0000000⟩], rfl⟩] (by decide) rfl
  have hobserved := observed_regrouped hseen
  refine ⟨hseen, hregroups, ?_, (hobserved.2.2.2.2.2 _ hregroups).1⟩
  exact (hobserved.2.2.2.2.1 _ _).mpr ⟨⟨0, "input_0", ⟨0x40000000⟩⟩, by decide, rfl, rfl⟩

end Ranges

end GridNet
