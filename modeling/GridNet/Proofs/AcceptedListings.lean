import GridNet.Proofs.WeightListings

/-!
# The listings that are accepted

A listing of weights is read just if its first line that is not blank is a number and at least that
many lines follow, each with a name, a count, and as many values as the count says. What is read are
the values on these lines, in order. Lines behind the announced number are not looked at, so that a
listing with more tensors than it announces is read as well, without them.

* `Weights.ListedTensor.GivenBy`, `Weights.Announces` — lines that give a tensor, and texts that
  announce some.
* `Weights.Complete` — the counts of a text agree with its contents.
* `Weights.readTensor_eq_ok_iff`, `Weights.readTensors_eq_ok_iff` — one line, and a number of lines.
* `Weights.Announces.unique` — a text announces one thing only.
* `Weights.readListing_announced` — the listings that are accepted, and which of them are complete.
-/

namespace GridNet.Weights

variable {text name : String} {line : List Char} {ws : List String}
  {values : List Scalar} {v : Scalar}
  {tensors tensors' : List ListedTensor} {surplus surplus' : List (List Char)} {b : WeightBuffer}

/-! ## What a text announces -/

/-- The line **gives a tensor**: its name, the count of its values, and just as many values. -/
def ListedTensor.GivenBy (t : ListedTensor) (line : List Char) : Prop :=
  ∃ count words, Text.Spaced (t.name :: count :: words) line ∧
    Text.IsDecimal count t.values.length ∧
    List.Forall₂ (fun w v => Text.IsHexadecimal w v.bits.toNat) words t.values

/-- The text **announces the tensors**: the first of its lines that are not blank is their number,
and the next ones give them, one each. Behind these there may be a surplus. -/
inductive Announces (text : String) (tensors : List ListedTensor)
    (surplus : List (List Char)) : Prop
  | intro {total : List Char} {rows : List (List Char)} {number : String}
      (hlines : Text.filledLines text = total :: (rows ++ surplus))
      (htotal : Text.Spaced [number] total)
      (hnumber : Text.IsDecimal number tensors.length)
      (hrows : List.Forall₂ ListedTensor.GivenBy tensors rows)

/-- The **counts agree with the contents** of a text: every line behind the first one gives a
tensor, there are as many as the first line says, and the numbers are those of all of them. -/
def Complete (text : String) (b : WeightBuffer) : Prop :=
  ∃ tensors, Announces text tensors [] ∧ b = (parameters tensors).toArray

/-! ## Reading -/

theorem integerOr_eq_ok {α : Type} {context : String} {r : Except Text.IntegerFault α} {a : α} :
    integerOr context r = .ok a ↔ r = .ok a := by
  rw [integerOr, Outcome.inContext_eq_ok]
  cases r <;> simp [Except.mapError]

theorem readWord_eq_ok_iff {context w : String} :
    (integerOr context (Text.readHex32 w)).map (fun n => (⟨n.toUInt32⟩ : Scalar)) = .ok v ↔
      Text.IsHexadecimal w v.bits.toNat := by
  rw [Outcome.map_eq_ok]
  simp only [integerOr_eq_ok, Text.readHex32_eq_ok_iff]
  constructor
  · rintro ⟨n, hn, rfl⟩
    have hlt : n < 2 ^ 32 := Nat.lt_of_le_pred (by decide) hn.le
    rwa [Nat.toUInt32_eq, UInt32.toNat_ofNat_of_lt' hlt]
  · intro h
    exact ⟨_, h, by rw [Nat.toUInt32_eq, UInt32.ofNat_toNat]⟩

theorem readWords_eq_ok_iff :
    readWords name ws = .ok values ↔
      List.Forall₂ (fun w v => Text.IsHexadecimal w v.bits.toNat) ws values := by
  rw [readWords, Outcome.mapM_eq_ok]
  simp only [readWord_eq_ok_iff]

theorem words_trimmed (line : List Char) :
    Text.words (String.ofList (Text.trimChars line)) = Text.wordsOf line := by
  rw [Text.words, String.toList_ofList, Text.wordsOf_trimChars]

theorem solid_of_hex32 (h : List.Forall₂ (fun w v => Text.IsHexadecimal w v.bits.toNat) ws values) :
    ∀ w ∈ ws, Text.Solid w.toList := by
  have hsolid := h.imp fun w v hw =>
    And.intro (Text.solid_of_readHex32 (Text.readHex32_eq_ok_iff.mpr hw)) hw
  exact ((List.forall₂_and_left _ _).mp hsolid).1

/-- The words of a line that gives a tensor. -/
theorem ListedTensor.GivenBy.words {t : ListedTensor} (h : t.GivenBy line) : ∃ count words,
    Text.wordsOf line = t.name :: count :: words ∧ Text.IsDecimal count t.values.length ∧
      List.Forall₂ (fun w v => Text.IsHexadecimal w v.bits.toNat) words t.values := by
  obtain ⟨count, words, hspaced, hcount, hwords⟩ := h
  refine ⟨count, words, hspaced.wordsOf ?_, hcount, hwords⟩
  refine List.forall_mem_cons.mpr ⟨t.named, List.forall_mem_cons.mpr ⟨?_, ?_⟩⟩
  · exact Text.solid_of_readNat (Text.readNat_eq_ok_iff.mpr hcount)
  · exact solid_of_hex32 hwords

/-- **A line that is read** gives a tensor, and one that gives a tensor is read as its values. -/
theorem readTensor_eq_ok_iff :
    readTensor (String.ofList (Text.trimChars line)) = .ok values ↔
      ∃ t : ListedTensor, t.GivenBy line ∧ t.values = values := by
  constructor
  · intro h
    obtain ⟨hspaced, hsolid⟩ := Text.spaced_wordsOf line
    simp only [readTensor, words_trimmed] at h
    rcases hwords : Text.wordsOf line with _ | ⟨name, _ | ⟨count, ws⟩⟩
    · simp [hwords] at h
    · simp [hwords] at h
    · rw [hwords] at hspaced hsolid h
      simp only [Outcome.bind_eq_ok, integerOr_eq_ok, readWords_eq_ok_iff, Outcome.ensure_eq_ok,
        decide_eq_true_eq, Outcome.pure_eq_ok] at h
      obtain ⟨n, hn, _, hvalues, -, rfl, rfl⟩ := h
      rw [Text.readNat_eq_ok_iff] at hn
      exact ⟨⟨name, _, hsolid name List.mem_cons_self, Nat.lt_of_le_pred (by decide) hn.le⟩,
        ⟨count, ws, hspaced, hn, hvalues⟩, rfl⟩
  · rintro ⟨t, ht, rfl⟩
    obtain ⟨count, ws, hwords, hcount, hvalues⟩ := ht.words
    simp only [readTensor, words_trimmed, hwords, Text.readNat_eq_ok_iff.mpr hcount, integerOr_ok,
      readWords_eq_ok_iff.mpr hvalues, Outcome.ok_bind, ensure, decide_true, if_true]
    rfl

/-- **A number of lines** is read up to the announced total, by induction over the tensors. -/
theorem readTensors_eq_ok_iff {n k : Nat} {lines : List (List Char)} :
    readTensors (k + n) k (lines.map fun line => String.ofList (Text.trimChars line)) = .ok values ↔
      ∃ tensors rows surplus, lines = rows ++ surplus ∧ tensors.length = n ∧
        List.Forall₂ ListedTensor.GivenBy tensors rows ∧ parameters tensors = values := by
  induction n generalizing k lines values with
  | zero =>
    have hnone : readTensors k k (lines.map fun line => String.ofList (Text.trimChars line)) =
        .ok [] := by
      cases lines <;> exact if_pos rfl
    rw [Nat.add_zero, hnone]
    constructor
    · intro h
      exact ⟨[], [], lines, rfl, rfl, .nil, Except.ok.inj h⟩
    · rintro ⟨tensors, rows, surplus, -, hlength, -, rfl⟩
      rw [List.eq_nil_of_length_eq_zero hlength]
      rfl
  | succ n ih =>
    have hmore : k ≠ k + (n + 1) := by omega
    cases lines with
    | nil =>
      rw [List.map_nil, readTensors, if_neg hmore]
      refine iff_of_false (by simp) ?_
      rintro ⟨tensors, rows, surplus, hlines, hlength, hrows, -⟩
      obtain ⟨rfl, rfl⟩ := List.append_eq_nil_iff.mp hlines.symm
      rw [hrows.length_eq] at hlength
      cases hlength
    | cons line rest =>
      rw [List.map_cons, readTensors, if_neg hmore, show k + (n + 1) = k + 1 + n by omega]
      simp only [Outcome.bind_eq_ok, readTensor_eq_ok_iff, ih, Outcome.pure_eq_ok]
      constructor
      · rintro ⟨_, ⟨t, ht, rfl⟩, _, ⟨tensors, rows, surplus, rfl, rfl, hrows, rfl⟩, rfl⟩
        exact ⟨t :: tensors, line :: rows, surplus, rfl, rfl, .cons ht hrows, rfl⟩
      · rintro ⟨_, _, surplus, hlines, hlength, hrows, rfl⟩
        cases hrows with
        | nil => cases hlength
        | @cons t _ tensors rows ht hrows =>
          obtain ⟨rfl, rfl⟩ := List.cons.inj hlines
          exact ⟨_, ⟨t, ht, rfl⟩, _, ⟨tensors, rows, surplus, rfl, Nat.succ.inj hlength,
            hrows, rfl⟩, rfl⟩

/-- What stands on the line with the number of tensors. -/
theorem spaced_number_iff {number : String} {total : List Char} {n : Nat} :
    (Text.Spaced [number] total ∧ Text.IsDecimal number n) ↔
      number = String.ofList (Text.trimChars total) ∧ Text.readNat number = .ok n := by
  rw [← Text.readNat_eq_ok_iff]
  constructor
  · rintro ⟨htotal, hread⟩
    exact ⟨by rw [htotal.trimChars_eq (Text.solid_of_readNat hread), String.ofList_toList], hread⟩
  · rintro ⟨rfl, hread⟩
    obtain ⟨before, after, hbefore, hafter, hcs⟩ := Text.exists_trimChars total
    have hgap : after.head?.all Text.isBlank = true := by
      cases after with
      | nil => rfl
      | cons c after => exact hafter c List.mem_cons_self
    have hspaced := Text.Spaced.word (String.ofList (Text.trimChars total)) hbefore hgap
      (.blank hafter)
    rw [String.toList_ofList, ← hcs] at hspaced
    exact ⟨hspaced, hread⟩

theorem contentLines_eq (text : String) :
    contentLines text = (Text.filledLines text).map fun line =>
      String.ofList (Text.trimChars line) := by
  rw [contentLines, Text.trimmed_filledLines, List.map_map]
  rfl

/-- **A listing that is read** announces the tensors whose numbers are read, and it is read if it
announces some. -/
theorem readListing_eq_ok_iff (text : String) (b : WeightBuffer) :
    readListing text = .ok b ↔ ∃ tensors surplus, Announces text tensors surplus ∧
      b = (parameters tensors).toArray := by
  rw [readListing, contentLines_eq]
  cases hlines : Text.filledLines text with
  | nil =>
    refine iff_of_false (by simp) ?_
    rintro ⟨tensors, surplus, @⟨total, rows, number, htext, -, -, -⟩, -⟩
    rw [hlines] at htext
    cases htext
  | cons total rest =>
    simp only [List.map_cons, Outcome.bind_eq_ok, integerOr_eq_ok, Outcome.pure_eq_ok]
    constructor
    · rintro ⟨n, hn, _, hvalues, rfl⟩
      rw [← Nat.zero_add n, readTensors_eq_ok_iff] at hvalues
      obtain ⟨tensors, rows, surplus, rfl, rfl, hrows, rfl⟩ := hvalues
      obtain ⟨htotal, hnumber⟩ := spaced_number_iff.mpr ⟨rfl, hn⟩
      exact ⟨tensors, surplus, ⟨hlines, htotal, hnumber, hrows⟩, rfl⟩
    · rintro ⟨tensors, surplus, @⟨total', rows, number, htext, htotal, hnumber, hrows⟩, rfl⟩
      obtain ⟨rfl, rfl⟩ := List.cons.inj (hlines.symm.trans htext)
      obtain ⟨rfl, hn⟩ := spaced_number_iff.mp ⟨htotal, hnumber⟩
      refine ⟨_, hn, parameters tensors, ?_, rfl⟩
      rw [← Nat.zero_add tensors.length, readTensors_eq_ok_iff]
      exact ⟨tensors, rows, surplus, rfl, rfl, hrows, rfl⟩

/-! ## Surplus lines -/

theorem ListedTensor.GivenBy.unique {t t' : ListedTensor} (h : t.GivenBy line)
    (h' : t'.GivenBy line) : t = t' := by
  obtain ⟨count, ws, hwords, -, hvalues⟩ := h.words
  obtain ⟨count', ws', hwords', -, hvalues'⟩ := h'.words
  rw [hwords'] at hwords
  obtain ⟨hname, -, rfl⟩ : t'.name = t.name ∧ count' = count ∧ ws' = ws := by simpa using hwords
  have hright : Relator.RightUnique fun (w : String) (v : Scalar) =>
      Text.IsHexadecimal w v.bits.toNat := by
    intro w v v' hv hv'
    exact congrArg Scalar.mk (UInt32.toNat_inj.mp (hv.unique hv'))
  have hsame : t.values = t'.values := hright.forall₂ hvalues hvalues'
  cases t
  cases t'
  rw [ListedTensor.mk.injEq]
  exact ⟨hname.symm, hsame⟩

/-- **A text announces the same** whenever it is looked at. -/
theorem Announces.unique (h : Announces text tensors surplus)
    (h' : Announces text tensors' surplus') :
    tensors = tensors' ∧ surplus = surplus' := by
  obtain @⟨total, rows, number, hlines, htotal, hnumber, hrows⟩ := h
  obtain @⟨total', rows', number', hlines', htotal', hnumber', hrows'⟩ := h'
  rw [hlines] at hlines'
  obtain ⟨rfl, hbehind⟩ := List.cons.inj hlines'
  obtain ⟨rfl, hn⟩ := spaced_number_iff.mp ⟨htotal, hnumber⟩
  obtain ⟨rfl, hn'⟩ := spaced_number_iff.mp ⟨htotal', hnumber'⟩
  have hlength : rows.length = rows'.length := by
    rw [← hrows.length_eq, ← hrows'.length_eq]
    exact Except.ok.inj (hn.symm.trans hn')
  obtain ⟨rfl, rfl⟩ := List.append_inj hbehind hlength
  have hleft : Relator.LeftUnique ListedTensor.GivenBy := fun _ _ _ => ListedTensor.GivenBy.unique
  exact ⟨hleft.forall₂ hrows hrows', rfl⟩

/-- What has been read is complete just if nothing stands behind it. -/
theorem Announces.complete_iff (h : Announces text tensors surplus)
    (hread : readListing text = .ok b) :
    Complete text b ↔ surplus = [] := by
  constructor
  · rintro ⟨tensors', hcomplete, -⟩
    exact (h.unique hcomplete).2
  · rintro rfl
    obtain ⟨tensors', surplus', h', rfl⟩ := (readListing_eq_ok_iff text b).mp hread
    obtain ⟨rfl, -⟩ := h.unique h'
    exact ⟨tensors, h, rfl⟩

/-- **The listings that are accepted.** A text is read just if it announces some tensors, and what
is read are their numbers in order. So there are no fewer lines than the first one says, and each of
them has as many values as it says. The counts agree with the contents of what has been read just if
no surplus is left. -/
theorem readListing_announced (text : String) :
    (∀ b, readListing text = .ok b ↔
        ∃ tensors surplus, Announces text tensors surplus ∧ b = (parameters tensors).toArray) ∧
      ∀ b tensors surplus, readListing text = .ok b → Announces text tensors surplus →
        (Complete text b ↔ surplus = []) :=
  ⟨readListing_eq_ok_iff text, fun _ _ _ hread hannounces => hannounces.complete_iff hread⟩

/-- A tensor with the single value one. -/
def unitTensor (name : String) (named : Text.Solid name.toList) : ListedTensor :=
  ⟨name, [.one], named, by decide⟩

/-- A plus sign, a zero in front of a count, capitals, and a tensor without values. -/
def signedListing : String := "+2\r\n\n a 01 3F800000\nb 0"

theorem announces_signedListing :
    Announces signedListing [unitTensor "a" (by decide), ⟨"b", [], by decide, by decide⟩] [] := by
  have htotal : Text.Spaced ["+2"] "+2\r".toList :=
    @Text.Spaced.word [] ['\r'] "+2" [] (by decide) (by decide) (.blank (by decide))
  have hunit : (unitTensor "a" (by decide)).GivenBy " a 01 3F800000".toList :=
    ⟨"01", ["3F800000"],
      @Text.Spaced.word [' '] _ "a" _ (by decide) (by decide) <|
      @Text.Spaced.word [' '] _ "01" _ (by decide) (by decide) <|
      @Text.Spaced.word [' '] [] "3F800000" _ (by decide) (by decide) (.blank (by decide)),
      Text.readNat_eq_ok_iff.mp rfl, .cons (Text.readHex32_eq_ok_iff.mp rfl) .nil⟩
  have hnone : (⟨"b", [], by decide, by decide⟩ : ListedTensor).GivenBy "b 0".toList :=
    ⟨"0", [],
      @Text.Spaced.word [] _ "b" _ (by decide) (by decide) <|
      @Text.Spaced.word [' '] [] "0" _ (by decide) (by decide) (.blank (by decide)),
      Text.readNat_eq_ok_iff.mp rfl, .nil⟩
  exact @Announces.intro _ _ _ _ [" a 01 3F800000".toList, "b 0".toList] _ (by decide) htotal
    (Text.readNat_eq_ok_iff.mp rfl) (.cons hunit (.cons hnone .nil))

/-- A listing whose counts agree with its contents. -/
theorem readListing_announced_signedListing :
    readListing signedListing = .ok #[.one] ∧ Complete signedListing #[.one] := by
  have hread := ((readListing_announced signedListing).1 #[.one]).mpr
    ⟨_, _, announces_signedListing, rfl⟩
  exact ⟨hread, ((readListing_announced signedListing).2 _ _ _ hread announces_signedListing).mpr
    rfl⟩

/-- One tensor is announced, and two are there. -/
def surplusListing : String := "1\na 1 3f800000\nb 1 3f800000\n"

theorem announces_surplusListing :
    Announces surplusListing [unitTensor "a" (by decide)] ["b 1 3f800000".toList] := by
  have htotal : Text.Spaced ["1"] "1".toList :=
    @Text.Spaced.word [] [] "1" [] (by decide) (by decide) (.blank (by decide))
  have hunit : (unitTensor "a" (by decide)).GivenBy "a 1 3f800000".toList :=
    ⟨"1", ["3f800000"],
      @Text.Spaced.word [] _ "a" _ (by decide) (by decide) <|
      @Text.Spaced.word [' '] _ "1" _ (by decide) (by decide) <|
      @Text.Spaced.word [' '] [] "3f800000" _ (by decide) (by decide) (.blank (by decide)),
      Text.readNat_eq_ok_iff.mp rfl, .cons (Text.readHex32_eq_ok_iff.mp rfl) .nil⟩
  exact @Announces.intro _ _ _ _ ["a 1 3f800000".toList] _ (by decide) htotal
    (Text.readNat_eq_ok_iff.mp rfl) (.cons hunit .nil)

/-- **A surplus line is not refused**: the listing is read, and the second tensor in it is lost. -/
theorem not_complete_surplusListing :
    ¬ ∀ text b, readListing text = .ok b → Complete text b := by
  intro hcomplete
  have hread : readListing surplusListing = .ok #[.one] :=
    (readListing_eq_ok_iff _ _).mpr ⟨_, _, announces_surplusListing, rfl⟩
  have hnone := (announces_surplusListing.complete_iff hread).mp (hcomplete _ _ hread)
  exact List.cons_ne_nil _ _ hnone

end GridNet.Weights
