import GridNet.Proofs.TextCuts

/-!
# Words between blanks

A line holds some words between blanks, of which there may be more at its two ends. However many
blanks there are, the words are found again, and trimming the line takes nothing from them. Likewise
blank lines between the lines of a text make no difference to its trimmed lines.

* `Text.Solid`, `Text.Spaced` — words, and lines that hold them.
* `Text.wordsOf_append_cons` — words do not reach across a blank.
* `Text.Spaced.wordsOf`, `Text.spaced_wordsOf`, `Text.wordsOf_trimChars` — the words of a line.
* `Text.trimmed_lines`, `Text.trimmed_filledLines` — the trimmed lines of a text.
-/

namespace GridNet.Text

/-- The characters make a word: there are some, and **none of them is blank**. -/
def Solid (cs : List Char) : Prop := cs ≠ [] ∧ ∀ c ∈ cs, isBlank c = false

-- Only the characters that are there are looked at, and not all there could be.
instance : DecidablePred Blank := fun cs => List.decidableBAll (isBlank · = true) cs

instance : DecidablePred Solid := fun cs =>
  have := List.decidableBAll (isBlank · = false) cs
  instDecidableAnd

/-- The line **holds the words** in order: there are blanks between each two of them, and there may
be blanks at the two ends. -/
inductive Spaced : List String → List Char → Prop
  | blank {cs : List Char} (h : Blank cs) : Spaced [] cs
  | word {before after : List Char} (w : String) {ws : List String} (hbefore : Blank before)
      (hgap : after.head?.all isBlank = true) (hafter : Spaced ws after) :
      Spaced (w :: ws) (before ++ w.toList ++ after)

variable {cs word line : List Char} {p : Char → Bool} {c : Char} {w : String} {ws : List String}

/-! ## Words -/

/-- The pieces between marks are those that the library cuts. -/
theorem splitBy_eq_splitOnP (p : Char → Bool) (cs : List Char) : splitBy p cs = cs.splitOnP p := by
  induction cs with
  | nil => rw [List.splitOnP_nil, splitBy, List.foldr_nil]
  | cons c cs ih =>
    obtain ⟨piece, rest, hpieces⟩ := List.exists_cons_of_ne_nil (List.splitOnP_ne_nil p cs)
    rw [List.splitOnP_cons_eq_if_modifyHead, hpieces, List.modifyHead_cons]
    rw [splitBy, hpieces] at ih
    rw [splitBy, List.foldr_cons, ih]

/-- **Words do not reach across a blank**. -/
theorem wordsOf_append_cons (h : isBlank c = true) (front back : List Char) :
    wordsOf (front ++ c :: back) = wordsOf front ++ wordsOf back := by
  simp only [wordsOf, splitBy_eq_splitOnP, List.splitOnP_append_cons front back h,
    List.filter_append, List.map_append]

theorem wordsOf_cons (h : isBlank c = true) (cs : List Char) : wordsOf (c :: cs) = wordsOf cs :=
  wordsOf_append_cons h [] cs

theorem wordsOf_blank_append {blanks : List Char} (h : Blank blanks) (cs : List Char) :
    wordsOf (blanks ++ cs) = wordsOf cs := by
  induction blanks with
  | nil => rfl
  | cons c blanks ih =>
    rw [List.cons_append, wordsOf_cons (h c List.mem_cons_self), ih fun d hd =>
      h d (List.mem_cons_of_mem _ hd)]

theorem wordsOf_blank (h : Blank cs) : wordsOf cs = [] := by
  rw [← List.append_nil cs, wordsOf_blank_append h]
  rfl

/-- A word goes up to the next blank. -/
theorem wordsOf_solid_append (hword : Solid word) {after : List Char}
    (hgap : after.head?.all isBlank = true) :
    wordsOf (word ++ after) = String.ofList word :: wordsOf after := by
  have hone : wordsOf word = [String.ofList word] := by
    rw [wordsOf, splitBy_eq_splitOnP, List.splitOnP_eq_singleton hword.2]
    simp [hword.1]
  cases after with
  | nil =>
    rw [List.append_nil, hone]
    rfl
  | cons c after =>
    have hblank : isBlank c = true := hgap
    rw [wordsOf_append_cons hblank, hone, wordsOf_cons hblank, List.singleton_append]

/-- **The words of a line** are those that it holds. -/
theorem Spaced.wordsOf (h : Spaced ws line) (hwords : ∀ w ∈ ws, Solid w.toList) :
    wordsOf line = ws := by
  induction h with
  | blank h => exact wordsOf_blank h
  | word w hbefore hgap _ ih =>
    obtain ⟨hword, hrest⟩ := List.forall_mem_cons.mp hwords
    rw [List.append_assoc, wordsOf_blank_append hbefore, wordsOf_solid_append hword hgap, ih hrest,
      String.ofList_toList]

/-- **Every line** holds its words: the first one goes from the blanks in front of it up to the next
blank, and the rest of the line is shorter. -/
theorem spaced_wordsOf (line : List Char) :
    Spaced (wordsOf line) line ∧ ∀ w ∈ wordsOf line, Solid w.toList := by
  induction hlength : line.length using Nat.strongRecOn generalizing line with
  | ind n ih =>
    have hbefore : Blank (line.takeWhile isBlank) := fun c hc => List.mem_takeWhile_imp hc
    have hsplit : line = line.takeWhile isBlank ++ line.dropWhile isBlank :=
      List.takeWhile_append_dropWhile.symm
    have hfront := List.head?_dropWhile_not isBlank line
    cases hrest : line.dropWhile isBlank with
    | nil =>
      rw [hrest, List.append_nil] at hsplit
      have hblank : Blank line := hsplit ▸ hbefore
      rw [wordsOf_blank hblank]
      exact ⟨.blank hblank, fun w hw => absurd hw List.not_mem_nil⟩
    | cons c rest =>
      rw [hrest] at hsplit hfront
      obtain ⟨word, after, hword, hgap, hjoin⟩ : ∃ word after, Solid (c :: word) ∧
        after.head?.all isBlank = true ∧
          rest = word ++ after := by
        refine ⟨rest.takeWhile (!isBlank ·), rest.dropWhile (!isBlank ·),
          ⟨List.cons_ne_nil _ _, List.forall_mem_cons.mpr ⟨hfront, fun d hd => ?_⟩⟩, ?_,
          List.takeWhile_append_dropWhile.symm⟩
        · simpa using List.mem_takeWhile_imp hd
        · have hnext := List.head?_dropWhile_not (!isBlank ·) rest
          cases hafter : (rest.dropWhile (!isBlank ·)).head? with
          | none => rfl
          | some d => simpa [hafter] using hnext
      have hline : line = line.takeWhile isBlank ++ (c :: word) ++ after := by
        rw [List.append_assoc, List.cons_append, ← hjoin]
        exact hsplit
      have hshort : after.length < n := by
        have hlength' := congrArg List.length hline
        simp only [List.length_append, List.length_cons] at hlength'
        omega
      obtain ⟨hspaced, hsolid⟩ := ih _ hshort after rfl
      have hwords : wordsOf line = String.ofList (c :: word) :: wordsOf after := by
        rw [hline, List.append_assoc, wordsOf_blank_append hbefore, wordsOf_solid_append hword hgap]
      have hchars : (String.ofList (c :: word)).toList = c :: word := String.toList_ofList
      rw [hwords]
      refine ⟨?_, List.forall_mem_cons.mpr ⟨by rwa [hchars], hsolid⟩⟩
      rw [hline]
      simpa [hchars] using Spaced.word (String.ofList (c :: word)) hbefore hgap hspaced

/-! ## Trimmed lines -/

/-- A line is what is left of it between blanks. -/
theorem exists_trimChars (cs : List Char) :
    ∃ before after, Blank before ∧ Blank after ∧ cs = before ++ trimChars cs ++ after := by
  refine ⟨cs.takeWhile isBlank, (cs.dropWhile isBlank).rtakeWhile isBlank, fun c hc =>
    List.mem_takeWhile_imp hc, fun c hc => List.mem_rtakeWhile_imp hc, ?_⟩
  rw [trimChars_eq_rdropWhile, List.append_assoc, List.rdropWhile_append_rtakeWhile,
    List.takeWhile_append_dropWhile]

theorem wordsOf_trimChars (cs : List Char) : wordsOf (trimChars cs) = wordsOf cs := by
  obtain ⟨before, after, hbefore, hafter, hcs⟩ := exists_trimChars cs
  have hback : wordsOf (trimChars cs ++ after) = wordsOf (trimChars cs) := by
    cases after with
    | nil => rw [List.append_nil]
    | cons c after =>
      have hrest : Blank after := fun d hd => hafter d (List.mem_cons_of_mem _ hd)
      rw [wordsOf_append_cons (hafter c List.mem_cons_self), wordsOf_blank hrest, List.append_nil]
  conv_rhs => rw [hcs, List.append_assoc, wordsOf_blank_append hbefore, hback]

/-- A word is not trimmed. -/
theorem Solid.trimChars_eq (h : Solid cs) : trimChars cs = cs := by
  obtain ⟨before, after, hbefore, hafter, hcs⟩ := exists_trimChars cs
  have hnone : ∀ blanks, Blank blanks → blanks ⊆ cs → blanks = [] := by
    intro blanks hblanks hsub
    refine List.eq_nil_iff_forall_not_mem.mpr fun c hc => ?_
    exact Bool.false_ne_true ((h.2 c (hsub hc)).symm.trans (hblanks c hc))
  have hfront := hnone before hbefore fun c hc =>
    hcs ▸ List.mem_append_left _ (List.mem_append_left _ hc)
  have hback := hnone after hafter fun c hc => hcs ▸ List.mem_append_right _ hc
  rw [hfront, hback, List.nil_append, List.append_nil] at hcs
  exact hcs.symm

/-- A line that holds **one word only** is trimmed to it. -/
theorem Spaced.trimChars_eq (h : Spaced [w] line) (hword : Solid w.toList) :
    trimChars line = w.toList := by
  cases h with
  | word _ hbefore _ hafter =>
    cases hafter with
    | blank hblank =>
      rw [trimChars_append_blank hblank, trimChars_blank_append hbefore, hword.trimChars_eq]

/-- The characters of a line's ending are blank. -/
theorem trimChars_dropReturn (cs : List Char) : trimChars (dropReturn cs) = trimChars cs := by
  rw [dropReturn]
  split
  · next hlast =>
    obtain ⟨front, rfl⟩ := List.getLast?_eq_some_iff.mp hlast
    have hreturn : Blank ['\r'] := fun c hc => by
      rw [List.mem_singleton.mp hc]
      decide
    rw [List.dropLast_concat, trimChars_append_blank hreturn]
  · rfl

/-- What is left of lines that are not blank. -/
theorem filter_map_trimChars (joined : List (List Char)) :
    (joined.map trimChars).filter (!·.isEmpty) = (joined.filter fun line => !line.all isBlank).map
      trimChars := by
  rw [List.filter_map]
  refine congrArg _ (List.filter_congr fun line _ => ?_)
  have hempty : (trimChars line).isEmpty = line.all isBlank := by
    rw [Bool.eq_iff_iff, List.isEmpty_iff, trimChars_eq_nil_iff, List.all_eq_true]
    rfl
  rw [Function.comp_apply, hempty]

/-- **The trimmed lines** of a text, without those of which nothing is left, are those of the lines
that have been joined: blank lines and blanks around a line mean nothing. -/
theorem trimmed_lines {joined : List (List Char)} (hjoined : ∀ line ∈ joined, '\n' ∉ line) :
    ((lines (['\n'].intercalate joined)).map trimChars).filter (!·.isEmpty) =
      (joined.filter fun line => !line.all isBlank).map trimChars := by
  rw [← filter_map_trimChars]
  induction joined with
  | nil => rfl
  | cons line rest ih =>
    have hline := hjoined line List.mem_cons_self
    cases rest with
    | nil =>
      rw [List.intercalate_singleton]
      by_cases hne : line = []
      · -- an empty line at the end is none
        rw [hne]
        rfl
      · rw [lines_of_not_mem hne hline]
    | cons next rest =>
      have hrest := ih fun l hl => hjoined l (List.mem_cons_of_mem _ hl)
      rw [List.intercalate_cons_cons, List.append_assoc, List.singleton_append, lines_newline hline,
        List.map_cons,
        List.map_cons, trimChars_dropReturn, List.filter_cons, List.filter_cons, hrest]

/-- No piece of a list has a mark in it at which the list was cut. -/
theorem not_mem_of_mem_splitOn {α : Type} [DecidableEq α] {x : α} {piece xs : List α}
    (h : piece ∈ xs.splitOn x) :
    x ∉ piece := by
  induction xs generalizing piece with
  | nil =>
    rw [List.mem_singleton.mp h]
    exact List.not_mem_nil
  | cons y ys ih =>
    rw [List.splitOn_cons_eq_if_modifyHead] at h
    split at h
    · rcases List.mem_cons.mp h with rfl | h
      · exact List.not_mem_nil
      · exact ih h
    · next hy =>
      obtain ⟨first, rest, hpieces⟩ := List.exists_cons_of_ne_nil (List.splitOn_ne_nil x ys)
      rw [hpieces] at h ih
      rcases List.mem_cons.mp h with rfl | h
      · have hfirst := ih List.mem_cons_self
        intro hmem
        rcases List.mem_cons.mp hmem with rfl | hmem
        · exact hy (beq_self_eq_true _)
        · exact hfirst hmem
      · exact ih (List.mem_cons_of_mem _ h)

/-- The lines of a text that are not blank. -/
def filledLines (text : String) : List (List Char) :=
  (text.toList.splitOn '\n').filter fun line => !line.all isBlank

/-- The trimmed lines of a text are those of its lines that are not blank. -/
theorem trimmed_filledLines (text : String) :
    ((lines text.toList).map trimChars).filter (!·.isEmpty) = (filledLines text).map trimChars := by
  have htrimmed := @trimmed_lines (text.toList.splitOn '\n') fun _ => not_mem_of_mem_splitOn
  rw [List.intercalate_splitOn] at htrimmed
  exact htrimmed

end GridNet.Text
