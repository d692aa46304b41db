import GridNet.Cfg.Block
import Mathlib.Data.List.DropRight

/-!
# What cutting a text leaves

A text is cut into lines, a line at its first mark, and what stands between two marks is freed of
the blanks at its ends. Each cut is settled here by what the pieces are, so that nothing later opens
the definitions.

* `Text.trimChars_eq_nil_iff`, `Text.not_isBlank_head`, `Text.not_isBlank_last` — texts without
  blanks at their ends.
* `splitAtFirst_eq_some_iff` — a line cut at its first mark.
* `Text.lines_newline` — a line and the lines behind it.
* `Text.Closes`, `Text.lines_of_closes` — lines that are written down with an ending of
  their own each.
* `Text.lines_joined` — lines with the same ending between each two.
-/

namespace GridNet

namespace Text

/-! ## Blanks at the ends -/

/-- The characters are all **blank**. -/
def Blank (cs : List Char) : Prop := ∀ c ∈ cs, isBlank c = true

variable {cs : List Char}

theorem trimChars_eq_rdropWhile (cs : List Char) :
    trimChars cs = (cs.dropWhile isBlank).rdropWhile isBlank := rfl

/-- Only blanks are trimmed away altogether. -/
theorem trimChars_eq_nil_iff : trimChars cs = [] ↔ Blank cs := by
  rw [trimChars_eq_rdropWhile, List.rdropWhile_eq_nil_iff]
  constructor
  · -- what follows the blanks in front starts with a character that is not blank
    intro h
    refine List.dropWhile_eq_nil_iff.mp ?_
    by_contra hne
    have hpos := List.length_pos_iff.mpr hne
    exact List.dropWhile_get_zero_not isBlank cs hpos (h _ (List.getElem_mem hpos))
  · intro h c hc
    exact h c (List.IsSuffix.mem hc (List.dropWhile_suffix _))

theorem trim_eq_empty_iff {s : String} : trim s = "" ↔ Blank s.toList := by
  rw [trim, ← trimChars_eq_nil_iff, String.ofList_eq_empty_iff]

/-- A trimmed text starts with no blank. -/
theorem not_isBlank_head (h : trimChars cs = cs) {c : Char} {rest : List Char}
    (hcs : cs = c :: rest) :
    isBlank c = false := by
  have hfront : cs.dropWhile isBlank = cs := by
    -- it is no shorter than what is left after both trimmings
    refine (List.dropWhile_suffix _).eq_of_length_le ?_
    conv_lhs => rw [← h]
    exact (List.rdropWhile_prefix isBlank (cs.dropWhile isBlank)).length_le
  subst hcs
  by_contra hblank
  rw [List.dropWhile_cons_of_pos (by simpa using hblank)] at hfront
  have hshort := (List.dropWhile_suffix (l := rest) isBlank).length_le
  rw [hfront, List.length_cons] at hshort
  omega

/-- A trimmed text ends with no blank. -/
theorem not_isBlank_last (h : trimChars cs = cs) {c : Char} (hc : cs.getLast? = some c) :
    isBlank c = false := by
  obtain ⟨front, rfl⟩ := List.getLast?_eq_some_iff.mp hc
  by_contra hblank
  rw [trimChars_eq_rdropWhile] at h
  have hne : ((front ++ [c]).dropWhile isBlank).rdropWhile isBlank ≠ [] := by
    rw [h]
    simp
  have hlast := List.rdropWhile_last_not isBlank _ hne
  rw [List.getLast_congr _ (by simp) h, List.getLast_append_singleton] at hlast
  exact hlast (by simpa using hblank)

/-- Blanks in front are trimmed away. -/
theorem trimChars_blank_append {blanks : List Char} (h : Blank blanks) (cs : List Char) :
    trimChars (blanks ++ cs) = trimChars cs := by
  rw [trimChars, List.dropWhile_append_of_pos h]
  rfl

/-- Blanks at the end are trimmed away. -/
theorem trimChars_append_blank {blanks : List Char} (h : Blank blanks) (cs : List Char) :
    trimChars (cs ++ blanks) = trimChars cs := by
  by_cases hcs : Blank cs
  · have hall : Blank (cs ++ blanks) := fun c hc => (List.mem_append.mp hc).elim (hcs c) (h c)
    rw [trimChars_eq_nil_iff.mpr hall, trimChars_eq_nil_iff.mpr hcs]
  · have hfront : (cs.dropWhile isBlank).isEmpty = false := by
      simpa [List.dropWhile_eq_nil_iff, Blank] using hcs
    have hback : blanks.reverse.dropWhile isBlank = [] := by
      simpa [List.dropWhile_eq_nil_iff, Blank] using h
    rw [trimChars, List.dropWhile_append, hfront, if_neg Bool.false_ne_true, trimEnd,
      List.reverse_append, List.dropWhile_append, hback]
    rfl

theorem trimChars_infix_self (cs : List Char) : trimChars cs <:+: cs :=
  (List.rdropWhile_prefix isBlank _).isInfix.trans (List.dropWhile_suffix isBlank).isInfix

/-- A text that starts with no blank still starts so when it is trimmed. -/
theorem head?_trimChars {c : Char} (hc : isBlank c = false) (rest : List Char) :
    (trimChars (c :: rest)).head? = some c := by
  have hfront : (c :: rest).dropWhile isBlank = c :: rest :=
    List.dropWhile_cons_of_neg (by simp [hc])
  have hne : trimChars (c :: rest) ≠ [] := fun hnil => by
    have hblank := trimChars_eq_nil_iff.mp hnil c List.mem_cons_self
    exact Bool.false_ne_true (hc.symm.trans hblank)
  have hprefix : trimChars (c :: rest) <+: c :: rest := by
    rw [trimChars_eq_rdropWhile, hfront]
    exact List.rdropWhile_prefix isBlank _
  obtain ⟨d, ds, hcons⟩ := List.exists_cons_of_ne_nil hne
  obtain ⟨behind, hbehind⟩ := hprefix
  rw [hcons] at hbehind ⊢
  rw [(List.cons.inj hbehind).1, List.head?_cons]

/-- What is trimmed is trimmed for good. -/
theorem trimChars_trimChars (cs : List Char) : trimChars (trimChars cs) = trimChars cs := by
  have hfront : (trimChars cs).dropWhile isBlank = trimChars cs := by
    refine List.dropWhile_eq_self_iff.mpr fun hpos => ?_
    -- what is trimmed starts as what is only trimmed in front
    have hprefix := List.rdropWhile_prefix isBlank (cs.dropWhile isBlank)
    have hpos' := hpos.trans_le hprefix.length_le
    have hhead : (trimChars cs)[0] = (cs.dropWhile isBlank)[0] := hprefix.getElem hpos
    rw [hhead]
    exact List.dropWhile_get_zero_not isBlank cs hpos'
  rw [trimChars_eq_rdropWhile (trimChars cs), hfront]
  exact List.rdropWhile_idempotent isBlank _

end Text

/-! ## The first mark -/

section

variable {mark : Char} {cs front back : List Char}

theorem splitAtFirst_of_not_mem (h : mark ∉ cs) : splitAtFirst mark cs = none := by
  induction cs with
  | nil => rfl
  | cons c cs ih =>
    have hc : c ≠ mark := fun hmark => h (hmark ▸ List.mem_cons_self)
    have hcs : mark ∉ cs := fun hmem => h (List.mem_cons_of_mem _ hmem)
    rw [splitAtFirst, if_neg hc, ih hcs]
    rfl

theorem splitAtFirst_append (h : mark ∉ front) (back : List Char) :
    splitAtFirst mark (front ++ mark :: back) = some (front, back) := by
  induction front with
  | nil => simp [splitAtFirst]
  | cons c front ih =>
    have hc : c ≠ mark := fun hmark => h (hmark ▸ List.mem_cons_self)
    have hfront : mark ∉ front := fun hmem => h (List.mem_cons_of_mem _ hmem)
    rw [List.cons_append, splitAtFirst, if_neg hc, ih hfront]
    rfl

/-- **A text is cut** just at its first mark. -/
theorem splitAtFirst_eq_some_iff :
    splitAtFirst mark cs = some (front, back) ↔ cs = front ++ mark :: back ∧ mark ∉ front := by
  constructor
  · intro h
    have hmem : mark ∈ cs := by
      by_contra hmem
      rw [splitAtFirst_of_not_mem hmem] at h
      cases h
    obtain ⟨front', back', rfl, hfirst⟩ := List.eq_append_cons_of_mem hmem
    rw [splitAtFirst_append hfirst] at h
    obtain ⟨rfl, rfl⟩ := Prod.mk.inj (Option.some.inj h)
    exact ⟨rfl, hfirst⟩
  · rintro ⟨rfl, hfirst⟩
    exact splitAtFirst_append hfirst back

end

/-! ## Lines -/

namespace Text

variable {line rest : List Char}

theorem pieces_cons {c : Char} (hc : c ≠ '\n') (cs : List Char) :
    pieces (c :: cs) = (c :: (pieces cs).headD []) :: (pieces cs).tail := by
  simp only [pieces, List.foldr_cons, if_neg hc]
  -- the pieces of what follows, whatever they are
  generalize List.foldr _ [] cs = rest
  cases rest <;> rfl

/-- A first piece with its newline. -/
theorem pieces_append (hline : '\n' ∉ line) (rest : List Char) :
    pieces (line ++ '\n' :: rest) = (line ++ ['\n']) :: pieces rest := by
  induction line with
  | nil => rfl
  | cons c line ih =>
    have hc : c ≠ '\n' := fun h => hline (h ▸ List.mem_cons_self)
    have hrest : '\n' ∉ line := fun h => hline (List.mem_cons_of_mem _ h)
    rw [List.cons_append, pieces_cons hc, ih hrest]
    rfl

/-- **A line** ends at the first newline; one carriage return in front of it belongs to
the ending. -/
theorem lines_newline (hline : '\n' ∉ line) (rest : List Char) :
    lines (line ++ '\n' :: rest) = dropReturn line :: lines rest := by
  have hending : dropEnding (line ++ ['\n']) = dropReturn line := by
    rw [dropEnding, if_pos List.getLast?_concat, List.dropLast_concat]
  rw [lines, pieces_append hline, List.map_cons, hending]
  rfl

/-- A newline stands at the end of a piece only. -/
theorem exists_of_mem_pieces {cs piece : List Char} (h : piece ∈ pieces cs) :
    ∃ line, '\n' ∉ line ∧ (piece = line ∨ piece = line ++ ['\n']) := by
  induction cs generalizing piece with
  | nil => exact absurd h List.not_mem_nil
  | cons c cs ih =>
    by_cases hc : c = '\n'
    · subst hc
      rcases List.mem_cons.mp (pieces_append List.not_mem_nil cs ▸ h) with rfl | h
      · exact ⟨[], List.not_mem_nil, .inr rfl⟩
      · exact ih h
    · rw [pieces_cons hc] at h
      rcases List.mem_cons.mp h with rfl | h
      · -- the character goes to the first of the other pieces
        cases hrest : pieces cs with
        | nil => exact ⟨[c], by simpa using Ne.symm hc, .inl rfl⟩
        | cons first others =>
          obtain ⟨line, hline, hfirst⟩ := ih (hrest ▸ List.mem_cons_self)
          refine ⟨c :: line, by simp [hline, Ne.symm hc], ?_⟩
          rcases hfirst with rfl | rfl
          · exact .inl rfl
          · exact .inr rfl
      · exact ih (List.mem_of_mem_tail h)

theorem dropReturn_infix_self (line : List Char) : dropReturn line <:+: line := by
  rw [dropReturn]
  split
  · exact (List.dropLast_prefix line).isInfix
  · exact List.infix_refl line

/-- **No line** has a newline inside. -/
theorem not_mem_of_mem_lines {cs : List Char} (h : line ∈ lines cs) : '\n' ∉ line := by
  obtain ⟨piece, hpiece, rfl⟩ := List.mem_map.mp h
  obtain ⟨inside, hinside, rfl | rfl⟩ := exists_of_mem_pieces hpiece
  · have hlast : piece.getLast? ≠ some '\n' := fun hlast => hinside (List.mem_of_getLast? hlast)
    rwa [dropEnding, if_neg hlast]
  · rw [dropEnding, if_pos List.getLast?_concat, List.dropLast_concat]
    exact fun hmem => hinside ((dropReturn_infix_self inside).subset hmem)

theorem dropReturn_of_last (h : line.getLast? ≠ some '\r') : dropReturn line = line := if_neg h

theorem dropReturn_concat (line : List Char) : dropReturn (line ++ ['\r']) = line := by
  rw [dropReturn, if_pos List.getLast?_concat, List.dropLast_concat]

/-- The text **closes each of the lines**, by a newline with or without a carriage return
in front of it. -/
inductive Closes : List (List Char) → List Char → Prop
  | nil : Closes [] []
  | newline (line : List Char) {lines text} (h : Closes lines text) :
      Closes (line :: lines) (line ++ '\n' :: text)
  | returned (line : List Char) {lines text} (h : Closes lines text) :
      Closes (line :: lines) (line ++ '\r' :: '\n' :: text)

/-- **Closed lines are found again**, if none of them could be taken for more than itself. -/
theorem lines_of_closes {written : List (List Char)} {text : List Char} (h : Closes written text)
    (hlines : ∀ line ∈ written, '\n' ∉ line ∧ line.getLast? ≠ some '\r') :
    lines text = written := by
  induction h with
  | nil => rfl
  | newline line _ ih =>
    obtain ⟨hfeed, hreturn⟩ := hlines line List.mem_cons_self
    have hrest := ih fun l hl => hlines l (List.mem_cons_of_mem _ hl)
    rw [lines_newline hfeed, dropReturn_of_last hreturn, hrest]
  | @returned line _ text _ ih =>
    obtain ⟨hfeed, hreturn⟩ := hlines line List.mem_cons_self
    have hrest := ih fun l hl => hlines l (List.mem_cons_of_mem _ hl)
    have hsplit : line ++ '\r' :: '\n' :: text = (line ++ ['\r']) ++ '\n' :: text := by simp
    have hfeed' : '\n' ∉ line ++ ['\r'] := by simp [hfeed]
    rw [hsplit, lines_newline hfeed', dropReturn_concat, hrest]

/-- The two **endings** of a line. -/
def endings : List (List Char) := [['\n'], ['\r', '\n']]

theorem lines_ending {ending : List Char} (hending : ending ∈ endings) (hfeed : '\n' ∉ line)
    (hreturn : '\r' ∉ line)
    (rest : List Char) : lines (line ++ ending ++ rest) = line :: lines rest := by
  simp only [endings, List.mem_cons, List.not_mem_nil, or_false] at hending
  rcases hending with rfl | rfl
  · rw [List.append_assoc, List.singleton_append, lines_newline hfeed,
      dropReturn_of_last fun hlast => hreturn (List.mem_of_getLast? hlast)]
  · have hsplit : line ++ ['\r', '\n'] ++ rest = (line ++ ['\r']) ++ '\n' :: rest := by simp
    have hfeed' : '\n' ∉ line ++ ['\r'] := by simp [hfeed]
    rw [hsplit, lines_newline hfeed', dropReturn_concat]

/-- Lines that all have the same ending. -/
theorem closes_flatten {ending : List Char} (hending : ending ∈ endings)
    (written : List (List Char)) :
    Closes written (written.map (· ++ ending)).flatten := by
  simp only [endings, List.mem_cons, List.not_mem_nil, or_false] at hending
  induction written with
  | nil => exact .nil
  | cons line written ih =>
    rw [List.map_cons, List.flatten_cons, List.append_assoc]
    rcases hending with rfl | rfl
    · exact .newline line ih
    · exact .returned line ih

theorem pieces_of_not_mem (hne : line ≠ []) (hfeed : '\n' ∉ line) : pieces line = [line] := by
  induction line with
  | nil => exact absurd rfl hne
  | cons c rest ih =>
    have hc : c ≠ '\n' := fun h => hfeed (h ▸ List.mem_cons_self)
    have hrest : '\n' ∉ rest := fun h => hfeed (List.mem_cons_of_mem _ h)
    rw [pieces_cons hc]
    cases rest with
    | nil => rfl
    | cons d rest =>
      rw [ih (List.cons_ne_nil _ _) hrest]
      rfl

/-- What has no ending is one line, if there is anything. -/
theorem lines_of_not_mem (hne : line ≠ []) (hfeed : '\n' ∉ line) : lines line = [line] := by
  have hlast : line.getLast? ≠ some '\n' := fun hlast => hfeed (List.mem_of_getLast? hlast)
  rw [lines, pieces_of_not_mem hne hfeed, List.map_singleton, dropEnding, if_neg hlast]

/-- Joined lines stand in the text. -/
theorem infix_intercalate {ending : List Char} {joined : List (List Char)} (h : line ∈ joined) :
    line <:+: ending.intercalate joined := by
  induction joined with
  | nil => exact absurd h List.not_mem_nil
  | cons first rest ih =>
    cases rest with
    | nil =>
      obtain rfl := List.mem_singleton.mp h
      have hone : ending.intercalate [line] = line := List.intercalate_singleton
      exact hone.symm ▸ List.infix_refl line
    | cons next rest =>
      rw [List.intercalate_cons_cons]
      rcases List.mem_cons.mp h with rfl | h
      · exact (List.prefix_append line ending).isInfix.trans (List.prefix_append _ _).isInfix
      · exact (ih h).trans (List.suffix_append _ _).isInfix

/-- **Lines that are joined** are found again, but for an empty one at the end. -/
theorem lines_joined {ending : List Char} (hending : ending ∈ endings) {joined : List (List Char)}
    (hjoined : ∀ line ∈ joined, '\n' ∉ line ∧ '\r' ∉ line) :
    lines (ending.intercalate joined) = joined ∨
      joined = lines (ending.intercalate joined) ++ [[]] := by
  induction joined with
  | nil => exact .inl rfl
  | cons line rest ih =>
    obtain ⟨hfeed, hreturn⟩ := hjoined line List.mem_cons_self
    cases rest with
    | nil =>
      rw [List.intercalate_singleton]
      by_cases hne : line = []
      · subst hne
        exact .inr rfl
      · exact .inl (lines_of_not_mem hne hfeed)
    | cons next rest =>
      rw [List.intercalate_cons_cons, lines_ending hending hfeed hreturn, List.cons_append,
        List.cons_inj_right, List.cons_inj_right]
      exact ih fun l hl => hjoined l (List.mem_cons_of_mem _ hl)

end Text

end GridNet
