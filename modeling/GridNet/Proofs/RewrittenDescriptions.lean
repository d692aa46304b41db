import GridNet.Proofs.DescriptionContents
import GridNet.Proofs.WrittenDescriptions
import Mathlib.Algebra.Order.BigOperators.Group.List

/-!
# Descriptions that are written down again

A description that has been read can be written down with one line for each assignment. Mostly that
is read as what it was. What is read of a line is trimmed of all blanks, though, whereas a line is
passed over for a space in front of it and for no other blank. So a line with another blank in front
can assign a key that opens with a bracket, `#` or `;`, and when such a key is written down it
starts a line that means something else.

* `Block.Parsed`, `Block.parsed_of_readAll` — what kinds, keys and values look like that
  have been read.
* `Line.indented_of_marked` — where a key comes from that opens with a mark.
* `Block.pairCount_le_of_contentsOf` — there are no more assignments in the blocks than in
  the lines.
* `Block.readAll_rendered` — blocks survive being written down just if no key opens with a mark.
-/

namespace GridNet

open Line (Means OpensWith)
open Text (Inline PlainKind trimChars)

/-! ## What has been read -/

/-- The marks that a line is taken for something else by, if it starts with them. -/
def Text.keyMarks : List Char := ['[', '#', ';']

/-- A line that starts with one of them is no assignment. -/
theorem Text.keyMarks_subset : Text.keyMarks ⊆ '[' :: Line.skipMarks := by decide

/-- The line is **indented** by a blank that is no space. -/
def Line.Indented (text : List Char) : Prop :=
  ∃ c, text.head? = some c ∧ Text.isBlank c = true ∧ c ≠ ' '

namespace Text

/-- What is trimmed off a line has no blanks at its ends and no newline inside. -/
theorem inline_trimChars {cs : List Char} (h : '\n' ∉ cs) :
    Inline (String.ofList (trimChars cs)) where
  trimmed := by rw [trim, String.toList_ofList, trimChars_trimChars]
  newline := by
    rw [String.toList_ofList]
    exact fun hmem => h ((trimChars_infix_self cs).subset hmem)

theorem ofList_trimChars_ne_empty {cs : List Char} (h : ¬ Blank cs) :
    String.ofList (trimChars cs) ≠ "" := by
  intro hempty
  have hnil := congrArg String.toList hempty
  rw [String.toList_ofList] at hnil
  exact h (trimChars_eq_nil_iff.mp hnil)

end Text

namespace Line

variable {text : List Char} {kind key value : String}

/-- The text between brackets can be a kind. -/
theorem Means.plainKind (h : Means text (.header kind)) (hline : '\n' ∉ text) : PlainKind kind := by
  cases h with
  | @header inner rest htext hfirst hkind =>
    have hinner : '\n' ∉ inner := fun hmem => hline (by simp [htext, hmem])
    refine ⟨Text.ofList_trimChars_ne_empty hkind, Text.inline_trimChars hinner, ?_⟩
    rw [String.toList_ofList]
    exact fun hmem => hfirst ((Text.trimChars_infix_self inner).subset hmem)

/-- The text in front of the first equals sign, and the text behind it. -/
theorem Means.inline (h : Means text (.assignment key value)) (hline : '\n' ∉ text) :
    key ≠ "" ∧ Inline key ∧ '=' ∉ key.toList ∧ Inline value := by
  cases h with
  | @assignment front back hopens htext hfirst hkey =>
    have hfront : '\n' ∉ front := fun hmem => hline (by simp [htext, hmem])
    have hback : '\n' ∉ back := fun hmem => hline (by simp [htext, hmem])
    refine ⟨Text.ofList_trimChars_ne_empty hkey, Text.inline_trimChars hfront, ?_,
      Text.inline_trimChars hback⟩
    rw [String.toList_ofList]
    exact fun hmem => hfirst ((Text.trimChars_infix_self front).subset hmem)

/-- **A key that opens with a mark** was trimmed off an indented line. -/
theorem indented_of_marked (h : Means text (.assignment key value))
    (hmark : OpensWith Text.keyMarks key.toList) :
    Indented text := by
  cases h with
  | @assignment front back hopens htext hfirst hkey =>
    cases front with
    | nil => exact absurd (fun c hc => absurd hc List.not_mem_nil) hkey
    | cons c rest =>
      have hhead : text.head? = some c := by rw [htext, List.cons_append, List.head?_cons]
      refine ⟨c, hhead, ?_, fun hspace => hopens ⟨c, by simp [skipMarks, hspace], hhead⟩⟩
      by_contra hblank
      -- otherwise the line itself opens with the mark
      obtain ⟨mark, hmark, hkeyhead⟩ := hmark
      rw [String.toList_ofList, Text.head?_trimChars (by simpa using hblank)] at hkeyhead
      obtain rfl := Option.some.inj hkeyhead
      exact hopens ⟨c, Text.keyMarks_subset hmark, hhead⟩

end Line

namespace Block

/-- The texts of a block that **has been read**. -/
structure Parsed (b : Block) : Prop where
  kind : PlainKind b.kind
  keys : ∀ p ∈ b.assignments.pairs, p.1 ≠ "" ∧ Inline p.1 ∧ '=' ∉ p.1.toList
  values : ∀ p ∈ b.assignments.pairs, Inline p.2

/-- Some key of the block **opens with a mark**. -/
def Marked (b : Block) : Prop := ∃ p ∈ b.assignments.pairs, OpensWith Text.keyMarks p.1.toList

instance (b : Block) : Decidable b.Marked :=
  inferInstanceAs (Decidable (∃ p ∈ b.assignments.pairs, OpensWith Text.keyMarks p.1.toList))

/-- A block without such keys can be written down. -/
theorem Parsed.plain {b : Block} (h : b.Parsed) (hmarked : ¬ b.Marked) : b.Plain where
  kind := h.kind
  keys p hp :=
    have ⟨hne, hinline, hequals⟩ := h.keys p hp
    ⟨hne, hinline, hequals, fun hopens => hmarked ⟨p, hp, hopens⟩⟩
  values := h.values

variable {text ending : String} {blocks : List Block}

theorem not_mem_of_mem_linesOf {line : List Char} (h : line ∈ linesOf text) : '\n' ∉ line := by
  obtain ⟨whole, hwhole, rfl⟩ := List.mem_map.mp h
  exact fun hmem => Text.not_mem_of_mem_lines hwhole
    ((Text.dropReturn_infix_self whole).subset hmem)

/-- What is read are all blocks of the lines. -/
theorem allOf_of_readAll (h : readAll text = .ok blocks) : AllOf 1 (linesOf text) blocks := by
  obtain ⟨closed, rest, rfl, hrest, hclosed⟩ := readFrom_sound _ _ _ _ h
  -- no block was open in front of the first line
  obtain rfl := List.forall₂_nil_left_iff.mp hclosed
  exact hrest

/-- Each assignment of a block stands on a line. -/
theorem exists_line_of_readAll (h : readAll text = .ok blocks) {b : Block} (hb : b ∈ blocks) :
    (∃ line ∈ linesOf text, Means line (.header b.kind)) ∧
      ∀ p ∈ b.assignments.pairs, ∃ line ∈ linesOf text, Means line (.assignment p.1 p.2) := by
  obtain ⟨before, header, below, hsplit, -, hkind, hassigned⟩ := (allOf_of_readAll h).below b hb
  refine ⟨⟨header, by simp [hsplit], hkind⟩, fun p hp => ?_⟩
  obtain ⟨between, line, after, hbelow, hmeans, -⟩ :=
    (hassigned p.1 p.2).mp (Assignments.get?_eq_some_iff.mpr hp)
  exact ⟨line, by simp [hsplit, hbelow], hmeans⟩

/-- **What has been read** looks like that. -/
theorem parsed_of_readAll (h : readAll text = .ok blocks) : ∀ b ∈ blocks, b.Parsed := by
  intro b hb
  obtain ⟨⟨header, hheader, hkind⟩, hassigned⟩ := exists_line_of_readAll h hb
  have hinline : ∀ p ∈ b.assignments.pairs, p.1 ≠ "" ∧ Inline p.1 ∧ '=' ∉ p.1.toList ∧
      Inline p.2 := fun p hp =>
    have ⟨_, hline, hmeans⟩ := hassigned p hp
    hmeans.inline (not_mem_of_mem_linesOf hline)
  exact ⟨hkind.plainKind (not_mem_of_mem_linesOf hheader),
    fun p hp => have ⟨hne, hkey, hequals, _⟩ := hinline p hp; ⟨hne, hkey, hequals⟩,
    fun p hp => (hinline p hp).2.2.2⟩

/-! ## What is written -/

/-- The **lines of a block**: its header, and one for each assignment in the order of the keys. -/
def written (b : Block) : List (List Char) :=
  headerLine b.kind :: b.assignments.pairs.map assignmentLine

/-- Blocks **as a text**, one behind the other. -/
def renderAll (ending : String) (blocks : List Block) : String :=
  String.join (blocks.map (render ending))

theorem writes_written (b : Block) : b.Writes b.written := ⟨_, .refl _, rfl⟩

theorem toList_render (ending : String) (b : Block) :
    (b.render ending).toList = (b.written.map (· ++ ending.toList)).flatten := by
  simp [render, written, headerLine, assignmentLine, String.toList_join, List.flatMap_def,
    Function.comp_def]

theorem toList_renderAll (ending : String) (blocks : List Block) :
    (renderAll ending blocks).toList =
      ((blocks.map written).flatten.map (· ++ ending.toList)).flatten := by
  simp [renderAll, String.toList_join, toList_render, List.flatMap_def, Function.comp_def,
    List.flatten_flatten]

/-- What is written has the lines that were meant. -/
theorem linesOf_renderAll (hending : ending.toList ∈ Text.endings)
    (hblocks : ∀ b ∈ blocks, b.Parsed) :
    linesOf (renderAll ending blocks) = (blocks.map written).flatten := by
  have hclosed : ∀ line ∈ (blocks.map written).flatten, '\n' ∉ line ∧
      line.getLast? ≠ some '\r' := by
    intro line hline
    obtain ⟨lines, hlines, hline⟩ := List.mem_flatten.mp hline
    obtain ⟨b, hb, rfl⟩ := List.mem_map.mp hlines
    rcases List.mem_cons.mp hline with rfl | hline
    · exact headerLine_closed (hblocks b hb).kind
    · obtain ⟨p, hp, rfl⟩ := List.mem_map.mp hline
      exact assignmentLine_closed ((hblocks b hb).keys p hp).2.1 ((hblocks b hb).values p hp)
  have hlines := Text.lines_of_closes
    (Text.closes_flatten hending (blocks.map written).flatten) hclosed
  rw [linesOf, toList_renderAll, hlines,
    List.map_congr_left fun line hline =>
      Text.dropReturn_of_last (hclosed line hline).2, List.map_id']

end Block

/-! ## Counting -/

/-- An insertion adds one pair at most. -/
theorem length_insertFirst_le (key value : String) (pairs : List (String × String)) :
    (insertFirst key value pairs).length ≤ pairs.length + 1 := by
  induction pairs with
  | nil => exact Nat.le_refl _
  | cons head rest ih =>
    rw [insertFirst]
    split
    · exact Nat.le_succ _
    · split
      · exact Nat.le_refl _
      · exact Nat.succ_le_succ ih

/-- The line is an assignment. -/
def Line.isAssignment (text : List Char) : Bool :=
  match Line.read text with
  | .ok (.assignment _ _) => true
  | _ => false

namespace Line

variable {text : List Char} {key value : String}

theorem isAssignment_of_means (h : Means text (.assignment key value)) :
    isAssignment text = true := by
  rw [isAssignment, read_of_means h]

theorem means_of_isAssignment (h : isAssignment text = true) :
    ∃ key value, Means text (.assignment key value) := by
  unfold isAssignment at h
  split at h
  · next key value hread => exact ⟨key, value, means_of_read hread⟩
  · exact absurd h Bool.false_ne_true

theorem not_isAssignment_headerLine (kind : String) : ¬ isAssignment (headerLine kind) = true := by
  intro h
  obtain ⟨key, value, hmeans⟩ := means_of_isAssignment h
  cases hmeans with
  | assignment hopens _ _ _ => exact hopens ⟨'[', List.mem_cons_self, rfl⟩

/-- What is written for a key that opens with a mark is no assignment. -/
theorem not_isAssignment_marked {p : String × String} (hmark : OpensWith Text.keyMarks p.1.toList) :
    ¬ isAssignment (assignmentLine p) = true := by
  intro h
  obtain ⟨key, value, hmeans⟩ := means_of_isAssignment h
  obtain ⟨c, hc, hhead⟩ := hmark
  cases hmeans with
  | assignment hopens _ _ _ =>
    refine hopens ⟨c, Text.keyMarks_subset hc, ?_⟩
    obtain ⟨rest, hkey⟩ := List.head?_eq_some_iff.mp hhead
    rw [assignmentLine, hkey, List.cons_append, List.head?_cons]

end Line

namespace Block

variable {text ending : String} {blocks : List Block}

/-- The assignments that some blocks make up. -/
def pairCount (said : List (String × Assignments)) : Nat := (said.map (·.2.pairs.length)).sum

theorem pairCount_append (said others : List (String × Assignments)) :
    pairCount (said ++ others) = pairCount said + pairCount others := by
  rw [pairCount, List.map_append, List.sum_append]
  rfl

/-- **No more is assigned than there are assignments** among the lines, by induction over them. -/
theorem pairCount_le_of_contentsOf {lines : List (List Char)} (current : Option Block)
    {said : List (String × Assignments)} (h : contentsOf current lines = some said) :
    pairCount said ≤ pairCount (current.toList.map contents) + lines.countP Line.isAssignment := by
  induction lines generalizing current said with
  | nil =>
    obtain rfl := Option.some.inj h
    exact Nat.le_add_right _ _
  | cons text lines ih =>
    have hmore : lines.countP Line.isAssignment ≤ (text :: lines).countP Line.isAssignment :=
      (List.sublist_cons_self text lines).countP_le
    cases hread : Line.read text with
    | error reason =>
      rw [contentsOf_malformed hread] at h
      cases h
    | ok line =>
      have hmeans := Line.means_of_read hread
      cases line with
      | skipped =>
        rw [contentsOf_skipped hmeans] at h
        exact (ih current h).trans (Nat.add_le_add_left hmore _)
      | header kind =>
        rw [contentsOf_header hmeans] at h
        obtain ⟨behind, hbehind, rfl⟩ := Option.map_eq_some_iff.mp h
        -- the block that is opened has no assignments yet
        have hrest : pairCount behind ≤ lines.countP Line.isAssignment := by
          simpa [pairCount, contents, Assignments.empty] using ih (some { kind, line := 0 }) hbehind
        rw [pairCount_append]
        omega
      | assignment key value =>
        have hcount : (text :: lines).countP Line.isAssignment =
            lines.countP Line.isAssignment + 1 :=
          List.countP_cons_of_pos (Line.isAssignment_of_means hmeans)
        cases current with
        | none =>
          rw [contentsOf_unopened hmeans] at h
          cases h
        | some b =>
          rw [contentsOf_assignment hmeans] at h
          have hinsert := length_insertFirst_le key value b.assignments.pairs
          have hrest := ih _ h
          simp only [pairCount, contents, Assignments.insert, Option.toList_some,
            List.map_cons, List.map_nil, List.sum_cons, List.sum_nil] at hrest hinsert ⊢
          omega

/-- What is written for a block has no more assignments than the block, and fewer if some key opens
with a mark. -/
theorem countP_written_le (b : Block) :
    b.written.countP Line.isAssignment ≤ b.contents.2.pairs.length := by
  rw [written, List.countP_cons_of_neg (Line.not_isAssignment_headerLine b.kind)]
  exact List.countP_le_length.trans_eq (List.length_map _)

theorem countP_written_lt {b : Block} (h : b.Marked) :
    b.written.countP Line.isAssignment < b.contents.2.pairs.length := by
  obtain ⟨p, hp, hmark⟩ := h
  rw [written, List.countP_cons_of_neg (Line.not_isAssignment_headerLine b.kind)]
  refine (lt_of_le_of_ne List.countP_le_length fun hall => ?_).trans_eq (List.length_map _)
  exact Line.not_isAssignment_marked hmark
    (List.countP_eq_length.mp hall _ (List.mem_map_of_mem hp))

/-! ## Written down and read -/

/-- Blocks **survive** being written down: what is read then says the same. -/
def Survive (ending : String) (blocks : List Block) : Prop :=
  ∃ blocks', readAll (renderAll ending blocks) = .ok blocks' ∧
    blocks'.map contents = blocks.map contents

/-- Blocks without marks survive. -/
theorem survive_of_not_marked (hending : ending.toList ∈ Text.endings)
    (hblocks : ∀ b ∈ blocks, b.Parsed)
    (hmarked : ∀ b ∈ blocks, ¬ b.Marked) : Survive ending blocks := by
  have hplain : ∀ b ∈ blocks, b.Plain := fun b hb => (hblocks b hb).plain (hmarked b hb)
  have hwritten : List.Forall₂ Writes blocks (blocks.map written) :=
    List.forall₂_map_right_iff.mpr (List.forall₂_same.mpr fun b _ => b.writes_written)
  have hread := readFrom_written hwritten hplain 1 none
  rw [← linesOf_renderAll hending hblocks] at hread
  exact ⟨_, hread, List.ext_getElem (by simp) (by simp [contents])⟩

/-- Blocks with a mark do not: an assignment is lost. -/
theorem not_survive_of_marked (hending : ending.toList ∈ Text.endings)
    (hblocks : ∀ b ∈ blocks, b.Parsed) {b : Block}
    (hb : b ∈ blocks) (hmarked : b.Marked) : ¬ Survive ending blocks := by
  intro hsurvive
  have hsaid := readAll_contents.mpr hsurvive
  rw [linesOf_renderAll hending hblocks] at hsaid
  have hle := pairCount_le_of_contentsOf none hsaid
  rw [List.countP_flatten, List.map_map] at hle
  have hlt : (blocks.map fun b => b.written.countP Line.isAssignment).sum <
      (blocks.map fun b => b.contents.2.pairs.length).sum :=
    List.sum_lt_sum _ _ (fun b _ => b.countP_written_le) ⟨b, hb, countP_written_lt hmarked⟩
  rw [pairCount, List.map_map] at hle
  exact absurd hle (by simpa [pairCount, Function.comp_def] using hlt)

/-- **What has been read survives being written down** just if no key opens with a mark; and such a
key was assigned on a line that is indented by a blank other than a space. -/
theorem readAll_rendered (hread : readAll text = .ok blocks)
    (hending : ending = "\n" ∨ ending = "\r\n") :
    (Survive ending blocks ↔ ∀ b ∈ blocks, ¬ b.Marked) ∧
      ∀ b ∈ blocks, ∀ p ∈ b.assignments.pairs, OpensWith Text.keyMarks p.1.toList →
        ∃ line ∈ linesOf text, Means line (.assignment p.1 p.2) ∧ Line.Indented line := by
  have hparsed := parsed_of_readAll hread
  have hending' : ending.toList ∈ Text.endings := by
    rcases hending with rfl | rfl <;> decide
  refine ⟨⟨fun hsurvive b hb hmarked => ?_, survive_of_not_marked hending' hparsed⟩,
    fun b hb p hp hmark => ?_⟩
  · exact not_survive_of_marked hending' hparsed hb hmarked hsurvive
  · obtain ⟨line, hline, hmeans⟩ := (exists_line_of_readAll hread hb).2 p hp
    exact ⟨line, hline, hmeans, Line.indented_of_marked hmeans hmark⟩

/-- A description with an assignment that is indented by a tabulator. -/
def indentedBlocks : List Block :=
  [{ kind := "net", line := 1, assignments := Assignments.empty.insert "batch" "2 4" }]

/-- It survives: its key opens with no mark. -/
theorem survive_indentedBlocks : Survive "\r\n" indentedBlocks := by
  have hread : readAll "[net]\n\tbatch = 2 4\n" = .ok indentedBlocks := by rfl
  exact (readAll_rendered hread (.inr rfl)).1.mpr (by decide)

/-- What is read of a description with a comment that is indented by a tabulator. -/
def commentedBlocks : List Block :=
  [{ kind := "net", line := 1, assignments := Assignments.empty.insert "#a" "1" }]

/-- **An indented comment** is read as the assignment of a key that opens with its mark, and is a
comment again when it has been written down. -/
theorem not_survive_commentedBlocks :
    readAll "[net]\n\t#a=1\n" = .ok commentedBlocks ∧ (∃ b ∈ commentedBlocks, b.Marked) ∧
      readAll (renderAll "\n" commentedBlocks) = .ok [{ kind := "net", line := 1 }] ∧
      ¬ Survive "\n" commentedBlocks := by
  have hread : readAll (renderAll "\n" commentedBlocks) = .ok [{ kind := "net", line := 1 }] := by
    rfl
  refine ⟨by rfl, by decide, hread, ?_⟩
  rintro ⟨blocks', hread', hsame⟩
  obtain rfl := Except.ok.inj (hread.symm.trans hread')
  exact absurd hsame (by decide)

end Block

end GridNet
