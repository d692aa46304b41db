import GridNet.Proofs.DescriptionGrammar

/-!
# Descriptions that are written down

A block is written as its header and one line for each assignment, in any order. Where its texts
cannot be taken for anything else, each of these lines means what it was written for, no line loses
a character to its ending, and reading finds the blocks again.

* `Block.Plain`, `Block.Writes` — blocks that can be written down, and the lines that do.
* `means_headerLine`, `means_assignmentLine` — what these lines mean.
* `Block.readFrom_entries`, `Block.readFrom_written` — reading goes over one block, and
  over all of them.
* `Block.readAll_written` — blocks that are written down are read again.
-/

namespace GridNet

open Line (OpensWith Means)
open Text (Blank trimChars)

/-! ## Plain texts -/

/-- The text has no blanks at its ends and no newline inside. -/
structure Text.Inline (s : String) : Prop where
  trimmed : Text.trim s = s
  newline : '\n' ∉ s.toList

/-- A text that **can be a key**: it is not empty, and a line that starts with it is taken for
nothing but the assignment of a key. -/
structure Text.PlainKey (key : String) : Prop where
  nonempty : key ≠ ""
  inline : Inline key
  equals : '=' ∉ key.toList
  opens : ¬ OpensWith ['[', '#', ';'] key.toList

/-- A text that **can be a kind**. -/
structure Text.PlainKind (kind : String) : Prop where
  nonempty : kind ≠ ""
  inline : Inline kind
  bracket : ']' ∉ kind.toList

namespace Text

variable {s : String}

theorem Inline.trimChars_eq (h : Inline s) : trimChars s.toList = s.toList := by
  have htrimmed : (String.ofList (trimChars s.toList)).toList = s.toList :=
    congrArg String.toList h.trimmed
  rwa [String.toList_ofList] at htrimmed

theorem Inline.not_blank (h : Inline s) (hne : s ≠ "") : ¬ Blank s.toList := by
  rw [← trimChars_eq_nil_iff, h.trimChars_eq]
  exact fun hnil => hne (String.toList_eq_nil_iff.mp hnil)

/-- A carriage return is a blank, so that none stands at the end. -/
theorem Inline.last_ne_return (h : Inline s) : s.toList.getLast? ≠ some '\r' := by
  intro hlast
  exact absurd (not_isBlank_last h.trimChars_eq hlast) (by decide)

/-- A key opens with no mark at all: a space is a blank. -/
theorem PlainKey.not_opensWith {key : String} (h : PlainKey key) :
    ¬ OpensWith ('[' :: Line.skipMarks) key.toList := by
  rintro ⟨c, hc, hhead⟩
  obtain ⟨rest, hkey⟩ := List.head?_eq_some_iff.mp hhead
  have hblank := not_isBlank_head h.inline.trimChars_eq hkey
  simp only [Line.skipMarks, List.mem_cons, List.not_mem_nil, or_false] at hc
  rcases hc with rfl | rfl | hc
  · exact h.opens ⟨_, by simp, hhead⟩
  · exact absurd hblank (by decide)
  · exact h.opens ⟨c, by simp [hc], hhead⟩

end Text

open Text (Inline PlainKey PlainKind)

instance (s : String) : Decidable (Inline s) :=
  decidable_of_iff (Text.trim s = s ∧ '\n' ∉ s.toList)
    ⟨fun ⟨h₁, h₂⟩ => ⟨h₁, h₂⟩, fun ⟨h₁, h₂⟩ => ⟨h₁, h₂⟩⟩

instance (marks text : List Char) : Decidable (OpensWith marks text) :=
  decidable_of_iff (text.head? ∈ marks.map some) (by simp [OpensWith, eq_comm])

instance (key : String) : Decidable (PlainKey key) :=
  decidable_of_iff (key ≠ "" ∧ Inline key ∧ '=' ∉ key.toList ∧
    ¬ OpensWith ['[', '#', ';'] key.toList)
    ⟨fun ⟨h₁, h₂, h₃, h₄⟩ => ⟨h₁, h₂, h₃, h₄⟩, fun ⟨h₁, h₂, h₃, h₄⟩ => ⟨h₁, h₂, h₃, h₄⟩⟩

instance (kind : String) : Decidable (PlainKind kind) :=
  decidable_of_iff (kind ≠ "" ∧ Inline kind ∧ ']' ∉ kind.toList)
    ⟨fun ⟨h₁, h₂, h₃⟩ => ⟨h₁, h₂, h₃⟩, fun ⟨h₁, h₂, h₃⟩ => ⟨h₁, h₂, h₃⟩⟩

/-! ## The lines -/

/-- The header of a block. -/
def headerLine (kind : String) : List Char := '[' :: (kind.toList ++ [']'])

/-- The line of an assignment. -/
def assignmentLine (p : String × String) : List Char := p.1.toList ++ '=' :: p.2.toList

section

variable {kind key value : String}

theorem means_headerLine (h : PlainKind kind) : Means (headerLine kind) (.header kind) := by
  have hmeans : Means (headerLine kind) (.header (String.ofList (trimChars kind.toList))) :=
    .header rfl h.bracket (h.inline.not_blank h.nonempty)
  rwa [h.inline.trimChars_eq, String.ofList_toList] at hmeans

theorem means_assignmentLine (hkey : PlainKey key) (hvalue : Inline value) :
    Means (assignmentLine (key, value)) (.assignment key value) := by
  have hblank := hkey.inline.not_blank hkey.nonempty
  have hopens : ¬ OpensWith ('[' :: Line.skipMarks) (assignmentLine (key, value)) := by
    -- the first character of the line is that of the key
    rintro ⟨c, hc, hhead⟩
    have hne : key.toList ≠ [] :=
      fun hnil => hblank fun _ hmem => absurd (hnil ▸ hmem) List.not_mem_nil
    rw [assignmentLine, List.head?_append_of_ne_nil _ hne] at hhead
    exact hkey.not_opensWith ⟨c, hc, hhead⟩
  have hmeans := Means.assignment hopens rfl hkey.equals hblank
  rwa [hkey.inline.trimChars_eq, hvalue.trimChars_eq, String.ofList_toList,
    String.ofList_toList] at hmeans

theorem headerLine_closed (h : PlainKind kind) :
    '\n' ∉ headerLine kind ∧ (headerLine kind).getLast? ≠ some '\r' := by
  constructor
  · simp [headerLine, h.inline.newline]
  · rw [headerLine, ← List.cons_append, List.getLast?_concat]
    decide

/-- The last character is the last one of the value, or the equals sign. -/
theorem assignmentLine_closed (hkey : Inline key) (hvalue : Inline value) :
    '\n' ∉ assignmentLine (key, value) ∧ (assignmentLine (key, value)).getLast? ≠ some '\r' := by
  constructor
  · simp [assignmentLine, hkey.newline, hvalue.newline]
  · rw [assignmentLine, List.getLast?_append_cons]
    cases hlast : value.toList with
    | nil => decide
    | cons c cs =>
      rw [List.getLast?_cons_cons, ← hlast]
      exact hvalue.last_ne_return

end

namespace Block

/-- The block can be **written down**: nothing of it could be taken for something else. -/
structure Plain (b : Block) : Prop where
  kind : PlainKind b.kind
  keys : ∀ p ∈ b.assignments.pairs, PlainKey p.1
  values : ∀ p ∈ b.assignments.pairs, Inline p.2

instance (b : Block) : Decidable b.Plain :=
  decidable_of_iff (PlainKind b.kind ∧ (∀ p ∈ b.assignments.pairs, PlainKey p.1) ∧
    ∀ p ∈ b.assignments.pairs, Inline p.2)
      ⟨fun ⟨h₁, h₂, h₃⟩ => ⟨h₁, h₂, h₃⟩, fun ⟨h₁, h₂, h₃⟩ => ⟨h₁, h₂, h₃⟩⟩

/-- The lines **write** the block: its header, and one line for each assignment, in any order. -/
def Writes (b : Block) (lines : List (List Char)) : Prop :=
  ∃ order : List (String × String), order.Perm b.assignments.pairs ∧
    lines = headerLine b.kind :: order.map assignmentLine

/-- The lines of plain blocks are closed lines. -/
theorem Plain.closed {b : Block} {lines : List (List Char)} (h : b.Plain)
    (hwrites : b.Writes lines) :
    ∀ line ∈ lines, '\n' ∉ line ∧ line.getLast? ≠ some '\r' := by
  obtain ⟨order, horder, rfl⟩ := hwrites
  intro line hline
  rcases List.mem_cons.mp hline with rfl | hline
  · exact headerLine_closed h.kind
  · obtain ⟨p, hp, rfl⟩ := List.mem_map.mp hline
    have hmem := horder.mem_iff.mp hp
    exact assignmentLine_closed (h.keys p hmem).inline (h.values p hmem)

/-! ## Reading them -/

/-- **The lines of one block** add its assignments, by induction over them. -/
theorem readFrom_entries {order : List (String × String)}
    (horder : ∀ p ∈ order, PlainKey p.1 ∧ Inline p.2)
    (first : Nat) (b : Block) (rest : List (List Char)) :
    readFrom first (some b) (order.map assignmentLine ++ rest) =
      readFrom (first + order.length)
        (some { b with assignments := b.assignments.insertAll order }) rest := by
  induction order generalizing first b with
  | nil => rfl
  | cons p order ih =>
    obtain ⟨key, value⟩ := p
    obtain ⟨hkey, hvalue⟩ := horder (key, value) List.mem_cons_self
    have hread := Line.read_of_means (means_assignmentLine hkey hvalue)
    rw [List.map_cons, List.cons_append, readFrom, hread]
    dsimp only
    rw [ih (fun p hp => horder p (List.mem_cons_of_mem _ hp)), List.length_cons, Nat.add_assoc,
      Nat.add_comm 1]
    rfl

/-- **The lines of all blocks** are read as these, each with the number of its header. What was open
in front of them is closed by the first header, or by the end. -/
theorem readFrom_written {blocks : List Block} {written : List (List (List Char))}
    (hwritten : List.Forall₂ Writes blocks written) (hplain : ∀ b ∈ blocks, b.Plain) (first : Nat)
    (current : Option Block) :
    readFrom first current written.flatten = .ok (current.toList ++
      blocks.mapIdx fun i b => { b with line := first + (written.take i).flatten.length }) := by
  induction hwritten generalizing first current with
  | nil => simp [readFrom]
  | @cons b lines blocks written hb hblocks ih =>
    obtain ⟨order, horder, rfl⟩ := hb
    have hb := hplain b List.mem_cons_self
    have hentries : ∀ p ∈ order, PlainKey p.1 ∧ Inline p.2 := fun p hp =>
      ⟨hb.keys p (horder.mem_iff.mp hp), hb.values p (horder.mem_iff.mp hp)⟩
    have hread := Line.read_of_means (means_headerLine hb.kind)
    have hrest := ih (fun b' hb' => hplain b' (List.mem_cons_of_mem _ hb'))
      (first + 1 + order.length) (some { b with line := first })
    rw [List.flatten_cons, List.cons_append, readFrom, hread]
    dsimp only
    rw [readFrom_entries hentries]
    dsimp only
    rw [Assignments.insertAll_of_perm horder, hrest, List.mapIdx_cons]
    simp [Except.map, Nat.add_assoc, Nat.add_comm, Nat.add_left_comm]

/-- **Blocks that are written down are read again**, each with the number of the line at
which its header stands, whichever order the assignments of a block are in and whichever
ending each line has. -/
theorem readAll_written {blocks : List Block} {written : List (List (List Char))} {text : String}
    (hplain : ∀ b ∈ blocks, b.Plain) (hwritten : List.Forall₂ Writes blocks written)
    (htext : Text.Closes written.flatten text.toList) :
    readAll text =
      .ok (blocks.mapIdx fun i b => { b with line := (written.take i).flatten.length + 1 }) := by
  have hclosed : ∀ line ∈ written.flatten, '\n' ∉ line ∧ line.getLast? ≠ some '\r' := by
    intro line hline
    obtain ⟨lines, hlines, hline⟩ := List.mem_flatten.mp hline
    obtain ⟨i, hi, rfl⟩ := List.getElem_of_mem hlines
    have hi' : i < blocks.length := hwritten.length_eq ▸ hi
    exact (hplain _ (List.getElem_mem hi')).closed (hwritten.get hi' hi) line hline
  have hlines : linesOf text = written.flatten := by
    rw [linesOf, Text.lines_of_closes htext hclosed]
    exact (List.map_congr_left fun line hline =>
      Text.dropReturn_of_last (hclosed line hline).2).trans (List.map_id' _)
  rw [readAll, hlines, readFrom_written hwritten hplain]
  simp only [Option.toList_none, List.nil_append, Nat.add_comm]

/-- Two blocks, with a key that is not ASCII, a value that looks like a mark, and one that
is empty. -/
def twoBlocks : List Block :=
  [{ kind := "net", line := 1,
     assignments := (Assignments.empty.insert "batch" "2 4").insert "é" "]" },
   { kind := "my route", line := 4, assignments := Assignments.empty.insert "layers" "" }]

/-- They are read with the assignments turned round, and from lines with both endings. -/
theorem readAll_written_twoBlocks :
    readAll "[net]\r\né=]\nbatch=2 4\r\n[my route]\nlayers=\r\n" = .ok twoBlocks := by
  have hwritten : List.Forall₂ Writes twoBlocks
      [["[net]".toList, "é=]".toList, "batch=2 4".toList],
        ["[my route]".toList, "layers=".toList]] := by
    refine .cons ⟨[("é", "]"), ("batch", "2 4")], ?_, ?_⟩
      (.cons ⟨[("layers", "")], ?_, ?_⟩ .nil) <;> decide
  have htext : Text.Closes ["[net]".toList, "é=]".toList, "batch=2 4".toList, "[my route]".toList,
      "layers=".toList] "[net]\r\né=]\nbatch=2 4\r\n[my route]\nlayers=\r\n".toList :=
    .returned "[net]".toList (.newline "é=]".toList (.returned "batch=2 4".toList
      (.newline "[my route]".toList (.returned "layers=".toList .nil))))
  exact readAll_written (by decide) hwritten htext

end Block

end GridNet
