import GridNet.Proofs.AssignmentMaps
import GridNet.Proofs.Outcomes
import GridNet.Proofs.TextCuts

/-!
# The grammar of descriptions

What a line means depends on the line alone; whether it may stand where it does depends on the lines
in front of it. The grammar here knows nothing of reading: it speaks of the lines as a list, and of
the block that stands below a header. Reading goes over the lines once, with one block open, and
comes to the same.

* `Line.Means`, `Line.means_of_read`, `Line.read_of_means` — one line.
* `Line.Fits`, `IsDescription` — lines that may follow each other.
* `Line.Assigns`, `Block.Below`, `Block.AllOf` — the blocks of some lines.
* `Block.readFrom_fits`, `Block.readFrom_front` — what reading makes of one more line, and of all
  lines in front.
* `Block.readAll_reads` — reading a text is reading by the grammar.
-/

namespace GridNet

open Text (Blank trimChars)

/-! ## One line -/

namespace Line

/-- The line **opens with** one of the marks. -/
def OpensWith (marks : List Char) (text : List Char) : Prop := ∃ c ∈ marks, text.head? = some c

/-- The marks of lines that are passed over. -/
def skipMarks : List Char := [' ', '#', ';']

/-- What a line **means**. -/
inductive Means (text : List Char) : Line → Prop
  /-- the line is empty, or opens with a mark of its own -/
  | skipped (h : text = [] ∨ OpensWith skipMarks text) : Means text .skipped
  /-- brackets around something that is not blank; they are closed at the first place
  where they can be -/
  | header {inner rest : List Char} (htext : text = '[' :: (inner ++ ']' :: rest))
      (hfirst : ']' ∉ inner)
      (hkind : ¬ Blank inner) : Means text (.header (String.ofList (trimChars inner)))
  /-- a key that is not blank, up to the first equals sign, and a value -/
  | assignment {front back : List Char} (hopens : ¬ OpensWith ('[' :: skipMarks) text)
      (htext : text = front ++ '=' :: back) (hfirst : '=' ∉ front) (hkey : ¬ Blank front) :
      Means text (.assignment (String.ofList (trimChars front)) (String.ofList (trimChars back)))

theorem opensWith_cons {marks : List Char} {c : Char} {rest : List Char} :
    OpensWith marks (c :: rest) ↔ c ∈ marks := by
  simp [OpensWith]

theorem isEmpty_trimChars {cs : List Char} : (trimChars cs).isEmpty = true ↔ Blank cs := by
  rw [List.isEmpty_iff, Text.trimChars_eq_nil_iff]

variable {text : List Char} {line : Line} {kind key value : String}

/-- What is read off a line is what it means. -/
theorem means_of_read (h : read text = .ok line) : Means text line := by
  unfold read at h
  split at h
  · -- nothing
    obtain rfl := Except.ok.inj h
    exact .skipped (.inl rfl)
  · next c rest =>
    split at h
    · next hskip =>
      obtain rfl := Except.ok.inj h
      exact .skipped (.inr (opensWith_cons.mpr (by simpa [skipMarks] using hskip)))
    · next hskip =>
      split at h
      · next hopen =>
        split at h
        · cases h
        · next inner back hsplit =>
          dsimp only at h
          split at h
          · cases h
          · next hkind =>
            obtain rfl := Except.ok.inj h
            obtain ⟨rfl, hfirst⟩ := splitAtFirst_eq_some_iff.mp hsplit
            exact .header (by rw [hopen]) hfirst fun hblank => hkind (isEmpty_trimChars.mpr hblank)
      · next hopen =>
        split at h
        · cases h
        · next front back hsplit =>
          dsimp only at h
          split at h
          · cases h
          · next hkey =>
            obtain rfl := Except.ok.inj h
            obtain ⟨htext, hfirst⟩ := splitAtFirst_eq_some_iff.mp hsplit
            refine .assignment (fun hopens => ?_) htext hfirst fun hblank =>
              hkey (isEmpty_trimChars.mpr hblank)
            have hmark := opensWith_cons.mp hopens
            simp only [skipMarks, List.mem_cons, List.not_mem_nil, or_false] at hmark
            exact hmark.elim hopen hskip

/-- What a line means is read off it. -/
theorem read_of_means (h : Means text line) : read text = .ok line := by
  cases h with
  | skipped h =>
    rcases h with rfl | ⟨c, hmark, hhead⟩
    · rfl
    · obtain ⟨rest, rfl⟩ := List.head?_eq_some_iff.mp hhead
      have hskip : c = ' ' ∨ c = '#' ∨ c = ';' := by simpa [skipMarks] using hmark
      rw [read, if_pos hskip]
  | header htext hfirst hkind =>
    rw [htext, read, if_neg (by decide), if_pos rfl, splitAtFirst_append hfirst]
    exact if_neg fun h => hkind (isEmpty_trimChars.mp h)
  | @assignment front back hopens htext hfirst hkey =>
    have hsplit : splitAtFirst '=' text = some (front, back) :=
      splitAtFirst_eq_some_iff.mpr ⟨htext, hfirst⟩
    cases text with
    | nil => simp at htext
    | cons c rest =>
      have hmark : c ∉ '[' :: skipMarks := fun h => hopens (opensWith_cons.mpr h)
      simp only [skipMarks, List.mem_cons, List.not_mem_nil, or_false, not_or] at hmark
      rw [read, if_neg (by simp [hmark]), if_neg hmark.1, hsplit]
      exact if_neg fun h => hkey (isEmpty_trimChars.mp h)

/-- A line means one thing at most. -/
theorem Means.unique {line' : Line} (h : Means text line) (h' : Means text line') : line = line' :=
  Except.ok.inj ((read_of_means h).symm.trans (read_of_means h'))

/-! ## Lines that follow each other -/

/-- The line is a **header**. -/
def IsHeader (text : List Char) : Prop := ∃ kind, Means text (.header kind)

/-- The line is passed over, or it is a header, or it is an assignment and some line in front of it
is a header: it **fits** where it stands. -/
def Fits (before : List (List Char)) (text : List Char) : Prop :=
  Means text .skipped ∨ IsHeader text ∨
    (∃ key value, Means text (.assignment key value)) ∧ ∃ earlier ∈ before, IsHeader earlier

/-- A key is **assigned** a value below a header: it is the first assignment of this key in front of
the next header. -/
def Assigns (below : List (List Char)) (key value : String) : Prop :=
  ∃ between text after, below = between ++ text :: after ∧ Means text (.assignment key value) ∧
    ∀ earlier ∈ between, ¬ IsHeader earlier ∧ ∀ v, ¬ Means earlier (.assignment key v)

theorem not_assigns_nil : ¬ Assigns [] key value := by
  rintro ⟨between, text, after, h, -⟩
  simp at h

/-- The line below a header is the assignment, or it is another one of these lines. -/
theorem assigns_cons {below : List (List Char)} : Assigns (text :: below) key value ↔
    Means text (.assignment key value) ∨
      (¬ IsHeader text ∧ ∀ v, ¬ Means text (.assignment key v)) ∧ Assigns below key value := by
  constructor
  · rintro ⟨between, line, after, h, hmeans, hbetween⟩
    cases between with
    | nil =>
      obtain ⟨rfl, -⟩ := List.cons.inj h
      exact .inl hmeans
    | cons first between =>
      obtain ⟨rfl, rfl⟩ := List.cons.inj h
      exact .inr ⟨hbetween _ List.mem_cons_self, between, line, after, rfl, hmeans,
        fun earlier hmem => hbetween earlier (List.mem_cons_of_mem _ hmem)⟩
  · rintro (hmeans | ⟨hfirst, between, line, after, rfl, hmeans, hbetween⟩)
    · exact ⟨[], text, below, rfl, hmeans, fun _ hmem => absurd hmem List.not_mem_nil⟩
    · refine ⟨text :: between, line, after, rfl, hmeans, fun earlier hmem => ?_⟩
      rcases List.mem_cons.mp hmem with rfl | hmem
      · exact hfirst
      · exact hbetween earlier hmem

theorem not_assigns_header {below : List (List Char)} (h : IsHeader text) :
    ¬ Assigns (text :: below) key value := by
  obtain ⟨kind, hkind⟩ := h
  rw [assigns_cons]
  rintro (hmeans | ⟨⟨hnone, -⟩, -⟩)
  · cases hmeans.unique hkind
  · exact hnone ⟨kind, hkind⟩

theorem assigns_skipped {below : List (List Char)} (h : Means text .skipped) :
    Assigns (text :: below) key value ↔ Assigns below key value := by
  have hheader : ¬ IsHeader text := fun ⟨_, hkind⟩ => by cases hkind.unique h
  have hassigned : ∀ v, ¬ Means text (.assignment key v) := fun v hmeans => by cases hmeans.unique h
  rw [assigns_cons, or_iff_right (hassigned value), and_iff_right ⟨hheader, hassigned⟩]

end Line

/-- The lines are a **description**: each of them fits. -/
def IsDescription (lines : List (List Char)) : Prop :=
  ∀ before text after, lines = before ++ text :: after → Line.Fits before text

theorem isDescription_nil : IsDescription [] := fun before _ _ h => by simp at h

/-- One more line. -/
theorem isDescription_concat {lines : List (List Char)} {text : List Char} :
    IsDescription (lines ++ [text]) ↔ IsDescription lines ∧ Line.Fits lines text := by
  constructor
  · intro h
    refine ⟨fun before line after hsplit => h before line (after ++ [text]) ?_, h lines text [] rfl⟩
    rw [hsplit, List.append_assoc, List.cons_append]
  · rintro ⟨hlines, htext⟩ before line after hsplit
    rcases List.eq_nil_or_concat after with rfl | ⟨after, last, rfl⟩
    · obtain ⟨rfl, hline⟩ := List.append_inj' hsplit rfl
      exact List.singleton_inj.mp hline ▸ htext
    · have hfront : lines ++ [text] = (before ++ line :: after) ++ [last] := by
        rw [hsplit, List.concat_eq_append]
        simp
      exact hlines before line after (List.append_inj' hfront rfl).1

/-- Lines that are no description have **a first one that does not fit**. -/
theorem exists_first_misfit {lines : List (List Char)} (h : ¬ IsDescription lines) :
    ∃ before text after, lines = before ++ text :: after ∧ IsDescription before ∧
      ¬ Line.Fits before text := by
  induction lines using List.reverseRecOn with
  | nil => exact absurd isDescription_nil h
  | append_singleton lines text ih =>
    by_cases hlines : IsDescription lines
    · have htext : ¬ Line.Fits lines text :=
        fun hfits => h (isDescription_concat.mpr ⟨hlines, hfits⟩)
      exact ⟨lines, text, [], rfl, hlines, htext⟩
    · obtain ⟨before, misfit, after, rfl, hbefore, hmisfit⟩ := ih hlines
      exact ⟨before, misfit, after ++ [text], by simp, hbefore, hmisfit⟩

/-! ## Blocks below headers -/

namespace Block

open Line (Means IsHeader Assigns Fits)

/-- The block **stands below a header** of some lines, the first of which has the given number: it
has the kind and the number of the header, and each key has the value that it is assigned there. -/
def Below (first : Nat) (lines : List (List Char)) (b : Block) : Prop :=
  ∃ before header below, lines = before ++ header :: below ∧ b.line = first + before.length ∧
    Means header (.header b.kind) ∧
    ∀ key value, b.assignments.get? key = some value ↔ Assigns below key value

/-- **All blocks** of some lines, the first of which has the given number: one block for each
header, in the order of the lines. -/
structure AllOf (first : Nat) (lines : List (List Char)) (blocks : List Block) : Prop where
  below : ∀ b ∈ blocks, b.Below first lines
  complete : ∀ before header below, lines = before ++ header :: below → IsHeader header →
    ∃ b ∈ blocks, b.line = first + before.length
  ordered : blocks.Pairwise (·.line < ·.line)

variable {first : Nat} {lines rest : List (List Char)} {text : List Char}
  {blocks : List Block} {b : Block}

theorem AllOf.nil : AllOf first [] [] where
  below _ h := absurd h List.not_mem_nil
  complete before _ _ h := by simp at h
  ordered := .nil

theorem Below.cons (h : b.Below (first + 1) rest) : b.Below first (text :: rest) := by
  obtain ⟨before, header, below, rfl, hline, hkind, hassigned⟩ := h
  refine ⟨text :: before, header, below, rfl, ?_, hkind, hassigned⟩
  rw [hline, List.length_cons]
  omega

theorem Below.first_le (h : b.Below first lines) : first ≤ b.line := by
  obtain ⟨before, -, -, -, hline, -⟩ := h
  omega

/-- A line that is no header adds no block. -/
theorem AllOf.cons (h : AllOf (first + 1) rest blocks) (htext : ¬ IsHeader text) :
    AllOf first (text :: rest) blocks where
  below b hb := (h.below b hb).cons
  complete before header below hsplit hheader := by
    cases before with
    | nil =>
      obtain ⟨rfl, -⟩ := List.cons.inj hsplit
      exact absurd hheader htext
    | cons line before =>
      obtain ⟨-, rfl⟩ := List.cons.inj hsplit
      obtain ⟨b, hb, hline⟩ := h.complete before header below rfl hheader
      refine ⟨b, hb, ?_⟩
      rw [hline, List.length_cons]
      omega
  ordered := h.ordered

/-- A header adds the block below it. -/
theorem AllOf.cons_header (h : AllOf (first + 1) rest blocks) (hkind : Means text (.header b.kind))
    (hline : b.line = first)
    (hassigned : ∀ key value, b.assignments.get? key = some value ↔ Assigns rest key value) :
    AllOf first (text :: rest) (b :: blocks) where
  below b' hb' := by
    rcases List.mem_cons.mp hb' with rfl | hb'
    · exact ⟨[], text, rest, rfl, hline, hkind, hassigned⟩
    · exact (h.below b' hb').cons
  complete before header below hsplit hheader := by
    cases before with
    | nil => exact ⟨b, List.mem_cons_self, hline⟩
    | cons line before =>
      obtain ⟨-, rfl⟩ := List.cons.inj hsplit
      obtain ⟨b', hb', hline'⟩ := h.complete before header below rfl hheader
      refine ⟨b', List.mem_cons_of_mem _ hb', ?_⟩
      rw [hline', List.length_cons]
      omega
  ordered := List.pairwise_cons.mpr ⟨fun b' hb' => hline ▸ (h.below b' hb').first_le, h.ordered⟩

/-! ## Reading -/

/-- What an open block has become behind some lines: the assignments in front of the next header are
added to those that it had. -/
structure Extends (b : Block) (lines : List (List Char)) (b' : Block) : Prop where
  kind : b'.kind = b.kind
  line : b'.line = b.line
  assignments : ∀ key value, b'.assignments.get? key = some value ↔
    b.assignments.get? key = some value ∨ b.assignments.get? key = none ∧ Assigns lines key value

/-- Where nothing more is assigned, the block stays. -/
theorem Extends.of_not_assigns (h : ∀ key value, ¬ Assigns lines key value) :
    b.Extends lines b where
  kind := rfl
  line := rfl
  assignments key value := by simp [h key value]

theorem Extends.skipped {b' : Block} (h : b.Extends rest b') (htext : Means text .skipped) :
    b.Extends (text :: rest) b' where
  kind := h.kind
  line := h.line
  assignments key value := by rw [h.assignments, Line.assigns_skipped htext]

/-- A block with one assignment more. -/
theorem Extends.assignment {b' : Block} {key value : String}
    (h : Extends { b with assignments := b.assignments.insert key value } rest b')
    (htext : Means text (.assignment key value)) : b.Extends (text :: rest) b' where
  kind := h.kind
  line := h.line
  assignments k v := by
    have hheader : ¬ IsHeader text := fun ⟨_, hkind⟩ => by cases hkind.unique htext
    have hmeans : ∀ v, Means text (.assignment k v) ↔ k = key ∧ v = value := by
      intro v
      constructor
      · intro h
        obtain ⟨rfl, rfl⟩ := Line.assignment.inj (h.unique htext)
        exact ⟨rfl, rfl⟩
      · rintro ⟨rfl, rfl⟩
        exact htext
    rw [h.assignments, Assignments.get?_insert, Line.assigns_cons]
    simp only [hmeans, hheader, not_false_eq_true, true_and]
    by_cases hk : k = key
    · -- the key has its value now, whatever follows
      subst hk
      cases hvalue : b.assignments.get? k <;> simp [eq_comm]
    · simp [hk]

/-- **What reading has found**: an open block is completed by the lines in front of the next header,
and below each header stands a block. -/
theorem readFrom_sound (lines : List (List Char)) :
    ∀ (first : Nat) (current : Option Block) (blocks : List Block),
      readFrom first current lines = .ok blocks →
      ∃ closed rest, blocks = closed ++ rest ∧ AllOf first lines rest ∧
        List.Forall₂ (fun b b' => b.Extends lines b') current.toList closed := by
  induction lines with
  | nil =>
    intro first current blocks h
    obtain rfl := Except.ok.inj h
    refine ⟨current.toList, [], (List.append_nil _).symm, .nil, ?_⟩
    exact List.forall₂_same.mpr fun b _ => .of_not_assigns fun _ _ => Line.not_assigns_nil
  | cons text lines ih =>
    intro first current blocks h
    unfold readFrom at h
    split at h
    · cases h
    · next hread =>
      have htext := Line.means_of_read hread
      obtain ⟨closed, rest, rfl, hrest, hclosed⟩ := ih _ _ _ h
      refine ⟨closed, rest, rfl, hrest.cons fun ⟨_, hkind⟩ => ?_, hclosed.imp fun _ _ h =>
        h.skipped htext⟩
      cases hkind.unique htext
    · next kind hread =>
      have htext := Line.means_of_read hread
      obtain ⟨blocks', hread, rfl⟩ := Outcome.map_eq_ok.mp h
      obtain ⟨closed, rest, rfl, hrest, hclosed⟩ := ih _ _ _ hread
      obtain ⟨b, tail, hb, htail, rfl⟩ := List.forall₂_cons_left_iff.mp hclosed
      obtain rfl := List.forall₂_nil_left_iff.mp htail
      -- the header closes the block that was open, and opens one of its own
      refine ⟨current.toList, b :: rest, rfl, hrest.cons_header ?_ hb.line fun key value => ?_, ?_⟩
      · rw [hb.kind]
        exact htext
      · rw [hb.assignments]
        simp [Assignments.get?_empty]
      · exact List.forall₂_same.mpr fun b _ =>
          .of_not_assigns fun _ _ => Line.not_assigns_header ⟨kind, htext⟩
    · next key value hread =>
      have htext := Line.means_of_read hread
      have hheader : ¬ IsHeader text := fun ⟨_, hkind⟩ => by cases hkind.unique htext
      split at h
      · cases h
      · next b =>
        obtain ⟨closed, rest, rfl, hrest, hclosed⟩ := ih _ _ _ h
        obtain ⟨b', tail, hb, htail, rfl⟩ := List.forall₂_cons_left_iff.mp hclosed
        obtain rfl := List.forall₂_nil_left_iff.mp htail
        exact ⟨[b'], rest, rfl, hrest.cons hheader, .cons (hb.assignment htext) .nil⟩

/-- A block is open just if there was a header. -/
def OpenBehind (current : Option Block) (before : List (List Char)) : Prop :=
  current.isSome = true ↔ ∃ earlier ∈ before, IsHeader earlier

theorem OpenBehind.nil : OpenBehind none [] := by simp [OpenBehind]

/-- **A line that fits** is gone over: what is read of the lines behind it is only added to. -/
theorem readFrom_fits {before : List (List Char)} {current : Option Block}
    (hopen : OpenBehind current before) (htext : Fits before text) (first : Nat) :
    ∃ next add, OpenBehind next (before ++ [text]) ∧
      ∀ rest, readFrom first current (text :: rest) = (readFrom (first + 1) next rest).map add := by
  have hid : ∀ r : Outcome (List Block), r = r.map id := fun r => by cases r <;> rfl
  rcases htext with hskip | ⟨kind, hkind⟩ | ⟨⟨key, value, hassign⟩, hheader⟩
  · refine ⟨current, id, ?_, fun rest => ?_⟩
    · have hplain : ¬ IsHeader text := fun ⟨_, h⟩ => by cases h.unique hskip
      simpa [OpenBehind, hplain, or_and_right, exists_or] using hopen
    · rw [readFrom, Line.read_of_means hskip]
      exact hid _
  · refine ⟨some { kind, line := first }, (current.toList ++ ·), ?_, fun rest => ?_⟩
    · exact iff_of_true rfl ⟨text, by simp, kind, hkind⟩
    · rw [readFrom, Line.read_of_means hkind]
  · obtain ⟨b, rfl⟩ := Option.isSome_iff_exists.mp (hopen.mpr hheader)
    refine ⟨some { b with assignments := b.assignments.insert key value }, id, ?_, fun rest => ?_⟩
    · obtain ⟨earlier, hmem, hheader⟩ := hheader
      exact iff_of_true rfl ⟨earlier, List.mem_append_left _ hmem, hheader⟩
    · rw [readFrom, Line.read_of_means hassign]
      exact hid _

/-- **All lines in front**, by induction over them. -/
theorem readFrom_front {before : List (List Char)} (h : IsDescription before) (first : Nat) :
    ∃ current add, OpenBehind current before ∧
      ∀ rest, readFrom first none (before ++ rest) =
        (readFrom (first + before.length) current rest).map add := by
  induction before using List.reverseRecOn with
  | nil =>
    exact ⟨none, id, .nil, fun rest => by cases h : readFrom first none rest <;>
      simp [h, Except.map]⟩
  | append_singleton before text ih =>
    obtain ⟨hbefore, htext⟩ := isDescription_concat.mp h
    obtain ⟨current, add, hopen, hfront⟩ := ih hbefore
    obtain ⟨next, add', hnext, hstep⟩ := readFrom_fits hopen htext (first + before.length)
    refine ⟨next, add ∘ add', hnext, fun rest => ?_⟩
    rw [List.append_assoc, List.singleton_append, hfront, hstep, List.length_append,
      List.length_singleton, Nat.add_assoc]
    cases readFrom (first + (before.length + 1)) next rest <;> rfl

/-- **A line that does not fit** ends the reading. -/
theorem readFrom_misfit {before : List (List Char)} {current : Option Block}
    (hopen : OpenBehind current before)
    (htext : ¬ Fits before text) (first : Nat) (rest : List (List Char)) :
    ∃ reason, readFrom first current (text :: rest) = .error (malformed first reason) := by
  rw [readFrom]
  cases hread : Line.read text with
  | error reason => exact ⟨reason, rfl⟩
  | ok line =>
    have hmeans := Line.means_of_read hread
    cases line with
    | skipped => exact absurd (.inl hmeans) htext
    | header kind => exact absurd (.inr (.inl ⟨kind, hmeans⟩)) htext
    | assignment key value =>
      cases current with
      | none => exact ⟨_, rfl⟩
      | some b => exact absurd (.inr (.inr ⟨⟨key, value, hmeans⟩, hopen.mp rfl⟩)) htext

/-- **A first line that does not fit** is what is reported, by its number, whatever follows it. -/
theorem readAll_misfit {content : String} {before after : List (List Char)}
    (hsplit : linesOf content = before ++ text :: after) (hbefore : IsDescription before)
    (htext : ¬ Fits before text) :
    ∃ reason, readAll content = .error (.ofDefect (.malformedLine (before.length + 1) reason)) := by
  obtain ⟨current, add, hopen, hfront⟩ := readFrom_front hbefore 1
  obtain ⟨reason, hreason⟩ := readFrom_misfit hopen htext (1 + before.length) after
  refine ⟨reason, ?_⟩
  rw [readAll, hsplit, hfront, hreason, Nat.add_comm]
  rfl

/-- **Reading by the grammar**: what becomes of a text. -/
structure Reads (content : String) (r : Outcome (List Block)) : Prop where
  /-- it is read just if its lines are a description -/
  accepts : (∃ blocks, r = .ok blocks) ↔ IsDescription (linesOf content)
  /-- then there is one block for each header, lines being counted from 1 -/
  blocks : ∀ blocks, r = .ok blocks → AllOf 1 (linesOf content) blocks
  /-- otherwise the first line that does not fit is reported by its number -/
  rejects : ¬ IsDescription (linesOf content) → ∃ before misfit after reason,
    linesOf content = before ++ misfit :: after ∧ IsDescription before ∧ ¬ Fits before misfit ∧
      r = .error (.ofDefect (.malformedLine (before.length + 1) reason))

/-- **A description is read by its grammar.** -/
theorem readAll_reads (content : String) : Reads content (readAll content) := by
  have hrejects : ¬ IsDescription (linesOf content) → ∃ before misfit after reason,
      linesOf content = before ++ misfit :: after ∧ IsDescription before ∧ ¬ Fits before misfit ∧
        readAll content = .error (.ofDefect (.malformedLine (before.length + 1) reason)) := by
    intro hmisfit
    obtain ⟨before, misfit, after, hsplit, hbefore, hmisfit⟩ := exists_first_misfit hmisfit
    obtain ⟨reason, hreason⟩ := readAll_misfit hsplit hbefore hmisfit
    exact ⟨before, misfit, after, reason, hsplit, hbefore, hmisfit, hreason⟩
  refine ⟨⟨?_, fun hdescription => ?_⟩, fun blocks hblocks => ?_, hrejects⟩
  · rintro ⟨blocks, hblocks⟩
    by_contra hmisfit
    obtain ⟨before, misfit, after, reason, -, -, -, hreason⟩ := hrejects hmisfit
    rw [hblocks] at hreason
    cases hreason
  · obtain ⟨current, add, -, hfront⟩ := readFrom_front hdescription 1
    have hall := hfront []
    rw [List.append_nil] at hall
    exact ⟨_, hall⟩
  · obtain ⟨closed, rest, rfl, hrest, hclosed⟩ := readFrom_sound _ _ _ _ hblocks
    obtain rfl := List.forall₂_nil_left_iff.mp hclosed
    exact hrest

end Block

end GridNet
