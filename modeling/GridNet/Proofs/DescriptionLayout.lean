import GridNet.Model.Basic
import GridNet.Proofs.DescriptionContents
import Mathlib.Logic.Relation

/-!
# The layout of a description

The same description can be laid out in many ways. Lines that are passed over come and go,
assignments of different keys change places, a key is assigned once more, spaces are added where
they are trimmed away, and carriage returns are put in front of all newlines. None of this changes
what the lines say, so that the blueprint stays the same, and with it the model of any weights.

* `Line.Edit` — one change of the layout.
* `Line.Edit.contentsOf_eq` — it leaves what is said as it is.
* `Text.Relaid`, `Text.withReturns` — texts that differ by such changes.
* `Block.contentsOf_linesOf` — a text says what the lines say that it joins.
* `Blueprint.ofBlocks_relaid` — they have the same blueprint and the same models.
-/

namespace GridNet

open Line (Means IsHeader)

/-! ## Changes of the lines -/

namespace Text

/-- The characters stand **on one line**. -/
structure OnLine (line : List Char) : Prop where
  newline : '\n' ∉ line
  carriage : '\r' ∉ line

/-- So many spaces. -/
def spaces (count : Nat) : List Char := List.replicate count ' '

theorem blank_spaces (count : Nat) : Blank (spaces count) := by
  intro c hc
  rw [List.eq_of_mem_replicate hc]
  rfl

theorem not_mem_spaces {c : Char} (hc : c ≠ ' ') (count : Nat) : c ∉ spaces count :=
  fun h => hc (List.eq_of_mem_replicate h)

end Text

open Text (OnLine spaces)

/-- One **change of the layout** of some lines. -/
inductive Line.Edit : List (List Char) → List (List Char) → Prop
  /-- a line that is passed over is put in -/
  | insert (before after : List (List Char)) {line : List Char} (hline : Means line .skipped)
      (hplain : OnLine line) :
      Edit (before ++ after) (before ++ line :: after)
  /-- a line that is passed over is taken out -/
  | delete (before after : List (List Char)) {line : List Char} (hline : Means line .skipped) :
      Edit (before ++ line :: after) (before ++ after)
  /-- two keys are assigned in the other order, only lines that are passed over being
  between them -/
  | swap (before between after : List (List Char)) {first second : List Char}
      {key key' value value' : String}
      (hfirst : Means first (.assignment key value))
      (hsecond : Means second (.assignment key' value'))
      (hkeys : key ≠ key') (hbetween : ∀ line ∈ between, Means line .skipped) :
      Edit (before ++ first :: (between ++ second :: after))
        (before ++ second :: (between ++ first :: after))
  /-- a key is assigned once more in the same block -/
  | reassign (before between after : List (List Char)) {line again : List Char}
      {key value value' : String}
      (hline : Means line (.assignment key value)) (hagain : Means again (.assignment key value'))
      (hbetween : ∀ line ∈ between, ¬ IsHeader line) (hplain : OnLine again) :
      Edit (before ++ line :: (between ++ after)) (before ++ line :: (between ++ again :: after))
  /-- spaces are put around the equals sign of an assignment -/
  | equals (before after : List (List Char)) {front back : List Char} {key value : String}
      (left right : Nat)
      (hline : Means (front ++ '=' :: back) (.assignment key value)) (hfirst : '=' ∉ front) :
      Edit (before ++ (front ++ '=' :: back) :: after)
        (before ++ (front ++ spaces left ++ '=' :: (spaces right ++ back)) :: after)
  /-- spaces are put around the text between the brackets of a header -/
  | brackets (before after : List (List Char)) {inner rest : List Char} {kind : String}
      (left right : Nat)
      (hline : Means ('[' :: (inner ++ ']' :: rest)) (.header kind)) (hfirst : ']' ∉ inner) :
      Edit (before ++ ('[' :: (inner ++ ']' :: rest)) :: after)
        (before ++ ('[' :: (spaces left ++ inner ++ spaces right ++ ']' :: rest)) :: after)

namespace Line

variable {lines edited : List (List Char)}

/-- A line with spaces around its equals sign means the same. -/
theorem means_spaced_equals {front back : List Char} {key value : String} (left right : Nat)
    (h : Means (front ++ '=' :: back) (.assignment key value)) (hfirst : '=' ∉ front) :
    Means (front ++ spaces left ++ '=' :: (spaces right ++ back)) (.assignment key value) := by
  generalize htext : front ++ '=' :: back = text at h
  cases h with
  | @assignment front' back' hopens htext' hfirst' hkey =>
    -- the line is cut at its first equals sign in one way only
    have hcut := (splitAtFirst_append hfirst back).symm.trans
      ((congrArg (splitAtFirst '=') (htext.trans htext')).trans (splitAtFirst_append hfirst' back'))
    obtain ⟨rfl, rfl⟩ := Prod.mk.inj (Option.some.inj hcut)
    have hne : front ≠ [] := fun hnil => hkey fun c hc => absurd (hnil ▸ hc) List.not_mem_nil
    have hopens' : ¬ OpensWith ('[' :: skipMarks)
        (front ++ spaces left ++ '=' :: (spaces right ++ back)) := by
      rintro ⟨c, hc, hhead⟩
      rw [List.append_assoc, List.head?_append_of_ne_nil _ hne] at hhead
      exact hopens ⟨c, hc, by rw [htext', List.head?_append_of_ne_nil _ hne, hhead]⟩
    have hequals : '=' ∉ front ++ spaces left := fun hmem =>
      (List.mem_append.mp hmem).elim hfirst (Text.not_mem_spaces (by decide) left)
    have hblank : ¬ Text.Blank (front ++ spaces left) := fun hblank =>
      hkey fun c hc => hblank c (List.mem_append_left _ hc)
    have hmeans := Means.assignment hopens' rfl hequals hblank
    rwa [Text.trimChars_append_blank (Text.blank_spaces left),
      Text.trimChars_blank_append (Text.blank_spaces right)] at hmeans

/-- A header with spaces around its text means the same. -/
theorem means_spaced_brackets {inner rest : List Char} {kind : String} (left right : Nat)
    (h : Means ('[' :: (inner ++ ']' :: rest)) (.header kind)) (hfirst : ']' ∉ inner) :
    Means ('[' :: (spaces left ++ inner ++ spaces right ++ ']' :: rest)) (.header kind) := by
  generalize htext : '[' :: (inner ++ ']' :: rest) = text at h
  cases h with
  | @header inner' rest' htext' hfirst' hkind =>
    have hcut := (splitAtFirst_append hfirst rest).symm.trans
      ((congrArg (splitAtFirst ']') (List.cons.inj (htext.trans htext')).2).trans
        (splitAtFirst_append hfirst' rest'))
    obtain ⟨rfl, rfl⟩ := Prod.mk.inj (Option.some.inj hcut)
    have hbracket : ']' ∉ spaces left ++ inner ++ spaces right := by
      simp [hfirst, Text.not_mem_spaces]
    have hblank : ¬ Text.Blank (spaces left ++ inner ++ spaces right) := fun hblank =>
      hkind fun c hc => hblank c (List.mem_append_left _ (List.mem_append_right _ hc))
    have hmeans : Means ('[' :: (spaces left ++ inner ++ spaces right ++ ']' :: rest)) _ :=
      .header rfl hbracket hblank
    rwa [Text.trimChars_append_blank (Text.blank_spaces right),
      Text.trimChars_blank_append (Text.blank_spaces left)] at hmeans

end Line

/-! ## What is said stays -/

namespace Block

variable {b : Block} {key key' value value' : String} {first second line again : List Char}
  {between : List (List Char)}

/-- Two keys may be assigned in either order. -/
theorem contentsOf_swap (hfirst : Means first (.assignment key value))
    (hsecond : Means second (.assignment key' value'))
    (hkeys : key ≠ key') (hbetween : ∀ line ∈ between, Means line .skipped) (current : Option Block)
    (after : List (List Char)) :
    contentsOf current (second :: (between ++ first :: after)) =
      contentsOf current (first :: (between ++ second :: after)) := by
  cases current with
  | none => rw [contentsOf_unopened hsecond, contentsOf_unopened hfirst]
  | some b =>
    rw [contentsOf_assignment hsecond, contentsOf_skippedAll hbetween, contentsOf_assignment hfirst,
      contentsOf_assignment hfirst, contentsOf_skippedAll hbetween, contentsOf_assignment hsecond]
    dsimp only
    rw [Assignments.insert_comm hkeys]

/-- **A key that is assigned** keeps its value up to the next header, by induction over the lines in
front of the new assignment. -/
theorem contentsOf_assigned (hagain : Means again (.assignment key value'))
    (hbetween : ∀ line ∈ between, ¬ IsHeader line) (after : List (List Char)) :
    ∀ b : Block, (b.assignments.get? key).isSome = true →
      contentsOf (some b) (between ++ again :: after) = contentsOf (some b) (between ++ after) := by
  induction between with
  | nil =>
    intro b hb
    rw [List.nil_append, contentsOf_assignment hagain, Assignments.insert_of_assigned hb]
    rfl
  | cons text between ih =>
    intro b hb
    have hrest := ih fun line hline => hbetween line (List.mem_cons_of_mem _ hline)
    rw [List.cons_append, List.cons_append]
    cases hread : Line.read text with
    | error reason => rw [contentsOf_malformed hread, contentsOf_malformed hread]
    | ok line =>
      have hmeans := Line.means_of_read hread
      cases line with
      | skipped => rw [contentsOf_skipped hmeans, contentsOf_skipped hmeans, hrest b hb]
      | header kind => exact absurd ⟨kind, hmeans⟩ (hbetween text List.mem_cons_self)
      | assignment k v =>
        rw [contentsOf_assignment hmeans, contentsOf_assignment hmeans]
        exact hrest _ (Assignments.isSome_get?_insert hb k v)

/-- A second assignment of a key adds nothing. -/
theorem contentsOf_reassign (hline : Means line (.assignment key value))
    (hagain : Means again (.assignment key value'))
    (hbetween : ∀ line ∈ between, ¬ IsHeader line) (current : Option Block)
    (after : List (List Char)) :
    contentsOf current (line :: (between ++ again :: after)) = contentsOf current
      (line :: (between ++ after)) := by
  cases current with
  | none => rw [contentsOf_unopened hline, contentsOf_unopened hline]
  | some b =>
    rw [contentsOf_assignment hline, contentsOf_assignment hline]
    refine contentsOf_assigned hagain hbetween after _ ?_
    rw [Assignments.get?_insert, if_pos rfl]
    rfl

end Block

namespace Line.Edit

open Block (contentsOf)

variable {lines edited : List (List Char)}

/-- **One change of the layout** leaves what is said as it is. -/
theorem contentsOf_eq (h : Edit lines edited) (current : Option Block) :
    contentsOf current edited = contentsOf current lines := by
  cases h with
  | insert before after hline _ =>
    exact Block.contentsOf_front (fun current => Block.contentsOf_skipped hline current after)
      before current
  | delete before after hline =>
    exact Block.contentsOf_front
      (fun current => (Block.contentsOf_skipped hline current after).symm) before current
  | swap before between after hfirst hsecond hkeys hbetween =>
    exact Block.contentsOf_front
      (fun current => Block.contentsOf_swap hfirst hsecond hkeys hbetween current after)
        before current
  | reassign before between after hline hagain hbetween _ =>
    exact Block.contentsOf_front
      (fun current => Block.contentsOf_reassign hline hagain hbetween current after) before current
  | equals before after left right hline hfirst =>
    have hspaced := means_spaced_equals left right hline hfirst
    exact Block.contentsOf_front (fun current => Block.contentsOf_means hspaced hline current after)
      before current
  | brackets before after left right hline hfirst =>
    have hspaced := means_spaced_brackets left right hline hfirst
    exact Block.contentsOf_front (fun current => Block.contentsOf_means hspaced hline current after)
      before current

/-- What stood on lines stands on lines. -/
theorem onLine (h : Edit lines edited) (hlines : ∀ line ∈ lines, OnLine line) :
    ∀ line ∈ edited, OnLine line := by
  have hspaces : ∀ count, OnLine (spaces count) := fun count =>
    ⟨Text.not_mem_spaces (by decide) count, Text.not_mem_spaces (by decide) count⟩
  cases h with
  | insert before after _ hplain =>
    simp only [List.forall_mem_append, List.forall_mem_cons] at hlines ⊢
    exact ⟨hlines.1, hplain, hlines.2⟩
  | delete before after _ =>
    simp only [List.forall_mem_append, List.forall_mem_cons] at hlines ⊢
    exact ⟨hlines.1, hlines.2.2⟩
  | swap before between after _ _ _ _ =>
    simp only [List.forall_mem_append, List.forall_mem_cons] at hlines ⊢
    obtain ⟨hbefore, hfirst, hbetween, hsecond, hafter⟩ := hlines
    exact ⟨hbefore, hsecond, hbetween, hfirst, hafter⟩
  | reassign before between after _ _ _ hplain =>
    simp only [List.forall_mem_append, List.forall_mem_cons] at hlines ⊢
    obtain ⟨hbefore, hline, hbetween, hafter⟩ := hlines
    exact ⟨hbefore, hline, hbetween, hplain, hafter⟩
  | equals before after left right _ _ =>
    simp only [List.forall_mem_append, List.forall_mem_cons] at hlines ⊢
    obtain ⟨hbefore, ⟨hnewline, hcarriage⟩, hafter⟩ := hlines
    refine ⟨hbefore, ⟨?_, ?_⟩, hafter⟩
    · simpa [(hspaces left).newline, (hspaces right).newline] using hnewline
    · simpa [(hspaces left).carriage, (hspaces right).carriage] using hcarriage
  | brackets before after left right _ _ =>
    simp only [List.forall_mem_append, List.forall_mem_cons] at hlines ⊢
    obtain ⟨hbefore, ⟨hnewline, hcarriage⟩, hafter⟩ := hlines
    refine ⟨hbefore, ⟨?_, ?_⟩, hafter⟩
    · simpa [(hspaces left).newline, (hspaces right).newline] using hnewline
    · simpa [(hspaces left).carriage, (hspaces right).carriage] using hcarriage

/-- **Any number of changes**, one after the other. -/
theorem run (h : Relation.ReflTransGen Edit lines edited) (hlines : ∀ line ∈ lines, OnLine line) :
    (∀ line ∈ edited, OnLine line) ∧ ∀ current,
    contentsOf current edited = contentsOf current lines := by
  induction h with
  | refl => exact ⟨hlines, fun _ => rfl⟩
  | tail _ hedit ih =>
    obtain ⟨honLine, hsame⟩ := ih
    exact ⟨hedit.onLine honLine, fun current => (hedit.contentsOf_eq current).trans (hsame current)⟩

end Line.Edit

/-! ## Texts -/

namespace Text

/-- The text **joins** the lines, with the same ending between each two. -/
def Joins (ending : List Char) (lines : List (List Char)) (text : String) : Prop :=
  text.toList = ending.intercalate lines

/-- A text **relaid**: its lines have been changed in their layout, any number of times. -/
def Relaid (text edited : String) : Prop :=
  ∃ lines changed, Joins ['\n'] lines text ∧ Joins ['\n'] changed edited ∧
    (∀ line ∈ lines, '\n' ∉ line) ∧
    Relation.ReflTransGen Line.Edit lines changed

/-- A text with a carriage return in front of each newline. -/
def withReturns (text : String) : String :=
  String.ofList (text.toList.flatMap fun c => if c = '\n' then ['\r', '\n'] else [c])

theorem flatMap_returns_of_not_mem {cs : List Char} (h : '\n' ∉ cs) :
    (cs.flatMap fun c => if c = '\n' then ['\r', '\n'] else [c]) = cs := by
  induction cs with
  | nil => rfl
  | cons c cs ih =>
    have hc : c ≠ '\n' := fun hnewline => h (hnewline ▸ List.mem_cons_self)
    rw [List.flatMap_cons, if_neg hc, ih fun hmem => h (List.mem_cons_of_mem _ hmem),
      List.singleton_append]

/-- The newlines of a text are those between its lines. -/
theorem Joins.withReturns {lines : List (List Char)} {text : String} (h : Joins ['\n'] lines text)
    (hlines : ∀ line ∈ lines, '\n' ∉ line) : Joins ['\r', '\n'] lines (withReturns text) := by
  rw [Joins, Text.withReturns, String.toList_ofList, h]
  clear h
  induction lines with
  | nil => rfl
  | cons line rest ih =>
    have hline := flatMap_returns_of_not_mem (hlines line List.mem_cons_self)
    cases rest with
    | nil => rw [List.intercalate_singleton, List.intercalate_singleton, hline]
    | cons next rest =>
      rw [List.intercalate_cons_cons, List.intercalate_cons_cons, List.flatMap_append,
        List.flatMap_append, hline, ih fun l hl => hlines l (List.mem_cons_of_mem _ hl)]
      rfl

/-- Lines of a text without carriage returns have none. -/
theorem Joins.onLine {lines : List (List Char)} {text : String} (h : Joins ['\n'] lines text)
    (hreturn : '\r' ∉ text.toList) (hlines : ∀ line ∈ lines, '\n' ∉ line) :
    ∀ line ∈ lines, OnLine line := by
  intro line hline
  refine ⟨hlines line hline, fun hmem => hreturn ?_⟩
  rw [h]
  exact (Text.infix_intercalate hline).subset hmem

end Text

open Text (Joins Relaid)

/-- **A text says** what the lines say that it joins. -/
theorem Block.contentsOf_linesOf {ending : List Char} {lines : List (List Char)} {text : String}
    (hending : ending ∈ Text.endings) (h : Joins ending lines text)
    (hlines : ∀ line ∈ lines, OnLine line) :
    contentsOf none (linesOf text) = contentsOf none lines := by
  have hcut := Text.lines_joined hending fun line hline =>
    ⟨(hlines line hline).newline, (hlines line hline).carriage⟩
  have hkept : ∀ line ∈ Text.lines (ending.intercalate lines), Text.dropReturn line = line := by
    intro line hline
    have hmem : line ∈ lines := by
      rcases hcut with hall | hlast
      · exact hall ▸ hline
      · rw [hlast]
        exact List.mem_append_left _ hline
    exact Text.dropReturn_of_last fun hlast => (hlines line hmem).carriage
      (List.mem_of_getLast? hlast)
  rw [linesOf, h, List.map_congr_left hkept, List.map_id']
  rcases hcut with hall | hlast
  · rw [hall]
  · -- what stands behind the last ending is empty, and would be passed over
    conv_rhs => rw [hlast]
    have hempty : ∀ current, contentsOf current [[]] = contentsOf current [] := fun current =>
      contentsOf_skipped (.skipped (.inl rfl)) current []
    have hfront := contentsOf_front hempty (Text.lines (ending.intercalate lines)) none
    rw [hfront, List.append_nil]

/-! ## The same blueprint -/

/-- A text **relaid** says the same, also with a carriage return in front of each newline. -/
theorem Block.contentsOf_relaid {text edited written : String} (hreturn : '\r' ∉ text.toList)
    (hedits : Relaid text edited)
    (hwritten : written = edited ∨ written = Text.withReturns edited) :
    contentsOf none (linesOf written) = contentsOf none (linesOf text) := by
  obtain ⟨lines, changed, htext, hedited, hlines, hrun⟩ := hedits
  have honLine := htext.onLine hreturn hlines
  obtain ⟨hchanged, hsame⟩ := Line.Edit.run hrun honLine
  rw [contentsOf_linesOf (by decide) htext honLine, ← hsame none]
  rcases hwritten with rfl | rfl
  · exact contentsOf_linesOf (by decide) hedited hchanged
  · have hreturned := hedited.withReturns fun line hline => (hchanged line hline).newline
    exact contentsOf_linesOf (by decide) hreturned hchanged

/-- The model of a description in a text, and of some weights. -/
def Model.ofText (text name : String) (weights : WeightBuffer) : Outcome Model := do
  let blocks ← Block.readAll text
  let blueprint ← Blueprint.ofBlocks blocks name
  compile blueprint weights

namespace Blueprint

variable {text edited written name : String} {blocks : List Block} {b : Blueprint}

/-- **The layout does not matter.** A description that is accepted is accepted in any other layout,
and has the same blueprint and the same model of any weights there. -/
theorem ofBlocks_relaid (hreturn : '\r' ∉ text.toList) (hread : Block.readAll text = .ok blocks)
    (hb : ofBlocks blocks name = .ok b) (hedits : Relaid text edited)
    (hwritten : written = edited ∨ written = Text.withReturns edited) :
    (∃ blocks', Block.readAll written = .ok blocks' ∧ ofBlocks blocks' name = .ok b) ∧
      ∀ weights, Model.ofText written name weights = Model.ofText text name weights := by
  have hsaid : Block.contentsOf none (Block.linesOf written) = some (blocks.map Block.contents) :=
    (Block.contentsOf_relaid hreturn hedits hwritten).trans
      (Block.readAll_contents.mpr ⟨blocks, hread, rfl⟩)
  obtain ⟨blocks', hread', hsame⟩ := Block.readAll_contents.mp hsaid
  have hb' := ofBlocks_contents hsame.symm hb
  refine ⟨⟨blocks', hread', hb'⟩, fun weights => ?_⟩
  simp only [Model.ofText, hread, hread', Outcome.ok_bind, hb, hb']

/-- A small description. -/
def smallText : String := "[net]\nwidth=2\nheight=1\nchannels=3\n# none\n[dropout]\n"

/-- Its blocks. -/
def smallBlocks : List Block :=
  [{ kind := "net", line := 1,
     assignments :=
      ((Assignments.empty.insert "width" "2").insert "height" "1").insert "channels" "3" },
   { kind := "dropout", line := 6 }]

/-- The same one, after a change of each sort. -/
def smallTextRelaid : String :=
  "; net\n[ net ]\nheight = 1\n\nwidth=2\nheight=7\nchannels=3\n[dropout]\n"

/-- Its blueprint. -/
def smallBlueprint : Blueprint where
  name := "small"
  input := { width := 2, height := 1, channels := 3 }
  layers := [⟨0, .dropout⟩]
  heads := []
  classes := 0
  activatedHeads := false

theorem relaid_smallText : Relaid smallText smallTextRelaid := by
  have hblank : Means [] .skipped := .skipped (.inl rfl)
  have hnet : Means ('[' :: ("net".toList ++ [']'])) (.header "net") :=
    Line.means_of_read (by decide)
  have hwidth : Means "width=2".toList (.assignment "width" "2") := Line.means_of_read (by decide)
  have hheight : Means ("height".toList ++ '=' :: "1".toList) (.assignment "height" "1") :=
    Line.means_of_read (by decide)
  have hspaced : Means "height = 1".toList (.assignment "height" "1") :=
    Line.means_of_read (by decide)
  have hagain : Means "height=7".toList (.assignment "height" "7") := Line.means_of_read (by decide)
  have hbetween : ∀ line ∈ [[], "width=2".toList], ¬ IsHeader line := by
    rintro line hline ⟨kind, hkind⟩
    rcases List.mem_pair.mp hline with rfl | rfl
    · cases hkind.unique hblank
    · cases hkind.unique hwidth
  -- a comment goes at the end, another one comes at the beginning
  let rest := ["[dropout]".toList, []]
  let tail := "channels=3".toList :: "# none".toList :: rest
  have hcomment : Line.Edit ("[net]".toList :: "width=2".toList :: "height=1".toList :: tail)
      ("; net".toList :: "[net]".toList :: "width=2".toList :: "height=1".toList :: tail) :=
    .insert [] _ (Line.means_of_read (by decide)) ⟨by decide, by decide⟩
  have hbrackets : Line.Edit
      ("; net".toList :: "[net]".toList :: "width=2".toList :: "height=1".toList :: tail)
      ("; net".toList :: "[ net ]".toList :: "width=2".toList :: "height=1".toList :: tail) :=
    .brackets ["; net".toList] _ 1 1 hnet (by decide)
  have hspread : Line.Edit
      ("; net".toList :: "[ net ]".toList :: "width=2".toList :: "height=1".toList :: tail)
      ("; net".toList :: "[ net ]".toList :: "width=2".toList :: [] :: "height=1".toList :: tail) :=
    .insert ["; net".toList, "[ net ]".toList, "width=2".toList] _ hblank ⟨by decide, by decide⟩
  have hswap : Line.Edit
      ("; net".toList :: "[ net ]".toList :: "width=2".toList :: [] :: "height=1".toList :: tail)
      ("; net".toList :: "[ net ]".toList :: "height=1".toList :: [] :: "width=2".toList :: tail) :=
    .swap ["; net".toList, "[ net ]".toList] [[]] _ hwidth hheight (by decide)
      (by simpa using hblank)
  have hequals : Line.Edit
      ("; net".toList :: "[ net ]".toList :: "height=1".toList :: [] :: "width=2".toList :: tail)
      ("; net".toList :: "[ net ]".toList :: "height = 1".toList :: [] ::
        "width=2".toList :: tail) :=
    .equals ["; net".toList, "[ net ]".toList] _ 1 1 hheight (by decide)
  have hreassign : Line.Edit
      ("; net".toList :: "[ net ]".toList :: "height = 1".toList :: [] :: "width=2".toList :: tail)
      ("; net".toList :: "[ net ]".toList :: "height = 1".toList :: [] :: "width=2".toList ::
        "height=7".toList :: tail) :=
    .reassign ["; net".toList, "[ net ]".toList] [[], "width=2".toList] _ hspaced hagain hbetween
      ⟨by decide, by decide⟩
  have hdelete : Line.Edit
      ("; net".toList :: "[ net ]".toList :: "height = 1".toList :: [] :: "width=2".toList ::
        "height=7".toList :: tail)
      ("; net".toList :: "[ net ]".toList :: "height = 1".toList :: [] :: "width=2".toList ::
        "height=7".toList :: "channels=3".toList :: rest) :=
    .delete ["; net".toList, "[ net ]".toList, "height = 1".toList, [], "width=2".toList,
      "height=7".toList, "channels=3".toList] rest (Line.means_of_read (by decide))
  refine ⟨_, _, ?_, ?_, ?_, .head hcomment <| .head hbrackets <| .head hspread <| .head hswap <|
    .head hequals <| .head hreassign <| .single hdelete⟩
  · rfl
  · rfl
  · decide

/-- The small description keeps its blueprint after these changes, and with other endings
of its lines. -/
theorem ofBlocks_relaid_smallText :
    (∃ blocks, Block.readAll (Text.withReturns smallTextRelaid) = .ok blocks ∧
        ofBlocks blocks "small" = .ok smallBlueprint) ∧
      ∀ weights, Model.ofText (Text.withReturns smallTextRelaid) "small" weights =
        Model.ofText smallText "small" weights := by
  have hread : Block.readAll smallText = .ok smallBlocks := by rfl
  have hsmall : ofBlocks smallBlocks "small" = .ok smallBlueprint :=
    Outcome.toOption_eq_some.mp (by decide +kernel)
  exact ofBlocks_relaid (by decide) hread hsmall relaid_smallText (.inr rfl)

end Blueprint

end GridNet
