import GridNet.Proofs.CheckedBlueprint
import GridNet.Proofs.DescriptionGrammar

/-!
# What a description says

The blocks of a description carry the numbers of their lines, for the sake of what is reported about
them. What the blocks say is their kinds and assignments. It can be read without counting lines, and
a blueprint depends on nothing else.

* `Block.contentsOf` — what some lines say, with a block open in front of them.
* `Block.contentsOf_skipped`, `contentsOf_header`, `contentsOf_assignment` — what one more
  line adds.
* `Block.contentsOf_front` — lines in front make no difference between those behind them.
* `Block.readAll_contents` — reading finds just what the lines say.
* `Blueprint.ofBlocks_contents` — blocks that say the same have the same blueprint.
-/

namespace GridNet

/-! ## Reading without numbers -/

namespace Block

open Line (Means)

/-- What a block **says**. -/
def contents (b : Block) : String × Assignments := (b.kind, b.assignments)

/-- Blocks that say the same differ in their numbers at most. -/
theorem renumbered_of_contents {b b' : Block} (h : b'.contents = b.contents) :
    ∃ line, b' = { b with line } := by
  obtain ⟨kind, line, assignments⟩ := b
  obtain ⟨kind', line', assignments'⟩ := b'
  obtain ⟨rfl, rfl⟩ := Prod.mk.inj h
  exact ⟨line', rfl⟩

/-- Numbers of lines leave no trace in what is read. -/
theorem readFrom_renumbered (lines : List (List Char)) {first first' : Nat}
    {current current' : Option Block} (hopen : current.map contents = current'.map contents) :
    (readFrom first current lines).toOption.map (·.map contents) =
      (readFrom first' current' lines).toOption.map (·.map contents) := by
  have hclosed : current.toList.map contents = current'.toList.map contents := by
    simpa [Option.toList_map] using congrArg Option.toList hopen
  induction lines generalizing first first' current current' with
  | nil => simpa [readFrom, Except.toOption] using hclosed
  | cons text lines ih =>
    unfold readFrom
    cases Line.read text with
    | error reason => rfl
    | ok line =>
      cases line with
      | skipped => exact ih hopen hclosed
      | header kind =>
        have hrest := @ih (first + 1) (first' + 1) (some { kind, line := first })
          (some { kind, line := first' })
          rfl rfl
        dsimp only
        cases hread : readFrom (first + 1) (some { kind, line := first }) lines <;>
          cases hread' : readFrom (first' + 1) (some { kind, line := first' }) lines <;>
            simp_all [Except.map, Except.toOption]
      | assignment key value =>
        cases current with
        | none =>
          obtain rfl : current' = none := by simpa using hopen.symm
          rfl
        | some b =>
          obtain ⟨b', rfl, hsame⟩ := Option.map_eq_some_iff.mp hopen.symm
          have hadded : ({ b with assignments := b.assignments.insert key value } :
              Block).contents =
              ({ b' with assignments := b'.assignments.insert key value } : Block).contents := by
            obtain ⟨hkind, hassigned⟩ := Prod.mk.inj hsame
            simp only [contents, hkind, hassigned]
          exact ih (congrArg some hadded) (congrArg (fun c => [c]) hadded)

/-- **What some lines say**, behind a block that is still open. -/
def contentsOf (current : Option Block) (lines : List (List Char)) :
    Option (List (String × Assignments)) :=
  (readFrom 0 current lines).toOption.map (·.map contents)

variable {text text' : List Char} {lines lines' : List (List Char)}

theorem contents_readFrom (first : Nat) (current : Option Block) (lines : List (List Char)) :
    (readFrom first current lines).toOption.map (·.map contents) = contentsOf current lines :=
  readFrom_renumbered lines rfl

theorem contentsOf_skipped (h : Means text .skipped) (current : Option Block)
    (rest : List (List Char)) :
    contentsOf current (text :: rest) = contentsOf current rest := by
  rw [contentsOf, readFrom, Line.read_of_means h]
  exact contents_readFrom _ _ _

theorem contentsOf_header {kind : String} (h : Means text (.header kind)) (current : Option Block)
    (rest : List (List Char)) :
    contentsOf current (text :: rest) =
      (contentsOf (some { kind, line := 0 }) rest).map (current.toList.map contents ++ ·) := by
  rw [contentsOf, readFrom, Line.read_of_means h, ← contents_readFrom (0 + 1)]
  dsimp only
  cases readFrom (0 + 1) (some { kind, line := 0 }) rest <;> simp [Except.map, Except.toOption]

theorem contentsOf_assignment {key value : String}
    (h : Means text (.assignment key value)) (b : Block) (rest : List (List Char)) :
    contentsOf (some b) (text :: rest) =
      contentsOf (some { b with assignments := b.assignments.insert key value }) rest := by
  rw [contentsOf, readFrom, Line.read_of_means h]
  exact contents_readFrom _ _ _

/-- An assignment needs a block. -/
theorem contentsOf_unopened {key value : String} (h : Means text (.assignment key value))
    (rest : List (List Char)) :
    contentsOf none (text :: rest) = none := by
  rw [contentsOf, readFrom, Line.read_of_means h]
  rfl

/-- A line that means nothing is not read. -/
theorem contentsOf_malformed {reason : String} (h : Line.read text = .error reason)
    (current : Option Block)
    (rest : List (List Char)) : contentsOf current (text :: rest) = none := by
  rw [contentsOf, readFrom, h]
  rfl

/-- **One line in front** makes no difference between those behind it. -/
theorem contentsOf_cons (h : ∀ current, contentsOf current lines = contentsOf current lines')
    (current : Option Block) (text : List Char) :
    contentsOf current (text :: lines) = contentsOf current (text :: lines') := by
  cases hread : Line.read text with
  | error reason => rw [contentsOf_malformed hread, contentsOf_malformed hread]
  | ok line =>
    have hmeans := Line.means_of_read hread
    cases line with
    | skipped => rw [contentsOf_skipped hmeans, contentsOf_skipped hmeans, h]
    | header kind => rw [contentsOf_header hmeans, contentsOf_header hmeans, h]
    | assignment key value =>
      cases current with
      | none => rw [contentsOf_unopened hmeans, contentsOf_unopened hmeans]
      | some b => rw [contentsOf_assignment hmeans, contentsOf_assignment hmeans, h]

/-- **Lines in front** make no difference between those behind them, by induction over them. -/
theorem contentsOf_front (h : ∀ current, contentsOf current lines = contentsOf current lines')
    (before : List (List Char)) (current : Option Block) :
    contentsOf current (before ++ lines) = contentsOf current (before ++ lines') := by
  induction before generalizing current with
  | nil => exact h current
  | cons text before ih => exact contentsOf_cons ih current text

/-- Lines that are passed over may as well not stand there. -/
theorem contentsOf_skippedAll {between : List (List Char)}
    (h : ∀ text ∈ between, Means text .skipped) (current : Option Block) (rest : List (List Char)) :
    contentsOf current (between ++ rest) = contentsOf current rest := by
  induction between with
  | nil => rfl
  | cons text between ih =>
    rw [List.cons_append, contentsOf_skipped (h text List.mem_cons_self)]
    exact ih fun text hmem => h text (List.mem_cons_of_mem _ hmem)

/-- A line stands for any other that means the same. -/
theorem contentsOf_means {line : Line} (h : Means text line) (h' : Means text' line)
    (current : Option Block)
    (rest : List (List Char)) :
    contentsOf current (text :: rest) = contentsOf current (text' :: rest) := by
  rw [contentsOf, contentsOf, readFrom, readFrom, Line.read_of_means h, Line.read_of_means h']

/-- **Reading finds** just what the lines say. -/
theorem readAll_contents {content : String} {said : List (String × Assignments)} :
    contentsOf none (linesOf content) = some said ↔
      ∃ blocks, readAll content = .ok blocks ∧ blocks.map contents = said := by
  rw [← contents_readFrom 1, Option.map_eq_some_iff]
  exact exists_congr fun blocks => and_congr_left' Outcome.toOption_eq_some

end Block

/-! ## Fields -/

namespace Section

/-- The same section, with its header on another line. -/
def renumbered (s : Section) (line : Nat) : Section := { s with block := { s.block with line } }

variable {α : Type} (s : Section) (line : Nat)

@[simp] theorem renumbered_kind : (s.renumbered line).block.kind = s.block.kind := rfl

@[simp] theorem renumbered_index : (s.renumbered line).index = s.index := rfl

@[simp] theorem renumbered_assignments :
    (s.renumbered line).block.assignments = s.block.assignments := rfl

@[simp] theorem renumbered_invalid (field value : String) :
    (s.renumbered line).invalid field value = s.invalid field value := rfl

@[simp] theorem renumbered_missing (field : String) :
    (s.renumbered line).missing field = s.missing field := rfl

@[simp] theorem renumbered_parse (read : Reader α) (field raw : String) :
    (s.renumbered line).parse read field raw = s.parse read field raw := by
  simp only [parse, renumbered_invalid]

@[simp] theorem renumbered_raw (field : String) : (s.renumbered line).raw field = s.raw field := by
  simp only [raw, renumbered_assignments, renumbered_missing]

@[simp] theorem renumbered_required (read : Reader α) (field : String) :
    (s.renumbered line).required read field = s.required read field := by
  simp only [required, renumbered_raw, renumbered_parse]

@[simp] theorem renumbered_optional (read : Reader α) (field : String) (default : α) :
    (s.renumbered line).optional read field default = s.optional read field default := by
  simp only [optional, renumbered_assignments, renumbered_parse]

@[simp] theorem renumbered_checkPositive (field : String) (value : Nat) :
    (s.renumbered line).checkPositive field value = s.checkPositive field value := by
  simp only [checkPositive, renumbered_invalid]

@[simp] theorem renumbered_positive (field : String) :
    (s.renumbered line).positive field = s.positive field := by
  simp only [positive, renumbered_required, renumbered_checkPositive]

@[simp] theorem renumbered_positiveOr (field : String) (default : Nat) :
    (s.renumbered line).positiveOr field default = s.positiveOr field default := by
  simp only [positiveOr, renumbered_optional, renumbered_checkPositive]

@[simp] theorem renumbered_flag (field : String) (default : Bool) :
    (s.renumbered line).flag field default = s.flag field default := by
  simp only [flag, renumbered_assignments, renumbered_parse]

@[simp] theorem renumbered_list (read : Reader α) (field : String) :
    (s.renumbered line).list read field = s.list read field := by
  simp only [list, renumbered_raw, renumbered_parse]

@[simp] theorem renumbered_listOrEmpty (read : Reader α) (field : String) :
    (s.renumbered line).listOrEmpty read field = s.listOrEmpty read field := by
  simp only [listOrEmpty, renumbered_assignments, renumbered_list]

@[simp] theorem renumbered_activation : (s.renumbered line).activation = s.activation := by
  simp only [activation, renumbered_assignments, renumbered_index]

end Section

/-! ## Blueprints -/

namespace Blueprint

open Block (contents)

variable (s : Section) (line : Nat)

@[simp] theorem readInput_renumbered : readInput (s.renumbered line) = readInput s := by
  simp [readInput]

@[simp] theorem readConvolution_renumbered :
    readConvolution (s.renumbered line) = readConvolution s := by
  simp only [readConvolution, Section.renumbered_positive, Section.renumbered_flag,
    Section.renumbered_required,
    Section.renumbered_optional, Section.renumbered_positiveOr, Section.renumbered_activation]

@[simp] theorem readRoute_renumbered : readRoute (s.renumbered line) = readRoute s := by
  simp only [readRoute, Section.renumbered_list, Section.renumbered_invalid,
    Section.renumbered_positiveOr, Section.renumbered_optional]

@[simp] theorem readHead_renumbered (kind : HeadKind) (index : Nat) :
    readHead (s.renumbered line) kind index = readHead s kind index := by
  simp only [readHead, Section.renumbered_required, Section.renumbered_list,
    Section.renumbered_invalid,
    Section.renumbered_listOrEmpty, Section.renumbered_positive, Section.renumbered_optional]

/-- **What is read of a layer's block** does not depend on where the block stands. -/
theorem readLayer_renumbered (index : Nat) :
    readLayer (s.renumbered line) index = readLayer s index := by
  unfold readLayer
  simp only [Section.renumbered_kind, Section.renumbered_index, Section.renumbered_required,
    Section.renumbered_positive, Section.renumbered_positiveOr, Section.renumbered_flag,
    Section.renumbered_activation, readConvolution_renumbered, readRoute_renumbered,
    readHead_renumbered]

theorem readLayers_contents {blocks blocks' : List Block}
    (h : blocks.map contents = blocks'.map contents)
    (index : Nat) : readLayers index blocks = readLayers index blocks' := by
  induction blocks generalizing blocks' index with
  | nil =>
    obtain rfl : blocks' = [] := by simpa using h.symm
    rfl
  | cons b blocks ih =>
    obtain ⟨b', rest', rfl, hsame, hrest⟩ := List.map_eq_cons_iff.mp h.symm
    obtain ⟨line, rfl⟩ := Block.renumbered_of_contents hsame
    rw [readLayers, readLayers, ih hrest.symm, ← readLayer_renumbered ⟨b, index + 1⟩ line]
    rfl

/-- **Blocks that say the same** have the same blueprint. -/
theorem ofBlocks_contents {blocks blocks' : List Block} {name : String} {b : Blueprint}
    (h : blocks.map contents = blocks'.map contents) (hb : ofBlocks blocks name = .ok b) :
    ofBlocks blocks' name = .ok b := by
  cases blocks with
  | nil => cases hb
  | cons first rest =>
    obtain ⟨first', rest', rfl, hsame, hrest⟩ := List.map_eq_cons_iff.mp h.symm
    obtain ⟨line, rfl⟩ := Block.renumbered_of_contents hsame
    unfold ofBlocks at hb ⊢
    dsimp only at hb ⊢
    split at hb
    · exact absurd hb Outcome.throw_bind_ne_ok
    · next hnet =>
      have hinput := readInput_renumbered ⟨first, 0⟩ line
      rw [Section.renumbered] at hinput
      rw [if_neg hnet, ← readLayers_contents hrest.symm, hinput]
      exact hb

end Blueprint

end GridNet
