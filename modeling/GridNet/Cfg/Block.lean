import GridNet.Failure
import GridNet.Text.Lines

/-!
# Blocks of a network description

A description is a sequence of headers `[kind]`, each followed by assignments `key=value`. Blank
lines and lines that start with a space, `#` or `;` are skipped. A key that is assigned twice in a
block keeps its first value.

* `Assignments` — a finite map from keys to values, held in ascending order of the keys, so that two
  blocks with the same assignments are equal whatever order they were written in.
* `Line.read` — what one line is, looked at by itself.
* `Block.readAll` — the blocks of a text; `Block.render` writes one down.
-/

namespace GridNet

/-! ## Assignments -/

/-- Puts a key and a value in their place among ascending keys, unless the key is there already. -/
def insertFirst (key value : String) : List (String × String) → List (String × String)
  | [] => [(key, value)]
  | (k, v) :: rest =>
    if key = k then (k, v) :: rest
    else if key < k then (key, value) :: (k, v) :: rest
    else (k, v) :: insertFirst key value rest

/-- Insertion adds no pair but the given one. -/
theorem mem_insertFirst {key value : String} {pairs : List (String × String)} {p : String × String}
    (h : p ∈ insertFirst key value pairs) : p = (key, value) ∨ p ∈ pairs := by
  induction pairs with
  | nil => simpa [insertFirst] using h
  | cons head rest ih =>
    obtain ⟨k, v⟩ := head
    unfold insertFirst at h
    split at h
    · exact .inr h
    · split at h
      · simpa using h
      · rcases List.mem_cons.1 h with h | h
        · exact .inr (h ▸ List.mem_cons_self)
        · exact (ih h).imp_right (List.mem_cons_of_mem _)

/-- Insertion keeps the keys in ascending order. -/
theorem pairwise_insertFirst {key value : String} {pairs : List (String × String)}
    (h : pairs.Pairwise (·.1 < ·.1)) : (insertFirst key value pairs).Pairwise (·.1 < ·.1) := by
  induction pairs with
  | nil => simp [insertFirst]
  | cons head rest ih =>
    obtain ⟨k, v⟩ := head
    have ⟨above, tail⟩ := List.pairwise_cons.1 h
    unfold insertFirst
    split
    · exact h
    · rename_i distinct
      split
      · rename_i below
        refine List.pairwise_cons.2 ⟨fun p mem => ?_, h⟩
        rcases List.mem_cons.1 mem with rfl | mem
        · exact below
        · exact String.lt_trans below (above p mem)
      · rename_i notBelow
        refine List.pairwise_cons.2 ⟨fun p mem => ?_, ih tail⟩
        rcases mem_insertFirst mem with rfl | mem
        · exact String.not_le.1 fun le => distinct (String.le_antisymm le notBelow)
        · exact above p mem

/-- A block's **assignments**: pairs of a key and a value, ascending by key. -/
structure Assignments where
  /-- the pairs themselves -/
  pairs : List (String × String) := []
  /-- no key occurs twice, and the smaller one stands first -/
  ascending : pairs.Pairwise (·.1 < ·.1) := by simp
deriving DecidableEq

namespace Assignments

/-- No assignment at all. -/
def empty : Assignments := {}

/-- Assigns a key that has no value yet. -/
def insert (a : Assignments) (key value : String) : Assignments :=
  ⟨insertFirst key value a.pairs, pairwise_insertFirst a.ascending⟩

/-- The value assigned to a key. -/
def get? (a : Assignments) (key : String) : Option String :=
  (a.pairs.find? (·.1 = key)).map (·.2)

/-- The key is assigned. -/
def contains (a : Assignments) (key : String) : Bool := (a.get? key).isSome

end Assignments

/-! ## Blocks and lines -/

/-- One **block** of a description. -/
structure Block where
  /-- the text between the brackets of the header -/
  kind : String
  /-- the number of the header's line, counted from 1 -/
  line : Nat
  /-- what is assigned below the header -/
  assignments : Assignments := .empty
deriving DecidableEq

/-- What a **line** of a description can be. -/
inductive Line
  | skipped
  | header (kind : String)
  | assignment (key value : String)
deriving DecidableEq

/-- The characters in front of the first `mark` and those behind it. -/
def splitAtFirst (mark : Char) : List Char → Option (List Char × List Char)
  | [] => none
  | c :: cs =>
    if c = mark then some ([], cs)
    else (splitAtFirst mark cs).map fun (front, back) => (c :: front, back)

/-- Reads one line, or says what is wrong with it. -/
def Line.read (line : List Char) : Except String Line :=
  match line with
  | [] => .ok .skipped
  | c :: rest =>
    if c = ' ' ∨ c = '#' ∨ c = ';' then .ok .skipped
    else if c = '[' then
      match splitAtFirst ']' rest with
      | none => .error "unterminated block header"
      | some (inner, _) =>
        let kind := Text.trimChars inner
        if kind.isEmpty then .error "empty block header" else .ok (.header (String.ofList kind))
    else
      match splitAtFirst '=' line with
      | none => .error s!"expected key=value, found '{String.ofList line}'"
      | some (front, back) =>
        let key := Text.trimChars front
        if key.isEmpty then .error "empty key"
        else .ok (.assignment (String.ofList key) (String.ofList (Text.trimChars back)))

namespace Block

/-- The failure of a line. -/
def malformed (line : Nat) (reason : String) : Failure :=
  .ofDefect (.malformedLine line reason)

/-- Reads lines from number `line` on. The block that is still open collects assignments; it is
complete at the next header or at the end. -/
def readFrom (line : Nat) (current : Option Block) : List (List Char) → Outcome (List Block)
  | [] => .ok current.toList
  | text :: rest =>
    match Line.read text with
    | .error reason => .error (malformed line reason)
    | .ok .skipped => readFrom (line + 1) current rest
    | .ok (.header kind) =>
      (readFrom (line + 1) (some { kind, line }) rest).map (current.toList ++ ·)
    | .ok (.assignment key value) =>
      match current with
      | none => .error (malformed line "assignment before the first block")
      | some block =>
        readFrom (line + 1)
          (some { block with assignments := block.assignments.insert key value }) rest

/-- The lines of a description: one more carriage return than a line ending has may stand at the end
of each. -/
def linesOf (text : String) : List (List Char) :=
  (Text.lines text.toList).map Text.dropReturn

/-- The blocks of a text, in order. -/
def readAll (text : String) : Outcome (List Block) := readFrom 1 none (linesOf text)

/-- A block as text: its header and one line for each assignment, each line closed by `ending`. -/
def render (ending : String) (b : Block) : String :=
  "[" ++ b.kind ++ "]" ++ ending ++
    String.join (b.assignments.pairs.map fun (key, value) => key ++ "=" ++ value ++ ending)

end Block

end GridNet
