import GridNet.Cfg.Block
import GridNet.Cfg.Layer
import GridNet.Text.Integer

/-!
# Fields of a block

Reading the assignments of a block as numbers, flags and lists. A field that is missing or cannot be
read is a defect which names the block.

* `Section` — a block and its number.
* `Section.required`, `Section.optional`, `Section.positive`, `Section.flag`, `Section.list` — what
  may be asked for.
-/

namespace GridNet

/-- A block with its **number** in the description. -/
structure Section where
  block : Block
  index : Nat

namespace Section

/-- A way to read a value from trimmed text. -/
abbrev Reader (α : Type) := String → Option α

/-- Sizes and counts. -/
def size : Reader Nat := fun s => (Text.readNat s).toOption

/-- Integers with a sign. -/
def integer : Reader Int := fun s => (Text.readInt s).toOption

/-- Scalars. -/
def scalar : Reader Scalar := Numeral.read

/-- The defect of a field with a value it cannot have. -/
def invalid (s : Section) (field value : String) : Failure :=
  .ofDefect (.invalidField s.index s.block.kind field value)

/-- The defect of a field that is not assigned. -/
def missing (s : Section) (field : String) : Failure :=
  .ofDefect (.missingField s.index s.block.kind field)

/-- Reads a raw value, trimmed first. -/
def parse {α : Type} (s : Section) (read : Reader α) (field raw : String) : Outcome α :=
  match read (Text.trim raw) with
  | some value => .ok value
  | none => .error (s.invalid field raw)

/-- The raw value of a field that has to be assigned. -/
def raw (s : Section) (field : String) : Outcome String :=
  match s.block.assignments.get? field with
  | some text => .ok text
  | none => .error (s.missing field)

/-- A field that has to be assigned. -/
def required {α : Type} (s : Section) (read : Reader α) (field : String) : Outcome α := do
  s.parse read field (← s.raw field)

/-- A field with a default. -/
def optional {α : Type} (s : Section) (read : Reader α) (field : String) (default : α) :
    Outcome α :=
  match s.block.assignments.get? field with
  | some text => s.parse read field text
  | none => .ok default

/-- Refuses zero. -/
def checkPositive (s : Section) (field : String) (value : Nat) : Outcome Nat :=
  if value = 0 then .error (s.invalid field "0") else .ok value

/-- A size above zero that has to be assigned. -/
def positive (s : Section) (field : String) : Outcome Nat := do
  s.checkPositive field (← s.required size field)

/-- A size above zero with a default. -/
def positiveOr (s : Section) (field : String) (default : Nat) : Outcome Nat := do
  s.checkPositive field (← s.optional size field default)

/-- A flag, written as an integer: everything but zero means yes. -/
def flag (s : Section) (field : String) (default : Bool) : Outcome Bool :=
  match s.block.assignments.get? field with
  | some text => (s.parse integer field text).map (· != 0)
  | none => .ok default

/-- The entries between commas, trimmed, without the empty ones. -/
def entries (raw : String) : List String :=
  (((Text.splitBy (· = ',') raw.toList).map Text.trimChars).filter (!·.isEmpty)).map
    String.ofList

/-- A list that has to be assigned. -/
def list {α : Type} (s : Section) (read : Reader α) (field : String) : Outcome (List α) := do
  (entries (← s.raw field)).mapM fun item => s.parse read field item

/-- A list that is empty unless it is assigned. -/
def listOrEmpty {α : Type} (s : Section) (read : Reader α) (field : String) :
    Outcome (List α) :=
  if s.block.assignments.contains field then s.list read field else .ok []

/-- The block's activation; none assigned is the linear one. -/
def activation (s : Section) : Outcome Activation :=
  match Activation.read ((s.block.assignments.get? "activation").getD "linear") with
  | .ok a => .ok a
  | .error name => .error (.ofDefect (.unsupportedActivation s.index name))

end Section

end GridNet
