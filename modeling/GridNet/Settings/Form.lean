import GridNet.Json.Scan
import GridNet.Json.Value

/-!
# Forms

A `Form` says how a value stands in a settings file: how it is read and how it is written. A record
is an object, of which unknown members are passed over, missing ones keep their defaults, and none
may occur twice; or it is an array of its fields in order, which may end early.

* `Form.text`, `Form.count`, `Form.scalar` … — the plain forms.
* `Form.record` — the form of a structure, by its fields.
-/

namespace GridNet

/-- How a value **stands in a settings file**. -/
structure Form (α : Type) where
  read : Scan α
  write : α → Json

/-- One **field of a record**. -/
structure Field (σ : Type) where
  name : String
  /-- puts the value of the field into a record -/
  read : σ → Scan σ
  write : σ → Json

namespace Form

/-- A truth value. -/
def flag : Form Bool :=
  { read := Scan.placed do
      match ← Scan.peekValue with
      | 't' =>
        Scan.word "true"
        return true
      | 'f' =>
        Scan.word "false"
        return false
      | _ => Scan.mismatch "a boolean"
    write := .bool }

/-- A text. -/
def text : Form String :=
  { read := Scan.placed do
      if (← Scan.peekValue) = '"' then Scan.string else Scan.mismatch "a string"
    write := .text }

/-- A number that `ofNumber` takes. -/
def number {α : Type} (expected : String) (ofNumber : JsonNumber → Except FormFault α) : Scan α :=
  Scan.placed do
    let c ← Scan.peekValue
    if c = '-' || c.isDigit then
      match ofNumber (← Scan.number) with
      | .ok x => return x
      | .error f => Scan.failForm f
    else Scan.mismatch expected

/-- The size that a number is. -/
def sizeOf (n : JsonNumber) : Except FormFault Nat :=
  match n with
  | .whole i =>
    if 0 ≤ i then .ok i.toNat else .error (.wrongValue (.number n) "usize")
  | .double _ => .error (.wrongType (.number n) "usize")

/-- A size. -/
def count : Form Nat := { read := number "usize" sizeOf, write := .nat }

/-- A scalar. -/
def scalar : Form Scalar :=
  { read := number "f32" fun n => .ok n.toScalar
    write := .scalar }

/-- A value that may be left open. -/
def optional {α : Type} (f : Form α) : Form (Option α) :=
  { read := do
      if (← Scan.peekToken) = some 'n' then
        Scan.word "null"
        return none
      else return some (← f.read)
    write := Json.orNull f.write }

/-- The items of a list from one of them on. -/
def items {α : Type} (item : Scan α) : (fuel : Nat) → (first : Bool) → Scan (List α)
  | 0, _ => return []
  | fuel + 1, first => do
    if ← Scan.nextItem first then
      let x ← item
      return x :: (← items item fuel false)
    else return []

/-- The first items of a list, as many as are asked for; `had` were read in front of them. -/
def firstItems {α : Type} (expected : String) (item : Scan α) :
    (count had : Nat) → Scan (List α)
  | 0, _ => return []
  | count + 1, had => do
    if ← Scan.nextItem (had = 0) then
      let x ← item
      return x :: (← firstItems expected item count (had + 1))
    else Scan.failForm (.wrongLength had expected)

/-- A list whose items are read by `body`. -/
def bracketed {α : Type} (expected : String) (body : Scan α) : Scan α :=
  Scan.placed do
    if (← Scan.peekValue) = '[' then
      Scan.eat
      Scan.closing body Scan.endList
    else Scan.mismatch expected

/-- A list of any length. -/
def list {α : Type} (f : Form α) : Form (List α) :=
  { read := bracketed "a sequence" do items f.read (← Scan.steps) true
    write := fun xs => .array (xs.map f.write) }

/-- A list of the given length. -/
def listOf {α : Type} (length : Nat) (f : Form α) : Form (List α) :=
  let expected := s!"an array of length {length}"
  { f.list with read := bracketed expected (firstItems expected f.read length 0) }

/-- A name among those of all choices. -/
def choiceName {α : Type} (choices : List α) (name : α → String) : Scan α :=
  Scan.placed do
    if (← Scan.peekValue) = '"' then
      let s ← Scan.string
      match choices.find? (name · = s) with
      | some x => return x
      | none => Scan.failForm (.unknownChoice s (choices.map name))
    else Scan.mismatch "variant identifier"

/-- The absence of a value. -/
def unit : Scan Unit :=
  Scan.placed do
    if (← Scan.peekValue) = 'n' then Scan.word "null" else Scan.mismatch "unit"

/-- A choice, by its name alone or as an object with the name as its only key. -/
def choice {α : Type} (choices : List α) (name : α → String) : Form α :=
  { read := do
      match ← Scan.peekValue with
      | '"' => choiceName choices name
      | '\x7b' =>
        Scan.eat
        let x ← choiceName choices name
        Scan.colon
        unit
        match ← Scan.peekToken with
        | none => Scan.failHere .endOfObject
        | some c =>
          if c ≠ '\x7d' then Scan.failHere .noValue
          Scan.eat
          return x
      | _ => Scan.failNext .noValue
    write := fun x => .text (name x) }

end Form

/-- The field with the given form. -/
def Field.of {σ α : Type} (name : String) (form : Form α) (get : σ → α) (set : α → σ → σ) :
    Field σ :=
  { name
    read := fun s => do return set (← form.read) s
    write := fun s => form.write (get s) }

namespace Form

/-- Reads the members of an object into a record; `seen` are the fields that were read already. -/
def members {σ : Type} (fields : List (Field σ)) :
    (fuel : Nat) → (first : Bool) → (seen : List String) → σ → Scan σ
  | 0, _, _, s => return s
  | fuel + 1, first, seen, s => do
    match ← Scan.nextKey first with
    | none => return s
    | some key =>
      match fields.find? (·.name = key) with
      | none =>
        Scan.colon
        Scan.skipValue
        members fields fuel false seen s
      | some field =>
        if seen.contains key then Scan.failForm (.duplicateField key)
        Scan.colon
        members fields fuel false (key :: seen) (← field.read s)

/-- Reads the items of an array into the fields in order. -/
def fieldsInOrder {σ : Type} : List (Field σ) → (first : Bool) → σ → Scan σ
  | [], _, s => return s
  | field :: fields, first, s => do
    if ← Scan.nextItem first then fieldsInOrder fields false (← field.read s) else return s

/-- A record with the given name and fields; `start` holds what is not read. -/
def record {σ : Type} (name : String) (fields : List (Field σ)) (start : σ) : Form σ :=
  { read := Scan.placed do
      match ← Scan.peekValue with
      | '[' =>
        Scan.eat
        Scan.closing (fieldsInOrder fields true start) Scan.endList
      | '\x7b' =>
        Scan.eat
        Scan.closing (do members fields (← Scan.steps) true [] start) Scan.endObject
      | _ => Scan.mismatch s!"struct {name}"
    write := fun s => .object (fields.map fun field => (field.name, field.write s)) }

end Form

end GridNet
