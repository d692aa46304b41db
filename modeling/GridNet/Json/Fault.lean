import GridNet.Json.Number
import GridNet.Text.Visible

/-!
# Faults of JSON texts

A text may be no JSON at all, or be JSON of another form than was asked for. Either way the fault
has a place: a line, and the bytes of it that were read.

* `TextFault` — the ways in which a text is no JSON.
* `FormFault` — the ways in which JSON has another form.
* `ScanFault` — one of both, with its place.
-/

namespace GridNet

/-- A **place in a text**. -/
structure Place where
  /-- counted from one -/
  line : Nat := 1
  /-- the bytes in front of the place, on its line -/
  column : Nat := 0
deriving DecidableEq

/-- The place behind one more byte. -/
def Place.next (p : Place) (b : UInt8) : Place :=
  if b = 0x0a then { line := p.line + 1 } else { p with column := p.column + 1 }

/-- The ways in which a text **is no JSON**. -/
inductive TextFault
  | endOfList
  | endOfObject
  | endOfString
  | endOfValue
  | noColon
  | noCommaInList
  | noCommaInObject
  /-- a word other than the three -/
  | noWord
  | noValue
  | badEscape
  | badNumber
  | numberOutOfRange
  | controlCharacter
  | keyNotString
  /-- half a surrogate pair -/
  | loneSurrogate
  /-- half a surrogate pair with no escape behind it -/
  | endOfEscape
  | trailingComma
  | trailingCharacters
deriving DecidableEq

/-- The wording of a fault. -/
def TextFault.message : TextFault → String
  | endOfList => "EOF while parsing a list"
  | endOfObject => "EOF while parsing an object"
  | endOfString => "EOF while parsing a string"
  | endOfValue => "EOF while parsing a value"
  | noColon => "expected `:`"
  | noCommaInList => "expected `,` or `]`"
  | noCommaInObject => "expected `,` or `\x7d`"
  | noWord => "expected ident"
  | noValue => "expected value"
  | badEscape => "invalid escape"
  | badNumber => "invalid number"
  | numberOutOfRange => "number out of range"
  | controlCharacter => "control character (\\u0000-\\u001F) found while parsing a string"
  | keyNotString => "key must be a string"
  | loneSurrogate => "lone leading surrogate in hex escape"
  | endOfEscape => "unexpected end of hex escape"
  | trailingComma => "trailing comma"
  | trailingCharacters => "trailing characters"

/-- What was **found** where something else was asked for. -/
inductive Found
  | null
  | bool (b : Bool)
  | number (n : JsonNumber)
  | string (text : String)
  | list
  | object
deriving DecidableEq

/-- The wording of what was found. -/
def Found.message : Found → String
  | null => "null"
  | bool b => s!"boolean `{b}`"
  | number (.whole n) => s!"integer `{n}`"
  | number (.double word) => s!"floating point `{Shortest.doubleText word}`"
  | string text => s!"string {Text.visible text}"
  | list => "sequence"
  | object => "map"

/-- The ways in which JSON **has another form** than was asked for. -/
inductive FormFault
  | wrongType (found : Found) (expected : String)
  | wrongValue (found : Found) (expected : String)
  | wrongLength (length : Nat) (expected : String)
  /-- a field that occurs twice -/
  | duplicateField (name : String)
  /-- a choice that there is not -/
  | unknownChoice (name : String) (choices : List String)
deriving DecidableEq

/-- The wording of a fault. -/
def FormFault.message : FormFault → String
  | wrongType found expected => s!"invalid type: {found.message}, expected {expected}"
  | wrongValue found expected => s!"invalid value: {found.message}, expected {expected}"
  | wrongLength length expected => s!"invalid length {length}, expected {expected}"
  | duplicateField name => s!"duplicate field `{name}`"
  | unknownChoice name choices =>
    let known := " or ".intercalate (choices.map fun c => s!"`{c}`")
    s!"unknown variant `{name}`, expected {known}"

/-- A **fault of a JSON text**. -/
inductive ScanFault
  | text (f : TextFault) (place : Place)
  /-- the place is missing as long as nobody has said how much was read -/
  | form (f : FormFault) (place : Option Place)
deriving DecidableEq

/-- A message with its place. -/
def Place.locate (p : Place) (message : String) : String :=
  s!"{message} at line {p.line} column {p.column}"

/-- The wording of a fault. -/
def ScanFault.message : ScanFault → String
  | text f place => place.locate f.message
  | form f (some place) => place.locate f.message
  | form f none => f.message

end GridNet
