import GridNet.Json.Number

/-!
# JSON values

* `Json` — a value. Numbers stay as they are written, so that a reader may ask for an integer or for
  a scalar; members keep their order and may repeat.
* `Json.nat?`, `Json.text?` … — what a value denotes.
-/

namespace GridNet

/-- A **JSON value**. -/
inductive Json
  | null
  | bool (b : Bool)
  /-- a number as it is written -/
  | number (text : String)
  | text (s : String)
  | array (items : List Json)
  | object (members : List (String × Json))
deriving Inhabited

namespace Json

/-- A natural number. -/
def nat (n : Nat) : Json := number (toString n)

/-- An integer. -/
def int (n : Int) : Json := number (toString n)

/-- A scalar by its shortest text; null if it is not finite. -/
def scalar (x : Scalar) : Json :=
  match Shortest.text x with
  | some t => number t
  | none => null

/-- A value that may be missing. -/
def orNull {α : Type} (f : α → Json) : Option α → Json
  | none => null
  | some x => f x

/-- The characters of a whole number: no point and no exponent. -/
def isWhole (text : String) : Bool := text.toList.all fun c => c.isDigit || c = '-'

/-- The size that a number denotes: whole, without a minus sign, and below `2 ^ 64`. -/
def nat? : Json → Option Nat
  | number t => if isWhole t then (Text.readNat t).toOption else none
  | _ => none

/-- The integer of 64 bits that a number denotes. -/
def int? : Json → Option Int
  | number t => if isWhole t then (Text.readInt t).toOption else none
  | _ => none

/-- The text of a string. -/
def text? : Json → Option String
  | text s => some s
  | _ => none

/-- The truth value. -/
def bool? : Json → Option Bool
  | bool b => some b
  | _ => none

/-- The items of an array. -/
def items? : Json → Option (List Json)
  | array items => some items
  | _ => none

/-- The first member with the given key. -/
def member? (key : String) : Json → Option Json
  | object members => (members.find? (·.1 == key)).map (·.2)
  | _ => none

end Json

end GridNet
