import GridNet.Json.Scan
import GridNet.Json.Value

/-!
# Reading JSON

Any value, kept as a `Json`. Every step takes a byte or ends something that took one, so the number
of bytes bounds the steps.

* `Json.read` — the value of a text.
-/

namespace GridNet.Json

/-- Reads a number, which keeps its text. -/
def scanNumber : Scan Json := do
  let start := (← get).index
  let _ ← Scan.numberText .endOfValue false
  let c ← get
  return number ((String.fromUTF8? (c.bytes.extract start c.index)).getD "")

/-- Reads a word that is a value. -/
def scanWord (expected : String) (value : Json) : Scan Json := do
  Scan.word expected
  return value

mutual

/-- Reads a value. -/
def scanValue : (fuel : Nat) → Scan Json
  | 0 => Scan.failHere .endOfValue
  | fuel + 1 => do
    let c ← Scan.peekValue
    if c = '[' then
      Scan.eat
      scanItems fuel true []
    else if c = '\x7b' then
      Scan.eat
      scanMembers fuel true []
    else if c = '"' then return text (← Scan.string)
    else if c = 'n' then scanWord "null" null
    else if c = 't' then scanWord "true" (bool true)
    else if c = 'f' then scanWord "false" (bool false)
    else if c = '-' || c.isDigit then scanNumber
    else Scan.failNext .noValue

/-- Reads the items of an array, behind those in `front`, last first. -/
def scanItems : (fuel : Nat) → (first : Bool) → (front : List Json) → Scan Json
  | 0, _, _ => Scan.failHere .endOfList
  | fuel + 1, first, front => do
    if ← Scan.nextItem first then scanItems fuel false ((← scanValue fuel) :: front)
    else
      Scan.endList
      return array front.reverse

/-- Reads the members of an object, behind those in `front`, last first. -/
def scanMembers : (fuel : Nat) → (first : Bool) → (front : List (String × Json)) → Scan Json
  | 0, _, _ => Scan.failHere .endOfObject
  | fuel + 1, first, front => do
    match ← Scan.nextKey first with
    | none =>
      Scan.endObject
      return object front.reverse
    | some key =>
      Scan.colon
      scanMembers fuel false ((key, ← scanValue fuel) :: front)

end

/-- The value of a text. -/
def read (text : String) : Except ScanFault Json :=
  (do scanValue (2 * (← Scan.steps))).readAll text

end GridNet.Json
