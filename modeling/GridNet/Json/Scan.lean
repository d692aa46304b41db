import GridNet.Json.Fault

/-!
# Scanning JSON

A scan reads a text from left to right, byte by byte, and stops at the first fault. It never reads
what is not asked for, so that a value of a known form is read in one pass, and every fault has the
place where reading came to it.

* `Scan` — a step of reading.
* `Scan.string`, `Scan.number` — the two tokens with a content.
* `Scan.nextItem`, `Scan.nextKey`, `Scan.endList`, `Scan.endObject` — what stands between values.
* `Scan.skipValue` — any value, passed over.
-/

namespace GridNet

/-- How far a text **was read**. -/
structure Cursor where
  bytes : ByteArray
  /-- the bytes that were read -/
  index : Nat := 0
  place : Place := {}

/-- The next byte. -/
def Cursor.head? (c : Cursor) : Option UInt8 := c.bytes[c.index]?

/-- A **step of reading**. -/
abbrev Scan := EStateM ScanFault Cursor

namespace Scan

/-- The next byte, as the character with its number. -/
def peek : Scan (Option Char) := do
  return (← get).head?.map fun b => Char.ofNat b.toNat

/-- Goes on by one byte. -/
def eat : Scan Unit := modify fun c =>
  match c.head? with
  | none => c
  | some b => { c with index := c.index + 1, place := c.place.next b }

/-- A fault behind what was read. -/
def failHere {α : Type} (f : TextFault) : Scan α := do throw (.text f (← get).place)

/-- A fault of the next byte: it counts as read. -/
def failNext {α : Type} (f : TextFault) : Scan α := do
  eat
  failHere f

/-- A fault of the form, whose place is left open. -/
def failForm {α : Type} (f : FormFault) : Scan α := throw (.form f none)

/-- A step of which a fault of the form, if it has no place yet, has its place where the
step came to. -/
def placed {α : Type} (a : Scan α) : Scan α := fun c =>
  match a.run c with
  | .error (.form f none) c => .error (.form f (some c.place)) c
  | r => r

/-- A step and, whatever became of it, another one. A fault of the first one counts. -/
def closing {α : Type} (body : Scan α) (close : Scan Unit) : Scan α := fun c =>
  match body.run c with
  | .ok x c =>
    match close.run c with
    | .ok _ c => .ok x c
    | .error e c => .error e c
  | .error e c =>
    match close.run c with
    | .ok _ c => .error e c
    | .error _ c => .error e c

/-- More steps than any loop takes that eats a byte each time. -/
def steps : Scan Nat := do
  let c ← get
  return c.bytes.size - c.index + 1

/-- The bytes at the front that satisfy `p`, behind those in `front`, last first. -/
def takeFrom (p : Char → Bool) : (fuel : Nat) → (front : List Char) → Scan (List Char)
  | 0, front => return front.reverse
  | fuel + 1, front => do
    match ← peek with
    | none => return front.reverse
    | some c =>
      if p c then
        eat
        takeFrom p fuel (c :: front)
      else return front.reverse

/-- The bytes at the front that satisfy `p`. -/
def takeWhile (p : Char → Bool) : Scan (List Char) := do takeFrom p (← steps) []

/-- The four blanks of JSON. -/
def isBlank (c : Char) : Bool := c = ' ' || c = '\n' || c = '\t' || c = '\r'

/-- The next byte behind blanks. -/
def peekToken : Scan (Option Char) := do
  let _ ← takeWhile isBlank
  peek

/-- The first byte of a value, which has to be there. -/
def peekValue : Scan Char := do
  match ← peekToken with
  | some c => return c
  | none => failHere .endOfValue

/-- Reads a word. -/
def word (expected : String) : Scan Unit :=
  expected.toList.forM fun c => do
    match ← peek with
    | none => failHere .endOfValue
    | some next => if next = c then eat else failNext .noWord

/-! ## Strings -/

/-- The next bytes of a string, or the end of a text that ends in front of them. -/
def takeInString : (count : Nat) → Scan (List Char)
  | 0 => pure []
  | count + 1 => do
    match ← peek with
    | none => failHere .endOfString
    | some c =>
      eat
      return c :: (← takeInString count)

/-- The number of four hexadecimal digits. -/
def hexQuad : Scan Nat := do
  let digits ← takeInString 4
  match digits.mapM Text.hexDigit with
  | some values => return values.foldl (fun n d => 16 * n + d) 0
  | none => failHere .badEscape

/-- The bytes of a character. -/
def utf8 (n : Nat) : List UInt8 := (Char.ofNat n).toString.toUTF8.toList

/-- Reads the next byte of a string, which has to be the given one. -/
def expectInString (c : Char) : Scan Unit := do
  match ← peek with
  | none => failHere .endOfString
  | some next => if next = c then eat else failNext .endOfEscape

/-- The character of a numbered escape, behind its letter. The first half of a surrogate pair has to
have the second one behind it. -/
def numberedEscape : Scan (List UInt8) := do
  let n ← hexQuad
  if 0xdc00 ≤ n && n < 0xe000 then failHere .loneSurrogate
  else if 0xd800 ≤ n && n < 0xdc00 then
    expectInString '\\'
    expectInString 'u'
    let low ← hexQuad
    if 0xdc00 ≤ low && low < 0xe000 then
      return utf8 (0x10000 + (n - 0xd800) * 0x400 + (low - 0xdc00))
    else failHere .loneSurrogate
  else return utf8 n

/-- The character of a one-letter escape. -/
def shortEscape : Char → Option Char
  | '"' => some '"'
  | '\\' => some '\\'
  | '/' => some '/'
  | 'b' => some '\x08'
  | 'f' => some '\x0c'
  | 'n' => some '\n'
  | 'r' => some '\r'
  | 't' => some '\t'
  | _ => none

/-- The letter of an escape. -/
def escapeLetter : Scan Char := do
  match ← peek with
  | none => failHere .endOfString
  | some c =>
    eat
    return c

/-- The bytes of an escape, behind its backslash. -/
def escape : Scan (List UInt8) := do
  let c ← escapeLetter
  if c = 'u' then numberedEscape
  else
    match shortEscape c with
    | some c => return utf8 c.toNat
    | none => failHere .badEscape

/-- The bytes of a string up to its closing quote, behind those in `front`, last first. -/
def stringFrom : (fuel : Nat) → (front : List UInt8) → Scan (List UInt8)
  | 0, _ => failHere .endOfString
  | fuel + 1, front => do
    match ← peek with
    | none => failHere .endOfString
    | some c =>
      if c = '"' then
        eat
        return front.reverse
      else if c = '\\' then
        eat
        stringFrom fuel ((← escape).reverse ++ front)
      else if c.toNat < 0x20 then failNext .controlCharacter
      else
        eat
        stringFrom fuel (c.toNat.toUInt8 :: front)

/-- A string, from its opening quote on. -/
def string : Scan String := do
  eat
  let bytes ← stringFrom (← steps) []
  return (String.fromUTF8? ⟨bytes.toArray⟩).getD ""

/-- Passes over an escape, behind its backslash. Halves of surrogate pairs may stand alone. -/
def skipEscape : Scan Unit := do
  let c ← escapeLetter
  if c = 'u' then
    let _ ← hexQuad
  else if (shortEscape c).isNone then failHere .badEscape

/-- Passes over a string up to its closing quote. -/
def skipStringFrom : (fuel : Nat) → Scan Unit
  | 0 => failHere .endOfString
  | fuel + 1 => do
    match ← peek with
    | none => failHere .endOfString
    | some c =>
      if c = '"' then eat
      else if c = '\\' then
        eat
        skipEscape
        skipStringFrom fuel
      else if c.toNat < 0x20 then failHere .controlCharacter
      else
        eat
        skipStringFrom fuel

/-- Passes over a string, from its opening quote on. -/
def skipString : Scan Unit := do
  eat
  skipStringFrom (← steps)

/-! ## Numbers -/

/-- The digits at the front. -/
def digits : Scan (List Char) := takeWhile Char.isDigit

/-- The next byte is a digit. -/
def atDigit : Scan Bool := do return ((← peek).map Char.isDigit).getD false

/-- The digits in front of the point: a zero, or digits that do not start with one. `early` is the
fault of a text that ends where a digit has to be. -/
def wholeDigits (early : TextFault) : Scan (List Char) := do
  match ← peek with
  | none => failHere early
  | some c =>
    if c = '0' then
      eat
      if ← atDigit then failNext .badNumber
      return ['0']
    else if c.isDigit then digits
    else failNext .badNumber

/-- The digits behind a point. -/
def fractionDigits (early : TextFault) : Scan (List Char) := do
  eat
  let ds ← digits
  if !ds.isEmpty then return ds
  match ← peek with
  | none => failHere early
  | some _ => failNext .badNumber

/-- The largest exponent that is read to its end. -/
def exponentLimit : Nat := Word.modulus32 / 2 - 1

/-- The digits of an exponent, as a number. One that grows beyond the limit is a fault if
`strict`. -/
def exponentDigits (strict : Bool) : (fuel acc : Nat) → Scan Nat
  | 0, acc => return acc
  | fuel + 1, acc => do
    match ← peek with
    | none => return acc
    | some c =>
      if !c.isDigit then return acc
      eat
      let next := 10 * acc + (c.toNat - '0'.toNat)
      if strict && exponentLimit < next then failHere .numberOutOfRange
      exponentDigits strict fuel next

/-- The exponent behind its letter. It can only be too large if the number is not `zero`. -/
def exponent (early : TextFault) (strict zero : Bool) : Scan Int := do
  eat
  let sign ← peek
  if sign = some '+' || sign = some '-' then eat
  match ← peek with
  | none => failHere early
  | some c =>
    if !c.isDigit then failNext .badNumber
    let negative := sign = some '-'
    let n ← exponentDigits (strict && !zero && !negative) (← steps) 0
    return if negative then -(n : Int) else n

/-- The text of a number. `strict` is whether it has to be in range. -/
def numberText (early : TextFault) (strict : Bool) : Scan NumberText := do
  let negative := (← peek) = some '-'
  if negative then eat
  let whole ← wholeDigits early
  let fraction ← if (← peek) = some '.' then fractionDigits early else pure []
  let t : NumberText := { negative, whole, fraction }
  let next ← peek
  if next = some 'e' || next = some 'E' then
    return { t with exponent := some (← exponent early strict t.isZero) }
  return t

/-- A number. -/
def number : Scan JsonNumber := do
  match (← numberText .endOfValue true).value? with
  | some n => return n
  | none => failHere .numberOutOfRange

/-! ## Between values -/

/-- There is one more item in a list; `first` if there was none yet. -/
def nextItem (first : Bool) : Scan Bool := do
  match ← peekToken with
  | none => failHere .endOfList
  | some ']' => return false
  | some c =>
    if first then return true
    if c ≠ ',' then failNext .noCommaInList
    eat
    match ← peekToken with
    | none => failHere .endOfValue
    | some ']' => failNext .trailingComma
    | some _ => return true

/-- The end of a list, of which no more items are read. -/
def endList : Scan Unit := do
  match ← peekToken with
  | none => failHere .endOfList
  | some ']' => eat
  | some ',' =>
    eat
    match ← peekToken with
    | some ']' => failNext .trailingComma
    | _ => failNext .trailingCharacters
  | some _ => failNext .trailingCharacters

/-- The key of the next member of an object, if there is one more. -/
def nextKey (first : Bool) : Scan (Option String) := do
  match ← peekToken with
  | none => failHere .endOfObject
  | some '\x7d' => return none
  | some c =>
    if first then
      if c = '"' then return some (← string) else failNext .keyNotString
    if c ≠ ',' then failNext .noCommaInObject
    eat
    match ← peekToken with
    | none => failHere .endOfValue
    | some '"' => return some (← string)
    | some '\x7d' => failNext .trailingComma
    | some _ => failNext .keyNotString

/-- The colon behind a key. -/
def colon : Scan Unit := do
  match ← peekToken with
  | none => failHere .endOfObject
  | some c => if c = ':' then eat else failNext .noColon

/-- The end of an object, of which no more members are read. -/
def endObject : Scan Unit := do
  match ← peekToken with
  | none => failHere .endOfObject
  | some '\x7d' => eat
  | some ',' => failNext .trailingComma
  | some _ => failNext .trailingCharacters

/-- The end of a text. -/
def endText : Scan Unit := do
  if (← peekToken).isSome then failNext .trailingCharacters

/-! ## Passing over values -/

/-- What a value **stands in**. -/
inductive Enclosure
  | list
  | object
deriving DecidableEq

namespace Enclosure

/-- The fault of a text that ends there. -/
def early : Enclosure → TextFault
  | list => .endOfList
  | object => .endOfObject

/-- The fault of a byte that neither ends it nor goes on. -/
def noComma : Enclosure → TextFault
  | list => .noCommaInList
  | object => .noCommaInObject

/-- The byte that ends it. -/
def closer : Enclosure → Char
  | list => ']'
  | object => '\x7d'

end Enclosure

/-- Where a value is passed over. -/
inductive Stage
  /-- in front of a value -/
  | value
  /-- behind an opening bracket -/
  | opened
  /-- behind a value -/
  | done

/-- What comes in front of a further value: nothing in a list, a key in an object. -/
def skipKey : Enclosure → Scan Unit
  | .list => pure ()
  | .object => do
    match ← peekToken with
    | none => failHere .endOfObject
    | some c => if c = '"' then skipString else failNext .keyNotString
    colon

/-- Passes over a value that has no values inside; says whether there is one. -/
def skipScalar (c : Char) : Scan Bool := do
  if c = 'n' then word "null"
  else if c = 't' then word "true"
  else if c = 'f' then word "false"
  else if c = '"' then skipString
  else if c = '-' || c.isDigit then
    let _ ← numberText .badNumber false
  else return false
  return true

/-- Passes over a value and what it stands in, the innermost first. -/
def skipFrom : (fuel : Nat) → Stage → List Enclosure → Scan Unit
  | 0, _, _ => failHere .endOfValue
  | fuel + 1, .value, outer => do
    let c ← peekValue
    if c = '[' then
      eat
      skipFrom fuel .opened (.list :: outer)
    else if c = '\x7b' then
      eat
      skipFrom fuel .opened (.object :: outer)
    else if ← skipScalar c then skipFrom fuel .done outer
    else failNext .noValue
  | _, _, [] => pure ()
  | fuel + 1, .opened, inner :: outer => do
    match ← peekToken with
    | none => failHere inner.early
    | some c =>
      if c = inner.closer then
        eat
        skipFrom fuel .done outer
      else
        skipKey inner
        skipFrom fuel .value (inner :: outer)
  | fuel + 1, .done, inner :: outer => do
    match ← peekToken with
    | none => failHere inner.early
    | some c =>
      if c = inner.closer then
        eat
        skipFrom fuel .done outer
      else if c = ',' then
        eat
        skipKey inner
        skipFrom fuel .value (inner :: outer)
      else failNext inner.noComma

/-- Passes over a value. No byte takes more than two steps. -/
def skipValue : Scan Unit := do skipFrom (2 * (← steps)) .value []

/-! ## Other forms -/

/-- The fault of a value that has another form than the expected one. A number, a word or a string
is read first. -/
def mismatch {α : Type} (expected : String) : Scan α := do
  let wrong := fun (found : Found) => failForm (.wrongType found expected)
  match ← peek with
  | some 'n' =>
    word "null"
    wrong .null
  | some 't' =>
    word "true"
    wrong (.bool true)
  | some 'f' =>
    word "false"
    wrong (.bool false)
  | some '"' => do wrong (.string (← string))
  | some '[' => wrong .list
  | some '\x7b' => wrong .object
  | some c => if c = '-' || c.isDigit then do wrong (.number (← number)) else failNext .noValue
  | none => failNext .noValue

/-- Reads a whole text. -/
def readAll {α : Type} (a : Scan α) (text : String) : Except ScanFault α :=
  match (a <* endText).run { bytes := text.toUTF8 } with
  | .ok x _ => .ok x
  | .error e _ => .error e

end Scan

end GridNet
