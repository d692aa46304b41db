import GridNet.Json.Value
import GridNet.Text.Hex

/-!
# Writing JSON

Two layouts. One has an item or member on each line, two spaces for each level, and `[]` and
`\x7b\x7d` for what is empty; in its strings the quote, the backslash and the control characters
below the space are escaped, and nothing else. The other one stands on a single line and has no
character beyond ASCII: all others are escaped by their units of 16 bits.

* `Json.pretty` — the text of a value, on many lines.
* `Json.compact` — the text of a value, on one.
-/

namespace GridNet.Json

/-- A character as it stands in a string. -/
def escape (c : Char) : List Char :=
  match c with
  | '"' => ['\\', '"']
  | '\\' => ['\\', '\\']
  | '\x08' => ['\\', 'b']
  | '\x0c' => ['\\', 'f']
  | '\n' => ['\\', 'n']
  | '\r' => ['\\', 'r']
  | '\t' => ['\\', 't']
  | c =>
    if c.toNat < 0x20 then
      ('\\' :: 'u' :: (Hex.ofNat 4 c.toNat).toList)
    else [c]

/-- A string between its quotes. -/
def quoted (s : String) : String :=
  "\"" ++ String.ofList (s.toList.flatMap escape) ++ "\""

/-- A new line, indented. -/
def newline (depth : Nat) : String := "\n" ++ String.ofList (List.replicate (2 * depth) ' ')

mutual

/-- The text of a value that starts at the given depth. -/
def prettyAt (depth : Nat) : Json → String
  | null => "null"
  | bool b => if b then "true" else "false"
  | number t => t
  | text s => quoted s
  | array [] => "[]"
  | array (item :: rest) =>
    "[" ++ newline (depth + 1) ++ prettyAt (depth + 1) item ++ prettyItems (depth + 1) rest ++
      newline depth ++ "]"
  | object [] => "\x7b\x7d"
  | object ((key, value) :: rest) =>
    "\x7b" ++ newline (depth + 1) ++ quoted key ++ ": " ++ prettyAt (depth + 1) value ++
      prettyMembers (depth + 1) rest ++ newline depth ++ "\x7d"

/-- Further items, each behind a comma and on a line of its own. -/
def prettyItems (depth : Nat) : List Json → String
  | [] => ""
  | item :: rest => "," ++ newline depth ++ prettyAt depth item ++ prettyItems depth rest

/-- Further members, each behind a comma and on a line of its own. -/
def prettyMembers (depth : Nat) : List (String × Json) → String
  | [] => ""
  | (key, value) :: rest =>
    "," ++ newline depth ++ quoted key ++ ": " ++ prettyAt depth value ++
      prettyMembers depth rest

end

/-- The text of a value, on many lines. -/
def pretty (j : Json) : String := prettyAt 0 j

/-! ## One line -/

/-- The escape of a unit of 16 bits. -/
def escapeUnit (n : Nat) : String := "\\u" ++ Hex.ofNat 4 n

/-- A character as it stands in a string of ASCII. -/
def escapeAscii (c : Char) : String :=
  let n := c.toNat
  if n < 0x80 then String.ofList (escape c)
  else if n < 0x10000 then escapeUnit n
  else
    let above := n - 0x10000
    escapeUnit (0xd800 + above / 0x400) ++ escapeUnit (0xdc00 + above % 0x400)

/-- A string of ASCII behind a text. -/
def appendQuoted (front s : String) : String :=
  (s.toList.foldl (fun acc c => acc ++ escapeAscii c) (front.push '"')).push '"'

mutual

/-- A value behind a text. -/
def append (front : String) : Json → String
  | null => front ++ "null"
  | bool b => front ++ (if b then "true" else "false")
  | number t => front ++ t
  | text s => appendQuoted front s
  | array [] => front ++ "[]"
  | array (item :: rest) => (appendItems (append (front.push '[') item) rest).push ']'
  | object [] => front ++ "\x7b\x7d"
  | object ((key, value) :: rest) =>
    (appendMembers (append ((appendQuoted (front.push '\x7b') key).push ':') value)
      rest).push '\x7d'

/-- Further items, each behind a comma. -/
def appendItems (front : String) : List Json → String
  | [] => front
  | item :: rest => appendItems (append (front.push ',') item) rest

/-- Further members, each behind a comma. -/
def appendMembers (front : String) : List (String × Json) → String
  | [] => front
  | (key, value) :: rest =>
    appendMembers
      (append ((appendQuoted (front.push ',') key).push ':') value) rest

end

/-- The text of a value, on one line of ASCII. -/
def compact (j : Json) : String := append "" j

end GridNet.Json
