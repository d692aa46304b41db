import GridNet.Text.Shape

/-!
# Text made visible

A text that is quoted in a message is written so that it can be read off: quotes, backslashes and
line ends are escaped, and so is every character that has no shape of its own.

* `Text.visibleChar` — a character.
* `Text.visible` — a text between double quotes.
-/

namespace GridNet.Text

/-- A character as it is shown; `quotes` are escaped by a backslash. -/
def visibleChar (quotes : List Char) (c : Char) : String :=
  match c with
  | '\x00' => "\\0"
  | '\t' => "\\t"
  | '\n' => "\\n"
  | '\r' => "\\r"
  | '\\' => "\\\\"
  | c =>
    if quotes.contains c then "\\" ++ c.toString
    else if isShapeless c then
      "\\u\x7b" ++ String.ofList (Nat.toDigits 16 c.toNat) ++ "\x7d"
    else c.toString

/-- A text between double quotes. -/
def visible (s : String) : String :=
  "\"" ++ String.join (s.toList.map (visibleChar ['"'])) ++ "\""

end GridNet.Text
