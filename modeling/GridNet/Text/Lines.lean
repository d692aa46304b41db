import GridNet.Text.Blank

/-!
# Lines

A line ends with a newline, which may have one carriage return in front of it. What follows the last
newline is a line of its own unless it is empty.

* `Text.pieces` — a text cut behind each newline.
* `Text.lines` — the lines of a text, without their endings.
-/

namespace GridNet.Text

/-- The characters up to and including each newline, and what follows the last one. -/
def pieces (cs : List Char) : List (List Char) :=
  cs.foldr
    (fun c lines =>
      if c = '\n' then [c] :: lines
      else
        match lines with
        | [] => [[c]]
        | line :: rest => (c :: line) :: rest)
    []

/-- A line without one carriage return at its end. -/
def dropReturn (line : List Char) : List Char :=
  if line.getLast? = some '\r' then line.dropLast else line

/-- A piece without its newline and the carriage return in front of that. -/
def dropEnding (piece : List Char) : List Char :=
  if piece.getLast? = some '\n' then dropReturn piece.dropLast else piece

/-- The lines of a text. -/
def lines (cs : List Char) : List (List Char) := (pieces cs).map dropEnding

end GridNet.Text
