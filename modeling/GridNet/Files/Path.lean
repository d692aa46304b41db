import GridNet.Text.Blank

/-!
# Paths

A path is a text of steps between slashes: names, a single dot for staying where one is, and two
dots for going up. What a path says about a file does not depend on the single dots, so that the
other steps are its parts.

* `Path.steps`, `Path.parts`.
* `Path.fileName?`, `Path.stem?`, `Path.extension?` — what the last part says about a file.
* `Path.join` — a path below another one.
-/

namespace GridNet.Path

/-- The steps of a path. -/
def steps (path : String) : List String :=
  ((Text.splitBy (· = '/') path.toList).map String.ofList).filter (· != "")

/-- The parts of a path: its steps, single dots left out. -/
def parts (path : String) : List String := (steps path).filter (· != ".")

/-- The path starts at the root. -/
def isAbsolute (path : String) : Bool := path.toList.head? = some '/'

/-- The path ends in a slash. -/
def hasTrailingSlash (path : String) : Bool := path.toList.getLast? = some '/'

/-- The last part, if it is a name. -/
def fileName? (path : String) : Option String :=
  match (parts path).getLast? with
  | some ".." => none
  | other => other

/-- A file name cut at its last dot. A dot that starts the name does not count. -/
def splitName (name : String) : String × Option String :=
  let back := name.toList.reverse
  let ending := back.takeWhile (· != '.')
  match back.dropWhile (· != '.') with
  | [] => (name, none)
  | [_] => (name, none)
  | _ :: front => (String.ofList front.reverse, some (String.ofList ending.reverse))

/-- The file name without its last ending. -/
def stem? (path : String) : Option String := (fileName? path).map fun name => (splitName name).1

/-- The last ending of the file name. -/
def extension? (path : String) : Option String :=
  (fileName? path).bind fun name => (splitName name).2

/-- A name below a directory. -/
def join (directory name : String) : String :=
  if directory = "" || hasTrailingSlash directory then directory ++ name
  else directory ++ "/" ++ name

/-- What is left of reversed characters behind the slashes at their start, and behind single dots
between slashes. -/
def dropSlashes : List Char → List Char
  | '/' :: rest => dropSlashes rest
  | '.' :: '/' :: rest => dropSlashes rest
  | cs => cs

/-- The path without its last part. -/
def parent (path : String) : String :=
  let back := dropSlashes path.toList.reverse
  let front := back.dropWhile (· != '/')
  match dropSlashes front with
  | [] => if front.isEmpty then "" else "/"
  | rest => String.ofList rest.reverse

/-- One list of parts stands in front of another: by the first part that differs, and a list in
front of its continuations. -/
def precedes : (a b : List String) → Bool
  | [], _ => true
  | _ :: _, [] => false
  | x :: xs, y :: ys => if x = y then precedes xs ys else decide (x < y)

end GridNet.Path
