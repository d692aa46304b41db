import GridNet.Failure
import GridNet.Files.Path

/-!
# Programs that use files

What the library does with files is written down as a `FileProgram`: a tree of requests to a file
system, each with a continuation for every reply. Nothing happens until a program is run, on a pure
`Store` or on a real file system.

* `FileRequest` — the seven requests, and what each is answered with.
* `FileAction` — a program that ends in an outcome.
* `FileAction.readText` … — one request each, failures put into a chain of causes.
-/

namespace GridNet

/-- What stands at a path. -/
inductive FileKind
  | file
  | directory
  /-- neither: a device, a link that leads nowhere -/
  | other
deriving DecidableEq

/-- A **request** to a file system. -/
inductive FileRequest
  /-- the bytes of a file -/
  | read (path : String)
  /-- replaces the bytes of a file, or makes a new one -/
  | write (path : String) (bytes : ByteArray)
  /-- makes a directory and those above it, as far as they are missing -/
  | makeDirectories (path : String)
  /-- what stands at a path, if anything -/
  | look (path : String)
  /-- the absolute path without any detour -/
  | resolve (path : String)
  /-- all files below a directory, each by its parts from there -/
  | filesBelow (path : String)
  /-- the current directory -/
  | here

/-- The type of the **reply** to a request. -/
abbrev FileRequest.Reply : FileRequest → Type
  | read _ => Except SystemFault ByteArray
  | write _ _ => Except SystemFault Unit
  | makeDirectories _ => Except SystemFault Unit
  | look _ => Option FileKind
  | resolve _ => Except SystemFault String
  | filesBelow _ => List (List String)
  | here => String

/-- A **program** over a file system. -/
inductive FileProgram (α : Type) : Type
  | done (value : α)
  | ask (request : FileRequest) (next : request.Reply → FileProgram α)

namespace FileProgram

/-- One program after the other. -/
def andThen {α β : Type} : FileProgram α → (α → FileProgram β) → FileProgram β
  | done value, f => f value
  | ask request next, f => ask request fun reply => (next reply).andThen f

instance : Monad FileProgram where
  pure := done
  bind := andThen

/-- A single request. -/
def request (r : FileRequest) : FileProgram r.Reply := ask r done

end FileProgram

/-- A program that ends in a value or a failure. -/
abbrev FileAction (α : Type) := ExceptT Failure FileProgram α

namespace FileAction

/-- An outcome that needs no file. -/
def lift {α : Type} (r : Outcome α) : FileAction α := ExceptT.mk (.done r)

/-- A reply as it is. -/
def reply (r : FileRequest) : FileAction r.Reply := ExceptT.lift (FileProgram.request r)

/-- A reply that may be a fault of the system. -/
def orFault {α : Type} (r : Except SystemFault α) : FileAction α :=
  lift (r.mapError Failure.ofSystem)

/-- The action, with a failure put into the context of what was being done. -/
def within {α : Type} (text : String) (a : FileAction α) : FileAction α :=
  ExceptT.mk do return inContext text (← a.run)

/-- The outcome of an action, as a value. -/
def outcome {α : Type} (a : FileAction α) : FileAction (Outcome α) :=
  ExceptT.lift a.run

/-- Fails with the given statement unless the condition holds. -/
def check (condition : Bool) (text : String) : FileAction Unit := lift (ensure condition text)

/-- The bytes of a file. -/
def readBytes (path : String) : FileAction ByteArray := do orFault (← reply (.read path))

/-- The text of a file. -/
def readText (path : String) : FileAction String := do
  match String.fromUTF8? (← readBytes path) with
  | some text => return text
  | none => throw (.ofSystem .notText)

/-- Replaces the bytes of a file. -/
def writeBytes (path : String) (bytes : ByteArray) : FileAction Unit := do
  orFault (← reply (.write path bytes))

/-- Replaces the text of a file. -/
def writeText (path : String) (text : String) : FileAction Unit := writeBytes path text.toUTF8

/-- Makes a directory and those above it. The empty path names the current one, which is there. -/
def makeDirectories (path : String) : FileAction Unit :=
  if path = "" then pure () else do orFault (← reply (.makeDirectories path))

/-- What stands at a path. -/
def look (path : String) : FileAction (Option FileKind) := reply (.look path)

/-- Something stands at a path. -/
def present (path : String) : FileAction Bool := do return (← look path).isSome

/-- The absolute path of something that has to be there. -/
def resolve (path : String) : FileAction String := do
  check (← present path) s!"path does not exist: {path}"
  orFault (← reply (.resolve path))

/-- All files below a directory, each by its parts from there. -/
def filesBelow (path : String) : FileAction (List (List String)) := reply (.filesBelow path)

/-- The current directory. -/
def here : FileAction String := reply .here

end FileAction

end GridNet
