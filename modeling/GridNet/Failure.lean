import GridNet.Text.Integer

/-!
# Failures

What can go wrong, as values. A failure carries its causes from the outermost inwards: each layer of
the program that passes one on may put a cause of its own in front.

* `Defect` — the ways in which a network description or its weights can be at fault.
* `SystemFault` — the ways in which a file can refuse itself.
* `Failure` — a chain of causes, or a computation that broke down without a cause to give.
* `Outcome` — a value or a failure.
-/

namespace GridNet

/-- A **defect** of a network description or of its weights. Blocks are counted from the leading
network block, which is block 0. -/
inductive Defect
  /-- a line of a description that is neither skipped nor a header nor an assignment, or stands
  where it may not -/
  | malformedLine (line : Nat) (reason : String)
  /-- a field that has to be assigned and is not -/
  | missingField (block : Nat) (kind field : String)
  /-- a field with a value it cannot have -/
  | invalidField (block : Nat) (kind field value : String)
  /-- a block that names no known layer -/
  | unsupportedLayer (block : Nat) (kind : String)
  /-- a block that names no known activation -/
  | unsupportedActivation (block : Nat) (name : String)
  /-- a reference to a layer that has not been built -/
  | referenceOutOfRange (block : Nat) (reference : Int) (available : Nat)
  /-- fewer weights than a layer needs -/
  | weightsExhausted (block requested position total : Nat)
  /-- more weights than the network needs -/
  | weightsUnused (consumed total : Nat)
  /-- detection heads that were announced and not built, or built and not announced -/
  | headCount (expected found : Nat)
  /-- a weight payload that ends inside a number -/
  | raggedPayload (bytes : Nat)
deriving DecidableEq

/-- The wording of a defect. -/
def Defect.message : Defect → String
  | malformedLine line reason => s!"cfg line {line}: {reason}"
  | missingField block kind field =>
    s!"block {block} ({kind}) is missing required field '{field}'"
  | invalidField block kind field value =>
    s!"block {block} ({kind}): invalid value '{value}' for '{field}'"
  | unsupportedLayer block kind => s!"block {block}: unsupported layer type '{kind}'"
  | unsupportedActivation block name => s!"block {block}: unsupported activation '{name}'"
  | referenceOutOfRange block reference available =>
    s!"block {block}: layer reference {reference} is out of range ({available} layers built)"
  | weightsExhausted block requested position total =>
    s!"block {block}: weights exhausted (need {requested} floats at offset {position}, " ++
      s!"file holds {total})"
  | weightsUnused consumed total =>
    s!"weights file has {total - consumed} unused floats (consumed {consumed} of {total})"
  | headCount expected found => s!"expected {expected} detection heads but built {found}"
  | raggedPayload bytes => s!"weights payload of {bytes} bytes is not a whole number of floats"

/-- A **fault of the file system**. -/
inductive SystemFault
  | notFound
  | notDirectory
  | isDirectory
  | alreadyExists
  | nameTooLong
  /-- a path with a zero character -/
  | zeroInPath
  | notText
  /-- any other one, as the system words it -/
  | other (text : String)
deriving DecidableEq

/-- The wording of a fault of the file system. -/
def SystemFault.message : SystemFault → String
  | notFound => "No such file or directory (os error 2)"
  | notDirectory => "Not a directory (os error 20)"
  | isDirectory => "Is a directory (os error 21)"
  | alreadyExists => "File exists (os error 17)"
  | nameTooLong => "File name too long (os error 36)"
  | zeroInPath => "file name contained an unexpected NUL byte"
  | notText => "stream did not contain valid UTF-8"
  | other text => text

/-- One **cause** in a chain. -/
inductive Cause
  | defect (d : Defect)
  | system (f : SystemFault)
  /-- an integer that cannot be read -/
  | integer (f : Text.IntegerFault)
  /-- a statement of what went wrong, or of what was being done when it did -/
  | note (text : String)
deriving DecidableEq

/-- The wording of a cause. -/
def Cause.message : Cause → String
  | defect d => d.message
  | system f => f.message
  | integer f => f.message
  | note text => text

/-- A **failure**. -/
inductive Failure
  /-- the causes, the outermost first -/
  | because (causes : List Cause)
  /-- an index outside its array, a division by zero, a size that is no word: the computation ends
  with nothing to report -/
  | brokenDown
deriving DecidableEq

/-- A value, or the failure to produce one. -/
abbrev Outcome (α : Type) := Except Failure α

namespace Failure

/-- The causes of a failure, the outermost first. -/
def causes : Failure → List Cause
  | because cs => cs
  | brokenDown => []

/-- A failure with one stated cause. -/
def note (text : String) : Failure := because [.note text]

/-- A failure with one defect as its cause. -/
def ofDefect (d : Defect) : Failure := because [.defect d]

/-- A failure with one fault of the file system as its cause. -/
def ofSystem (f : SystemFault) : Failure := because [.system f]

/-- A failure with an unreadable integer as its cause. -/
def ofInteger (f : Text.IntegerFault) : Failure := because [.integer f]

/-- The same failure with a further outermost cause; a breakdown has no chain to extend. -/
def wrap (text : String) : Failure → Failure
  | because cs => because (.note text :: cs)
  | brokenDown => brokenDown

/-- The first defect in the chain. -/
def defect? (f : Failure) : Option Defect :=
  f.causes.findSome? fun
    | .defect d => some d
    | _ => none

/-- All causes in one line. -/
def message (f : Failure) : String :=
  ": ".intercalate (f.causes.map Cause.message)

/-- The outermost cause alone. -/
def headline (f : Failure) : String :=
  ((f.causes.map Cause.message).head?).getD ""

end Failure

/-- The outcome, with a failure put into the context of what was being done. -/
def inContext {α : Type} (text : String) (r : Outcome α) : Outcome α :=
  r.mapError (Failure.wrap text)

/-- Fails with the given statement unless the condition holds. -/
def ensure (condition : Bool) (text : String) : Outcome Unit :=
  if condition then .ok () else .error (.note text)

/-- Breaks down unless the condition holds. -/
def demand (condition : Bool) : Outcome Unit :=
  if condition then .ok () else .error .brokenDown

end GridNet
