import GridNet.CommandLine.Words
import GridNet.Decimal.Reader
import GridNet.Detection.Candidate
import GridNet.Detection.Preparation

/-!
# Invocations

A command line asks for one of three tasks: to inspect a network, to detect in pictures, or to
calibrate. The flags that every task takes may stand in front of its name or behind it; behind it
counts.

* `Invocation` — a task with all that was said about it.
* `Invocation.read` — from the words of a command line.
-/

namespace GridNet.CommandLine

/-- What is said for **every task**. -/
structure GeneralFlags where
  /-- a settings file -/
  config : Option String := none
  telemetry : Bool := false
  /-- how detailed telemetry is to be -/
  level : Option String := none
deriving DecidableEq

/-- Which **model** is meant. -/
structure ModelFlags where
  cfg : Option String := none
  weights : Option String := none
  batchSize : Option Nat := none
deriving DecidableEq

/-- What is said about an **inspection**. -/
structure InspectFlags where
  model : ModelFlags := {}
  /-- a report in place of a table -/
  json : Bool := false
deriving DecidableEq

/-- What is said about **detecting**. -/
structure DetectFlags where
  model : ModelFlags := {}
  /-- a picture, or a directory of pictures -/
  input : Option String := none
  scoreThreshold : Option Scalar := none
  boxFormat : Option BoxFormat := none
  fit : Option FitMode := none
  /-- a file for what was detected -/
  json : Option String := none
  /-- a directory for outlined pictures -/
  outlined : Option String := none
deriving DecidableEq

/-- What is said about **calibrating**. -/
structure CalibrateFlags where
  model : ModelFlags := {}
  /-- a file that lists pictures -/
  images : Option String := none
  cache : Option String := none
  noCache : Bool := false
deriving DecidableEq

/-- A **task**. -/
inductive Task
  | inspect (flags : InspectFlags)
  | detect (input : String) (flags : DetectFlags)
  | calibrate (flags : CalibrateFlags)
deriving DecidableEq

/-- A **task with the flags that every task takes**. -/
structure Invocation where
  general : GeneralFlags
  task : Task
deriving DecidableEq

/-! ## Options -/

/-- A path has at least one character. -/
def readPath (text : String) : Option String := if text = "" then none else some text

/-- A fit by its name on the command line. -/
def readFit : String → Option FitMode
  | "stretch" => some .stretch
  | "letterbox" => some .letterbox
  | "center-crop" => some .centerCrop
  | _ => none

/-- The option that shows how the program is used. -/
def helpOption {σ : Type} : CommandOption σ := .either "help" 'h' (.halt .help)

/-- The option that shows which program this is. -/
def versionOption {σ : Type} : CommandOption σ := .either "version" 'V' (.halt .version)

/-- The options of every task. -/
def GeneralFlags.options : List (CommandOption GeneralFlags) :=
  [.long "config" (.fill readPath (·.config) fun x f => { f with config := x }),
    .long "telemetry" (.raise (·.telemetry) fun f => { f with telemetry := true }),
    .long "telemetry-level" (.fill some (·.level) fun x f => { f with level := x })]

/-- The options that name a model. -/
def ModelFlags.options : List (CommandOption ModelFlags) :=
  [.long "cfg" (.fill readPath (·.cfg) fun x f => { f with cfg := x }),
    .long "weights" (.fill readPath (·.weights) fun x f => { f with weights := x }),
    .long "batch-size" (.fill (fun t => (Text.readNat t).toOption) (·.batchSize)
      fun x f => { f with batchSize := x })]

/-- The options of an inspection. -/
def InspectFlags.options : List (CommandOption InspectFlags) :=
  .long "json" (.raise (·.json) fun f => { f with json := true }) ::
    ModelFlags.options.map (·.on (·.model) fun m f => { f with model := m })

/-- The options of detecting. -/
def DetectFlags.options : List (CommandOption DetectFlags) :=
  [.either "input" 'i' (.fill readPath (·.input) fun x f => { f with input := x }),
    .long "score-threshold" (.fill Numeral.read (·.scoreThreshold)
      fun x f => { f with scoreThreshold := x }),
    .long "box-format" (.fill (fun t => (BoxFormat.read t).toOption) (·.boxFormat)
      fun x f => { f with boxFormat := x }),
    .long "resize" (.fill readFit (·.fit) fun x f => { f with fit := x }),
    .long "json" (.fill readPath (·.json) fun x f => { f with json := x }),
    .long "annotate" (.fill readPath (·.outlined) fun x f => { f with outlined := x })] ++
  ModelFlags.options.map (·.on (·.model) fun m f => { f with model := m })

/-- The options of calibrating. -/
def CalibrateFlags.options : List (CommandOption CalibrateFlags) :=
  [.long "images" (.fill readPath (·.images) fun x f => { f with images := x }),
    .long "cache" (.fill readPath (·.cache) fun x f => { f with cache := x }),
    .long "no-cache" (.raise (·.noCache) fun f => { f with noCache := true })] ++
  ModelFlags.options.map (·.on (·.model) fun m f => { f with model := m })

/-! ## Reading -/

/-- The flags of the inner part of a command line, completed by those of the outer part. -/
def GeneralFlags.orElse (inner outer : GeneralFlags) : GeneralFlags :=
  { config := inner.config.or outer.config
    telemetry := inner.telemetry || outer.telemetry
    level := inner.level.or outer.level }

/-- Reads all that stands behind the name of a task. -/
def readTask {φ : Type} (options : List (CommandOption φ)) (start : φ) (words : List String) :
    Except Halt (GeneralFlags × φ) := do
  let general := GeneralFlags.options.map (·.on Prod.fst fun g (s : GeneralFlags × φ) => (g, s.2))
  let own := options.map (·.on Prod.snd fun f (s : GeneralFlags × φ) => (s.1, f))
  match ← readOptions (helpOption :: (general ++ own)) ({}, start) words with
  | (flags, []) => return flags
  | (_, word :: _) => throw (.misuse s!"'{word}' is not expected here")

/-- Detecting needs something to look at. -/
def detectTask (flags : DetectFlags) : Except Halt Task :=
  match flags.input with
  | some input => .ok (.detect input flags)
  | none => .error (.misuse "'--input' is missing")

/-- The names of the tasks. -/
def taskNames : List String := ["inspect", "detect", "calibrate"]

/-- What a request for help leads to: help is there for the whole program, for each task, and for
itself. -/
def helpOn : List String → Halt
  | [] => .help
  | [name] =>
    if name = "help" || taskNames.contains name then .help
    else .misuse s!"there is no task '{name}'"
  | _ => .misuse "help is given on one task at a time"

/-- Reads the name of a task and all that stands behind it. -/
def readNamedTask (name : String) (words : List String) : Except Halt (GeneralFlags × Task) :=
  match name with
  | "inspect" => do
    let (general, flags) ← readTask InspectFlags.options {} words
    return (general, .inspect flags)
  | "detect" => do
    let (general, flags) ← readTask DetectFlags.options {} words
    return (general, ← detectTask flags)
  | "calibrate" => do
    let (general, flags) ← readTask CalibrateFlags.options {} words
    return (general, .calibrate flags)
  | "help" => throw (helpOn words)
  | other => throw (.misuse s!"there is no task '{other}'")

/-- Reads the words of a command line. -/
def Invocation.read (words : List String) : Except Halt Invocation := do
  match ← readOptions (helpOption :: versionOption :: GeneralFlags.options) {} words with
  | (_, []) => throw (.misuse "a task is missing")
  | (outer, name :: rest) =>
    let (inner, task) ← readNamedTask name rest
    return { general := inner.orElse outer, task }

end GridNet.CommandLine
