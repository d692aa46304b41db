import GridNet.Calibration.Run
import GridNet.CommandLine.Ending
import GridNet.CommandLine.Overrides
import GridNet.CommandLine.Tables
import GridNet.Detection.Files
import GridNet.Detection.Outline
import GridNet.Model.Load
import GridNet.Settings.File

/-!
# Running a command line

Settings are loaded first, flags are put over them, and then the task is done. What a task prints is
what its action returns: nothing is printed before the end.

* `Invocation.run` — a task over files.
* `runCommandLine` — from the words to the end of the run.
-/

namespace GridNet.CommandLine

/-! ## Settings and models -/

/-- The default place of the settings, seen from the current directory. -/
def defaultSettings : String := "config/darknet.json"

/-- Loads the settings of a file that has to be there, or those at the default place if
there are any. -/
def loadSettings : Option String → FileAction Settings
  | some path => do Settings.load (← FileAction.resolve path)
  | none => do
    let path := Path.join (← FileAction.here) defaultSettings
    if ← FileAction.present path then
      (Settings.load path).within s!"failed to load default settings from {path}"
    else return {}

/-- A setting that has to be given. -/
def required {α : Type} (x : Option α) (complaint : String) : FileAction α :=
  FileAction.lift (x.elim (.error (.note complaint)) .ok)

/-- Loads the model of the settings. Both files have to be named before either is looked for. -/
def loadModel (m : ModelSettings) : FileAction Model := do
  let cfg ← required m.cfgPath
    "no cfg file given (use --cfg or model.cfg_path in the settings file)"
  let weights ← required m.weightsPath
    "no weights file given (use --weights or model.weights_path in the settings file)"
  let cfg ← FileAction.resolve cfg
  let weights ← FileAction.resolve weights
  Model.load cfg weights m.batchSize

/-- A JSON value as a text to be printed. -/
def printed (j : Json) : String := j.pretty ++ "\n"

/-! ## Inspecting -/

/-- Builds a network and tells its layers. -/
def InspectFlags.run (f : InspectFlags) (s : Settings) : FileAction String := do
  let m ← loadModel (f.model.override s.model)
  return if f.json then printed m.report else m.tableText

/-! ## Detecting -/

/-- The value of an action, or nothing if it failed for a reason. A breakdown remains one. -/
def unlessFailed {α : Type} (a : FileAction α) : FileAction (Option α) := do
  match ← a.outcome with
  | .ok x => return some x
  | .error .brokenDown => throw .brokenDown
  | .error (.because _) => return none

/-- Makes the directory for outlined pictures. -/
def prepareDirectory (path : String) : FileAction String := do
  (FileAction.makeDirectories path).within s!"failed to create annotation directory {path}"
  FileAction.resolve path

/-- What there is to say about one picture; nothing if it cannot be read or run. -/
def inspectPicture (d : Detector) (directory : Option String) (path : String) :
    FileAction (Option PictureReport) := do
  match ← unlessFailed (d.detectFile path) with
  | none => return none
  | some found =>
    let outlined ←
      match directory with
      | none => pure none
      | some directory => unlessFailed (annotate path found.projected directory)
    return some { image := path, detections := found.projected, outlined }

/-- Writes a value into a file and prints nothing, or prints it. -/
def emit (j : Json) : Option String → FileAction String
  | none => return printed j
  | some path => do
    let directory := Path.parent path
    (FileAction.makeDirectories directory).within s!"failed to create directory {directory}"
    (FileAction.writeText path j.pretty).within s!"failed to create {path}"
    return ""

/-- The detector that the flags and the settings ask for. -/
def DetectFlags.detector (f : DetectFlags) (s : Settings) (m : Model) : Detector :=
  let d := Detector.ofModel m s.detection.thresholds s.detection.boxFormat
  { d with format := { d.format with fit := f.fit.getD d.format.fit } }

/-- Detects in all pictures at a path. -/
def DetectFlags.run (f : DetectFlags) (input : String) (s : Settings) : FileAction String := do
  let s := f.override s
  let input ← FileAction.resolve input
  let directory ← f.outlined.mapM prepareDirectory
  let detector := f.detector s (← loadModel s.model)
  let images ← findImages input
  FileAction.check (!images.isEmpty)
    s!"no images found at {input} (supported extensions: jpg, jpeg, png, bmp, webp)"
  let reports ← images.filterMapM (inspectPicture detector directory)
  FileAction.check (!reports.isEmpty) "all detections failed; cannot produce output"
  emit (.array (reports.map PictureReport.toJson)) f.json

/-! ## Calibrating -/

/-- Calibrates a model. Its batch is the one that calibration is fed with. -/
def CalibrateFlags.run (e : Environment) (f : CalibrateFlags) (s : Settings) :
    FileAction String := do
  let s ← FileAction.lift (f.override e s)
  let m ← loadModel { s.model with batchSize := some s.calibration.batchSize }
  let i := m.blueprint.input
  let feeder ← Feeder.ofSettingsExact s.calibration ⟨i.channels, i.height, i.width⟩
  let report ← (calibrate m).startAt feeder
  return printed report.toJson

/-! ## Command lines -/

/-- Does what was asked for, and returns what is to be printed. -/
def Invocation.run (e : Environment) (i : Invocation) : FileAction String := do
  let s ← loadSettings i.general.config
  let s := { s with telemetry := i.general.override s.telemetry }
  match i.task with
  | .inspect f => f.run s
  | .detect input f => f.run input s
  | .calibrate f => f.run e s

/-- Runs the words of a command line. -/
def runCommandLine (e : Environment) (words : List String) : FileProgram Ending :=
  match Invocation.read words with
  | .error halt => .done halt.ending
  | .ok i => do return .ofOutcome (← (i.run e).run)

end GridNet.CommandLine
