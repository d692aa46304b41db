import GridNet.CommandLine.Invocation
import GridNet.Settings.Environment

/-!
# Flags over settings

What a command line says takes the place of what the settings file says. For calibration the
environment stands between the two: it is put in first, so that a flag wins over a variable and a
variable over the file.

* `GeneralFlags.override`, `ModelFlags.override`, `DetectFlags.override`.
* `CalibrateFlags.override` — can fail, because a variable can be unreadable.
-/

namespace GridNet.CommandLine

/-- The level of detail that is asked for, if it is not blank. -/
def GeneralFlags.level? (f : GeneralFlags) : Option String :=
  (f.level.map fun level => Text.lower (Text.trim level)).filter (· != "")

/-- Telemetry as the flags ask for it. The level `off` also turns it off. -/
def GeneralFlags.override (f : GeneralFlags) (t : TelemetrySettings) : TelemetrySettings :=
  let enabled := t.enabled || f.telemetry
  match f.level? with
  | none => { t with enabled }
  | some level => { enabled := enabled && level != "off", level }

/-- The model that the flags ask for. -/
def ModelFlags.override (f : ModelFlags) (m : ModelSettings) : ModelSettings :=
  { cfgPath := f.cfg.or m.cfgPath
    weightsPath := f.weights.or m.weightsPath
    batchSize := f.batchSize.or m.batchSize }

/-- Detection as the flags ask for it. -/
def DetectFlags.override (f : DetectFlags) (s : Settings) : Settings :=
  { s with
    model := f.model.override s.model
    detection := { s.detection with
      scoreThreshold := f.scoreThreshold.getD s.detection.scoreThreshold
      boxFormat := f.boxFormat.getD s.detection.boxFormat } }

/-- Calibration settings with the environment put in. -/
def withEnvironment (e : Environment) (c : CalibrationSettings) : Outcome CalibrationSettings :=
  match CalibrationSettings.override e c with
  | .ok _ after => .ok after
  | .error f _ => .error f

/-- The size of a batch that calibration is asked to have. -/
def CalibrateFlags.batchSize? (f : CalibrateFlags) : Outcome (Option Nat) :=
  match f.model.batchSize with
  | none => .ok none
  | some size => do
    ensure (0 < size) "--batch-size must be positive"
    return some size

/-- Calibration as the environment and the flags ask for it. -/
def CalibrateFlags.override (e : Environment) (f : CalibrateFlags) (s : Settings) :
    Outcome Settings := do
  let c ← withEnvironment e s.calibration
  let batchSize ← f.batchSize?
  return { s with
    model := f.model.override s.model
    calibration := { c with
      imageList := f.images.or c.imageList
      cachePath := f.cache.getD c.cachePath
      batchSize := batchSize.getD c.batchSize
      useCache := c.useCache && !f.noCache } }

end GridNet.CommandLine
