import GridNet.Detection.Candidate
import GridNet.Settings.Form

/-!
# Settings

What a settings file can fix: the model, the thresholds of detection, the inputs of calibration, and
what is said about timing. Everything has a default, so a file need only name what differs.

* `Settings` — the four sections.
* `Settings.form` — how they stand in a file.
-/

namespace GridNet

/-- Where the **model** is. -/
structure ModelSettings where
  cfgPath : Option String := none
  weightsPath : Option String := none
  /-- takes the place of the description's own batch -/
  batchSize : Option Nat := none
deriving DecidableEq

/-- How rows become **candidates**. -/
structure DetectionSettings where
  scoreThreshold : Scalar := .ratio 1 4
  /-- for single classes, by number -/
  classThresholds : List Scalar := []
  boxFormat : BoxFormat := .center
deriving DecidableEq

/-- The thresholds that the settings ask for. -/
def DetectionSettings.thresholds (d : DetectionSettings) : Thresholds :=
  { fallback := d.scoreThreshold, perClass := d.classThresholds }

/-- What **calibration** is fed with. -/
structure CalibrationSettings where
  /-- a file that lists pictures -/
  imageList : Option String := none
  cachePath : String := "calib.table"
  batchSize : Nat := 1
  scaleFactor : Scalar := .ratio 1 255
  /-- for red, green and blue -/
  offsets : List Scalar := [.zero, .zero, .zero]
  /-- a cache that exists takes the place of the pictures -/
  useCache : Bool := true
deriving DecidableEq

/-- What is said about **timing**. -/
structure TelemetrySettings where
  enabled : Bool := false
  level : String := "debug"
deriving DecidableEq

/-- All **settings**. -/
structure Settings where
  model : ModelSettings := {}
  detection : DetectionSettings := {}
  calibration : CalibrationSettings := {}
  telemetry : TelemetrySettings := {}
deriving DecidableEq

/-- The form of the model section. -/
def ModelSettings.form : Form ModelSettings :=
  .record "ModelSettings"
    [.of "cfg_path" (.optional .text) (·.cfgPath) (fun x s => { s with cfgPath := x }),
      .of "weights_path" (.optional .text) (·.weightsPath) (fun x s => { s with weightsPath := x }),
      .of "batch_size" (.optional .count) (·.batchSize) (fun x s => { s with batchSize := x })]
    {}

/-- The form of the detection section. -/
def DetectionSettings.form : Form DetectionSettings :=
  .record "DetectionSettings"
    [.of "score_threshold" .scalar (·.scoreThreshold) (fun x s => { s with scoreThreshold := x }),
      .of "class_thresholds" (.list .scalar) (·.classThresholds)
        (fun x s => { s with classThresholds := x }),
      .of "box_format" (.choice [BoxFormat.center, .corner] BoxFormat.name) (·.boxFormat)
        (fun x s => { s with boxFormat := x })]
    {}

/-- The form of the calibration section. -/
def CalibrationSettings.form : Form CalibrationSettings :=
  .record "CalibrationSettings"
    [.of "image_list" (.optional .text) (·.imageList) (fun x s => { s with imageList := x }),
      .of "cache_path" .text (·.cachePath) (fun x s => { s with cachePath := x }),
      .of "batch_size" .count (·.batchSize) (fun x s => { s with batchSize := x }),
      .of "scale_factor" .scalar (·.scaleFactor) (fun x s => { s with scaleFactor := x }),
      .of "offsets" (.listOf 3 .scalar) (·.offsets) (fun x s => { s with offsets := x }),
      .of "use_cache" .flag (·.useCache) (fun x s => { s with useCache := x })]
    {}

/-- The form of the telemetry section. -/
def TelemetrySettings.form : Form TelemetrySettings :=
  .record "TelemetrySettings"
    [.of "enabled" .flag (·.enabled) (fun x s => { s with enabled := x }),
      .of "level" .text (·.level) (fun x s => { s with level := x })]
    {}

/-- The form of all settings. -/
def Settings.form : Form Settings :=
  .record "AppSettings"
    [.of "model" ModelSettings.form (·.model) (fun x s => { s with model := x }),
      .of "detection" DetectionSettings.form (·.detection) (fun x s => { s with detection := x }),
      .of "calibration" CalibrationSettings.form (·.calibration)
        (fun x s => { s with calibration := x }),
      .of "telemetry" TelemetrySettings.form (·.telemetry)
        (fun x s => { s with telemetry := x })]
    {}

end GridNet
