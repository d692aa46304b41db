import GridNet.Failure
import GridNet.Settings.Basic
import GridNet.Text.Blank

/-!
# Calibration settings from the environment

Two variables take the place of calibration settings: one names the list of pictures, the other the
size of a batch. They are looked at in this order, and what the first one changed stays also if the
second one is at fault.

* `CalibrationSettings.override` — both, as a step that changes settings and may fail.
-/

namespace GridNet

/-- The variable that names the list of pictures. -/
def imageListVariable : String := "INT8_CALIB_IMG_PATH"

/-- The variable that holds the size of a batch. -/
def batchSizeVariable : String := "INT8_CALIB_BATCH_SIZE"

/-- The value of each variable that is set. -/
abbrev Environment := String → Option String

/-- The list of pictures that an environment asks for; a blank one asks for nothing. -/
def Environment.imageList? (e : Environment) : Option String :=
  ((e imageListVariable).map Text.trim).filter (· != "")

/-- The size of a batch that an environment asks for. -/
def Environment.batchSize? (e : Environment) : Outcome (Option Nat) :=
  match e batchSizeVariable with
  | none => .ok none
  | some raw => do
    let size ← inContext s!"{batchSizeVariable} is not an integer: '{raw}'"
      ((Text.readNat (Text.trim raw)).mapError Failure.ofInteger)
    ensure (size != 0) s!"{batchSizeVariable} must be positive"
    return some size

namespace CalibrationSettings

/-- A step that changes calibration settings. -/
abbrev Step := EStateM Failure CalibrationSettings

/-- An outcome as a step that changes nothing. -/
def Step.lift {α : Type} (r : Outcome α) : Step α := fun s =>
  match r with
  | .ok x => .ok x s
  | .error f => .error f s

/-- Puts in what the environment asks for. -/
def override (e : Environment) : Step Unit := do
  match e.imageList? with
  | some list => modify fun s => { s with imageList := some list }
  | none => pure ()
  match ← Step.lift e.batchSize? with
  | some size => modify fun s => { s with batchSize := size }
  | none => pure ()

end CalibrationSettings

end GridNet
