import GridNet.Calibration.Feeder
import GridNet.Calibration.Ranges
import GridNet.Json.Value
import GridNet.Model.Basic

/-!
# Calibrating a model

All batches of a feeder run through a model, and the ranges of all tensors are written down as a
table. A table that exists already takes the place of the whole run.

* `calibrate` — the run; the table is written only at its very end.
-/

namespace GridNet

/-- What a **calibration** came to. -/
structure CalibrationReport where
  /-- an earlier table was used -/
  reusedCache : Bool
  batches : Nat
  /-- tensors in the table -/
  tensors : Nat
  cacheBytes : Nat
deriving DecidableEq

/-- A report as it is printed. -/
def CalibrationReport.toJson (r : CalibrationReport) : Json :=
  .object [("reused_cache", .bool r.reusedCache), ("batches", .nat r.batches),
    ("tensors", .nat r.tensors), ("cache_bytes", .nat r.cacheBytes)]

namespace Calibration

/-- The ranges, with those of one more batch. -/
def recordBatch (m : Model) (ranges : Ranges) (batch : Array Scalar) : Outcome Ranges := do
  let input ←
    match Tensor.ofArray? m.inputDims batch with
    | some t => pure t
    | none => throw (.note "calibration batch does not match the network input")
  let run := m.run input
  let _ ← run.outputs
  return run.observations.foldl Ranges.record ranges

/-- Runs all further batches. Returns their number and all ranges. -/
def runBatches (m : Model) : (fuel batches : Nat) → Ranges → Feeding (Nat × Ranges)
  | 0, batches, ranges => return (batches, ranges)
  | fuel + 1, batches, ranges => do
    match ← Feeder.nextBatch [inputName] with
    | none => return (batches, ranges)
    | some batch =>
      let ranges ← Feeding.lift (FileAction.lift (recordBatch m ranges batch))
      runBatches m fuel (batches + 1) ranges

/-- Runs a model over all batches and writes the table. A batch takes one picture at least, which
bounds their number. -/
def measure (m : Model) : Feeding CalibrationReport := do
  let f ← get
  let batch := m.blueprint.input.batch
  Feeding.lift <| FileAction.check (batch = f.batchSize)
    s!"model batch {batch} differs from calibration batch {f.batchSize}"
  let (batches, ranges) ← runBatches m (f.images.length + 1) 0 .empty
  Feeding.lift <| FileAction.check (0 < batches)
    s!"calibration image list is shorter than one batch of {f.batchSize}"
  let table := ranges.table.toUTF8
  Feeder.writeCache table
  return { reusedCache := false, batches, tensors := ranges.size, cacheBytes := table.size }

end Calibration

/-- Calibrates a model. -/
def calibrate (m : Model) : Feeding CalibrationReport := do
  match ← Feeder.readCache with
  | some bytes =>
    return { reusedCache := true, batches := 0, tensors := 0, cacheBytes := bytes.size }
  | none => Calibration.measure m

end GridNet
