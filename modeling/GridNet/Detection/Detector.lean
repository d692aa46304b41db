import GridNet.Detection.Candidate
import GridNet.Detection.Preparation
import GridNet.Model.Basic

/-!
# Detecting

A detector runs a compiled network on pictures, as many at once as the network's batch holds, and
turns each picture's rows into candidates.

* `Detector.detectAll` — any number of pictures, in order.
* `Candidate.project` — a candidate on the picture it came from.
-/

namespace GridNet

/-- What was **detected in one picture**. -/
structure Detections where
  /-- in pixels of the network's input -/
  candidates : List Candidate
  /-- the same in pixels of the picture -/
  projected : List Candidate
  source : Size
deriving DecidableEq

/-- The candidate on the picture, cut to its bounds. -/
def Candidate.project (c : Candidate) (m : CoordinateMap) : Candidate :=
  let width := Scalar.ofNat m.source.width
  let height := Scalar.ofNat m.source.height
  let (left, top) := m.toSource c.left c.top
  let (right, bottom) := m.toSource (c.left + c.width) (c.top + c.height)
  let left := left.clamp .zero width
  let top := top.clamp .zero height
  { c with
    left, top
    width := (right.clamp .zero width - left).positivePart
    height := (bottom.clamp .zero height - top).positivePart }

/-- A list cut into runs of `n` elements, or of one if `n` is zero; the last run may be shorter. -/
def chunksOf {α : Type} (n : Nat) : List α → List (List α)
  | [] => []
  | x :: xs => (x :: xs.take (n - 1)) :: chunksOf n (xs.drop (n - 1))
termination_by xs => xs.length
decreasing_by
  simp only [List.length_drop, List.length_cons]
  omega

/-- A **detector**. -/
structure Detector where
  model : Model
  format : InputFormat
  thresholds : Thresholds
  boxFormat : BoxFormat

namespace Detector

/-- A detector that prepares pictures as the network's description asks. -/
def ofModel (model : Model) (thresholds : Thresholds) (boxFormat : BoxFormat) : Detector :=
  { model, thresholds, boxFormat, format := .ofGeometry model.blueprint.input }

/-- What was detected in picture number `index` of a batch. -/
def detections (d : Detector) (boxes scores classes : Tensor) (index : Nat) (m : CoordinateMap) :
    Outcome Detections := do
  let rows ← RawRow.ofOutputs boxes scores classes index
  let candidates := Candidate.ofRows d.thresholds d.format.size d.boxFormat rows
  return { candidates, projected := candidates.map (·.project m), source := m.source }

/-- Runs one prepared batch. -/
def runBatch (d : Detector) (b : PreparedBatch) : Outcome (List Detections) := do
  let outputs ← (d.model.run b.tensor).outputs
  let boxes ← requireOutput outputs "boxes"
  let scores ← requireOutput outputs "scores"
  let classes ← requireOutput outputs "classes"
  ((List.range b.maps.length).zip b.maps).mapM fun (index, m) =>
    d.detections boxes scores classes index m

/-- Prepares and runs at most one batch of pictures. -/
def detectChunk (d : Detector) (pictures : List Picture) : Outcome (List Detections) := do
  d.runBatch (← PreparedBatch.ofPictures d.model.blueprint.input.batch d.format pictures)

/-- What is detected in each of the pictures. -/
def detectAll (d : Detector) (pictures : List Picture) : Outcome (List Detections) := do
  ensure d.model.built.isDecoded
    s!"model '{d.model.blueprint.name}' has no [yolo] or [region] block to decode"
  let results ← (chunksOf d.model.blueprint.input.batch pictures).mapM d.detectChunk
  return results.flatten

/-- What is detected in one picture. -/
def detect (d : Detector) (picture : Picture) : Outcome Detections := do
  match (← d.detectAll [picture]).getLast? with
  | some r => return r
  | none => throw (.note "detector produced no output")

end Detector

end GridNet
