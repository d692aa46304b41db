import GridNet.Detection.Detector
import GridNet.Json.Value
import GridNet.Model.Basic

/-!
# What the tasks print

* `Model.tableText` — the layers of a model as a table, its heads below it, and its size at the end.
* `Model.report` — the same as one JSON value, without the heads.
* `PictureReport.toJson` — what was detected in one picture.
-/

namespace GridNet

/-! ## Tables -/

/-- A text moved to the right end of a column. -/
def padLeft (width : Nat) (text : String) : String :=
  "".pushn ' ' (width - text.length) ++ text

/-- A text at the left end of a column. -/
def padRight (width : Nat) (text : String) : String :=
  text.pushn ' ' (width - text.length)

/-- Extents as they stand in a table. -/
def extentText (dims : List Nat) : String := "x".intercalate (dims.map toString)

/-- One line of the table of layers. -/
def tableLine (index label input arrow output weights : String) : String :=
  padLeft 4 index ++ " " ++ padRight 28 label ++ " " ++ padLeft 16 input ++ arrow ++
    padRight 16 output ++ " " ++ padLeft 10 weights ++ "\n"

/-- A layer's line. -/
def LayerRow.line (r : LayerRow) : String :=
  tableLine (toString r.index) r.label (extentText r.input) " -> " (extentText r.output)
    (toString r.weightsTaken)

/-- A head's line. -/
def Head.line (h : Head) : String :=
  s!"{h.name}: {h.kind.name} grid {h.gridWidth}x{h.gridHeight}, {h.boxes} boxes, " ++
    s!"{h.classes} classes\n"

/-- The layers of a model, its heads, and its size. -/
def Model.tableText (m : Model) : String :=
  tableLine "#" "layer" "input" "    " "output" "weights" ++
    String.join (m.built.table.map LayerRow.line) ++
    String.join (m.built.heads.map Head.line) ++
    s!"{m.graph.nodes.size} nodes, {m.graph.parameterCount} parameters, " ++
    s!"{m.built.weightsTaken} weights consumed, {m.built.outputRows} output rows\n"

/-! ## JSON -/

/-- Extents as a JSON value. -/
def extentJson (dims : List Nat) : Json := .array (dims.map Json.nat)

/-- A row of the table of layers as a JSON value. -/
def LayerRow.toJson (r : LayerRow) : Json :=
  .object [("index", .nat r.index), ("label", .text r.label), ("input_shape", extentJson r.input),
    ("output_shape", extentJson r.output), ("weight_ptr", .nat r.weightsTaken)]

/-- The layers of a model and its size. -/
def Model.report (m : Model) : Json :=
  .object [("model", .text m.blueprint.name), ("input", extentJson m.inputDims),
    ("nodes", .nat m.graph.nodes.size), ("parameters", .nat m.graph.parameterCount),
    ("weights", .nat m.built.weightsTaken), ("output_rows", .nat m.built.outputRows),
    ("layers", .array (m.built.table.map LayerRow.toJson))]

/-- A candidate as a JSON value. -/
def Candidate.toJson (c : Candidate) : Json :=
  .object [("class_id", .nat c.classId), ("confidence", .scalar c.confidence),
    ("bbox", .array ([c.left, c.top, c.width, c.height].map Json.scalar))]

/-- What there is to say about **one picture**. -/
structure PictureReport where
  /-- the path of the picture -/
  image : String
  /-- in pixels of the picture -/
  detections : List Candidate
  /-- the path of the outlined picture, if there is one -/
  outlined : Option String
deriving DecidableEq

/-- What is said about a picture as a JSON value. -/
def PictureReport.toJson (r : PictureReport) : Json :=
  .object ([("image", .text r.image), ("detections", .array (r.detections.map Candidate.toJson))] ++
    match r.outlined with
    | some path => [("annotated", .text path)]
    | none => [])

end GridNet
