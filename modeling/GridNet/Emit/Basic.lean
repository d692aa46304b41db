import GridNet.Graph.Recorder
import GridNet.Weights.Cursor

/-!
# Emitting layers

A layer is emitted as a few nodes of a graph, some of which hold weights. What is being built is a
`Draft`: the graph so far and the place in the weights. An emitter that fails leaves in the draft
what it had recorded and taken until then.

* `Emit.record` — one call of the recorder, which changes the graph only if it succeeds.
* `Emit.take` — the next weights, which moves the cursor only if there are enough.
-/

namespace GridNet

/-- A network **under construction**. -/
structure Draft where
  graph : Graph := .empty
  cursor : WeightCursor

/-- A step of construction. -/
abbrev Emit := EStateM Failure Draft

namespace Emit

/-- A check, or a value that hangs on nothing in the draft. -/
def lift {α : Type} (r : Outcome α) : Emit α := fun d =>
  match r with
  | .ok x => .ok x d
  | .error f => .error f d

/-- A call of the recorder. -/
def record {α : Type} (f : Graph → Outcome (Graph × α)) : Emit α := fun d =>
  match f d.graph with
  | .ok (graph, x) => .ok x { d with graph }
  | .error e => .error e d

/-- A question to the graph. -/
def query {α : Type} (f : Graph → Outcome α) : Emit α := fun d =>
  match f d.graph with
  | .ok x => .ok x d
  | .error e => .error e d

/-- The next weights for a block. -/
def take (count block : Nat) : Emit (Array Scalar) := fun d =>
  match d.cursor.take count block with
  | .ok (values, cursor) => .ok values { d with cursor }
  | .error e => .error e d

/-- The shape of a tensor. -/
def shapeOf (t : TensorId) : Emit Shape := query (·.shapeOf t)

/-- The extents of a tensor that is a batch of images. -/
def nchw (t : TensorId) : Emit Shape.Nchw := do lift (← shapeOf t).nchw

/-- Whether `d` divides `n`. A division by zero ends the construction. -/
def divides (d n : Nat) : Emit Bool :=
  lift (if d = 0 then .error .brokenDown else .ok (n % d = 0))

end Emit

end GridNet
