import GridNet.Graph.Evaluation
import GridNet.Model.Build

/-!
# Models

A `Model` is a blueprint together with the graph that was built from it, ready to run.

* `Model.compile` — from a blueprint and all its weights.
* `Model.run` — one batch of inputs.
-/

namespace GridNet

/-- A **compiled network**. -/
structure Model where
  blueprint : Blueprint
  built : BuiltNetwork
  graph : Graph

namespace Model

/-- Compiles a blueprint with the given weights. -/
def compile (b : Blueprint) (weights : WeightBuffer) : Outcome Model :=
  match Build.network b { cursor := .start weights } with
  | .ok built d => .ok { blueprint := b, built, graph := d.graph }
  | .error f _ => .error f

/-- The extents of an input. -/
def inputDims (m : Model) : List Nat :=
  let i := m.blueprint.input
  [i.batch, i.channels, i.height, i.width]

/-- Runs one batch. -/
def run (m : Model) (input : Tensor) : Graph.Run :=
  if input.dims = m.inputDims then m.graph.run input
  else
    { observations := []
      outputs := .error (.note
        (s!"input tensor has shape {dimsText input.dims}; " ++
          s!"network expects {dimsText m.inputDims}")) }

end Model

end GridNet
