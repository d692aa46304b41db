import GridNet.Graph.Basic
import GridNet.Scalar.Elementary
import GridNet.Tensor.Rearrange

/-!
# Evaluating a graph

Nodes are evaluated in the order in which they were recorded. A node's operands stand in front of
it, and each result is checked against the shape that was recorded for it before it may be read.

* `Operation.apply` — one node on its operands.
* `Graph.evaluate` — all nodes on values for the named inputs; the values computed on the way are
  kept also when a node fails.
* `Graph.run`, `Graph.runNamed` — the named outputs.
-/

namespace GridNet

/-! ## Single operations -/

/-- The largest natural number to which the exponential's logarithm is still computed. -/
def softplusLimit : Scalar := .ofNat 20

/-- The value of a primitive nonlinearity. -/
def Pointwise.apply : Pointwise → Scalar → Scalar
  | relu, x => x.positivePart
  | sigmoid, x => Cell.sigmoid x
  | tanh, x => x.tanh
  | leaky slope, x => if Scalar.zero.lt x then x else slope * x
  | softplus, x => if softplusLimit.lt x then x else x.exp.logOnePlus
  | hardSigmoid slope offset, x => (slope * x + offset).clamp .zero .one

/-- The value of a map of channels in one channel. -/
def ChannelMap.apply (m : ChannelMap) (channel : Nat) (x : Scalar) : Scalar :=
  let y := Scalar.fma x ((m.scale[channel]?).getD .one) ((m.shift[channel]?).getD .zero)
  let power := (m.power[channel]?).getD .one
  if power.same .one then y else y.pow power

/-- A map of channels applied to a batch of images. -/
def Tensor.mapChannels (m : ChannelMap) (t : Tensor) : Tensor :=
  let channels := t.extent 1
  let plane := volume (t.dims.drop 2)
  .ofFn t.dims fun i => m.apply (i / plane % channels) (t.item i)

/-- The value of a combination. -/
def Combination.apply : Combination → Scalar → Scalar → Scalar
  | sum, x, y => x + y
  | product, x, y => x * y

/-- The last position that a window reaches on each axis. -/
def SliceWindow.reach (w : SliceWindow) : List Nat :=
  List.zipWith (· + ·) w.start
    (List.zipWith (fun size stride => (size - 1) * stride) w.size w.stride)

/-- The window has a part for each axis and stays inside. -/
def SliceWindow.fits (w : SliceWindow) (dims : List Nat) : Bool :=
  w.start.length = dims.length && w.size.length = dims.length && w.stride.length = dims.length &&
    (List.zipWith (fun last extent => decide (last < extent)) w.reach dims).all id

/-- The values bound to the named inputs; a later binding of a name counts. -/
abbrev Feeds := List (String × Tensor)

/-- The value bound to a name. -/
def Feeds.value? (feeds : Feeds) (name : String) : Option Tensor :=
  (feeds.reverse.find? (·.1 = name)).map (·.2)

/-- The operand with the given number. -/
def operand (operands : List Tensor) (i : Nat) : Outcome Tensor :=
  match operands[i]? with
  | some t => .ok t
  | none => .error (.note s!"missing operand {i}")

/-- The results of an operation. `dims` are the extents recorded for its first result; the others
are those of the operands. An operation breaks down when something that it reads is not there: an
axis or a position of an operand, a weight, a start value. -/
def Operation.apply (op : Operation) (feeds : Feeds) (operands : List Tensor) (dims : List Nat) :
    Outcome (List Tensor) := do
  match op with
  | input name =>
    match feeds.value? name with
    | some t => return [t]
    | none => throw (.note s!"no value bound for input '{name}'")
  | convolution k =>
    let t ← operand operands 0
    demand (t.dims.length = 4 && dims.length = 4 && k.fits (t.extent 1))
    return [t.convolve Scalar.fma k ((dims[2]?).getD 0) ((dims[3]?).getD 0)]
  | scale m =>
    let t ← operand operands 0
    demand (2 ≤ t.dims.length)
    return [t.mapChannels m]
  | combine c =>
    let a ← operand operands 0
    let b ← operand operands 1
    match broadcastDims a.dims b.dims with
    | some common => return [Tensor.broadcast c.apply common a b]
    | none => throw .brokenDown
  | activation p => return [(← operand operands 0).map p.apply]
  | constant values =>
    match Tensor.ofArray? dims values with
    | some t => return [t]
    | none => throw .brokenDown
  | concat axis =>
    match concatExtents axis (operands.map (·.dims)) with
    | some whole => return [Tensor.concat axis whole operands]
    | none => throw .brokenDown
  | slice w =>
    let t ← operand operands 0
    demand (w.fits t.dims)
    return [t.slice w.start w.size w.stride]
  | resize scales =>
    let t ← operand operands 0
    demand (t.dims.length = dims.length && scales.length = dims.length && t.dims.all (0 < ·))
    return [t.enlarge scales dims]
  | pool p =>
    let t ← operand operands 0
    demand (t.dims.length = 4 && dims.length = 4 && dims.take 2 = t.dims.take 2)
    return [t.pool p ((dims[2]?).getD 0) ((dims[3]?).getD 0)]
  | reshape extents =>
    let t ← operand operands 0
    demand (volume extents = volume t.dims)
    return [t.reshape extents]
  | transpose order =>
    let t ← operand operands 0
    demand (order.length = t.dims.length && isOrder t.dims.length order [])
    return [t.transpose order]
  | decode d =>
    let r ← d.decode operands
    return [r.boxes, r.scores, r.classes]

/-! ## Whole graphs -/

/-- A tensor seen during an evaluation, with the node that made it. -/
structure Observation where
  node : Node
  id : TensorId
  value : Tensor

/-- The **state of an evaluation**. -/
structure Evaluation where
  /-- the values computed so far, by the number of the tensor -/
  values : Array (Option Tensor)
  /-- everything computed, the latest first -/
  seen : List Observation := []

namespace Evaluation

/-- The value of a tensor that has been computed. -/
def value (e : Evaluation) (t : TensorId) : Outcome Tensor :=
  match e.values[t]? with
  | some (some v) => .ok v
  | _ => .error (.note s!"operand {tensorLabel t} has not been computed")

/-- Keeps a result. -/
def keep (e : Evaluation) (node : Node) (t : TensorId) (v : Tensor) : Evaluation :=
  { values := e.values.setIfInBounds t (some v)
    seen := ⟨node, t, v⟩ :: e.seen }

end Evaluation

namespace Graph

/-- An evaluation that keeps its state when it fails. -/
abbrev Evaluating := EStateM Failure Evaluation

/-- An outcome as a step that leaves the state alone. -/
def Evaluating.lift {α : Type} (r : Outcome α) : Evaluating α := fun e =>
  match r with
  | .ok x => .ok x e
  | .error f => .error f e

/-- Checks one result of node number `index` against its recorded shape, and keeps it. -/
def keepResult (g : Graph) (index : Nat) (node : Node) (t : TensorId) (v : Tensor) :
    Evaluating Unit := do
  let expected ← Evaluating.lift (g.shapeOf t)
  Evaluating.lift <| ensure (v.dims = expected.dims)
    (s!"node {index} ({node.operation.name}) produced {dimsText v.dims}, " ++
      s!"graph expects {expected.text}")
  modify fun e => e.keep node t v

/-- The results of a node on the values computed so far. No result has more elements than an array
holds. -/
def nodeResults (g : Graph) (feeds : Feeds) (node : Node) (e : Evaluation) :
    Outcome (List Tensor) := do
  let operands ← node.inputs.mapM e.value
  let dims ← match node.outputs with
    | [] => pure []
    | t :: _ => (g.shapeOf t).map (·.dims)
  let results ← node.operation.apply feeds operands dims
  demand (results.all (·.data.size < Word.signedModulus))
  return results

/-- Evaluates node number `index`. -/
def evaluateNode (g : Graph) (feeds : Feeds) (index : Nat) (node : Node) : Evaluating Unit := do
  let produced ← Evaluating.lift <| inContext s!"node {index} ({node.operation.name}) failed"
    (g.nodeResults feeds node (← get))
  Evaluating.lift <| ensure (produced.length = node.outputs.length)
    s!"node {index} produced {produced.length} tensors, expected {node.outputs.length}"
  (node.outputs.zip produced).forM fun (t, v) => g.keepResult index node t v

/-- Evaluates nodes from number `index` on. -/
def evaluateFrom (g : Graph) (feeds : Feeds) : (index : Nat) → List Node → Evaluating Unit
  | _, [] => pure ()
  | index, node :: rest => do
    g.evaluateNode feeds index node
    evaluateFrom g feeds (index + 1) rest

/-- Evaluates all nodes. -/
def evaluate (g : Graph) (feeds : Feeds) : EStateM.Result Failure Evaluation Unit :=
  g.evaluateFrom feeds 0 g.nodes.toList
    { values := Array.replicate g.tensorCount none }

/-- What a run gives: the observations in the order in which they were made, and the named outputs
or the failure that ended the run. -/
structure Run where
  observations : List Observation
  outputs : Outcome (List (String × Tensor))

/-- The named outputs of a finished evaluation, ascending by name. -/
def collectOutputs (g : Graph) (e : Evaluation) : Outcome (List (String × Tensor)) := do
  let outputs ← g.outputs.mapM fun (name, t) =>
    match e.values[t]? with
    | some (some v) => pure (name, v)
    | _ => throw (.note s!"output '{name}' was never computed")
  return outputs.mergeSort fun a b => a.1 ≤ b.1

/-- Runs a graph on values bound by name. -/
def runNamed (g : Graph) (feeds : Feeds) : Run :=
  match g.evaluate feeds with
  | .ok _ e => { observations := e.seen.reverse, outputs := g.collectOutputs e }
  | .error f e => { observations := e.seen.reverse, outputs := .error f }

/-- Runs a graph that has exactly one input. -/
def run (g : Graph) (value : Tensor) : Run :=
  match g.inputs with
  | [(name, _)] => g.runNamed [(name, value)]
  | inputs =>
    { observations := []
      outputs := .error (.note s!"graph has {inputs.length} inputs; use run_named") }

end Graph

/-- The output with the given name. -/
def requireOutput (outputs : List (String × Tensor)) (name : String) : Outcome Tensor :=
  match outputs.find? (·.1 = name) with
  | some (_, t) => .ok t
  | none => .error (.note s!"network has no output named '{name}'")

end GridNet
