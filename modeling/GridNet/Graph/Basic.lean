import GridNet.Graph.Operation

/-!
# Graphs

A `Graph` is a list of nodes that only grows. A tensor is known by its number: the nodes' results
are numbered as they are recorded, so a node can only read what stands in front of it.

* `Graph.shapeOf` — the shape recorded for a tensor.
* `Graph.push` — a node appended, with one new tensor for each of its results.
-/

namespace GridNet

/-- The **number of a tensor** in its graph. -/
abbrev TensorId := Nat

/-- A tensor's number as it is written. -/
def tensorLabel (t : TensorId) : String := s!"%{t}"

/-- A **node**: an operation, the tensors it reads and those it makes. -/
structure Node where
  operation : Operation
  inputs : List TensorId
  outputs : List TensorId
deriving DecidableEq

/-- What is **recorded about a tensor**. -/
structure TensorEntry where
  shape : Shape
  /-- the place of the node that makes it -/
  producer : Nat
deriving DecidableEq

/-- A **graph**. -/
structure Graph where
  nodes : Array Node := #[]
  tensors : Array TensorEntry := #[]
  /-- named inputs, in the order in which they were declared -/
  inputs : List (String × TensorId) := []
  /-- named outputs, in the order in which they were marked -/
  outputs : List (String × TensorId) := []
deriving DecidableEq

namespace Graph

/-- The graph without any node. -/
def empty : Graph := {}

/-- How many tensors the nodes make. -/
def tensorCount (g : Graph) : Nat := g.tensors.size

/-- What is recorded about a tensor. -/
def entry (g : Graph) (t : TensorId) : Outcome TensorEntry :=
  match g.tensors[t]? with
  | some e => .ok e
  | none => .error (.note s!"unknown tensor {tensorLabel t}")

/-- The shape of a tensor. -/
def shapeOf (g : Graph) (t : TensorId) : Outcome Shape := (g.entry t).map (·.shape)

/-- The node that makes a tensor. -/
def producer? (g : Graph) (t : TensorId) : Option Node :=
  g.tensors[t]?.bind fun e => g.nodes[e.producer]?

/-- How many nodes have an operation of the given name. -/
def countNamed (g : Graph) (name : String) : Nat :=
  (g.nodes.toList.filter (·.operation.name = name)).length

/-- How many weights, biases, scales and constants the nodes hold. -/
def parameterCount (g : Graph) : Nat :=
  g.nodes.toList.foldr (fun n count => n.operation.parameterCount + count) 0

/-- Appends a node whose results have the given shapes. -/
def push (g : Graph) (operation : Operation) (inputs : List TensorId) (shapes : List Shape) :
    Graph × List TensorId :=
  let outputs := (List.range shapes.length).map (g.tensors.size + ·)
  let entries := shapes.map fun shape => { shape, producer := g.nodes.size }
  ({ g with
      nodes := g.nodes.push { operation, inputs, outputs }
      tensors := g.tensors ++ entries.toArray },
    outputs)

/-- Appends a node with one result. -/
def pushOne (g : Graph) (operation : Operation) (inputs : List TensorId) (shape : Shape) :
    Graph × TensorId :=
  ((g.push operation inputs [shape]).1, g.tensors.size)

end Graph

end GridNet
