import GridNet.Proofs.Valuation

/-!
# Recording in place

The recorder as a program that works on one graph in memory. A call asks the graph for shapes, makes
its checks, and writes piece by piece: what is known about each result, then the node, then a name.
Whatever has been written when a call fails stays written, so nothing but the order of the steps
keeps a failure from leaving half a node behind.

* `Recorder.push`, `Recorder.convolution` … `Recorder.output` — the calls, step by step.
* `Recorder.commit` — a function of the graph as a step that leaves no trace when it fails.
* `Recorder.commit_push`, `Recorder.commit_addConvolution` … `Recorder.commit_markOutput` — each
  call is the function of the recorder, committed.
-/

namespace GridNet

/-! ## Steps on a graph in memory -/

/-- A step that works on **one graph in memory**. A step that fails leaves what it has written. -/
abbrev Recorder := EStateM Failure Graph

namespace Recorder

variable {α β : Type}

/-- A check that hangs on nothing in the graph. -/
def lift (r : Outcome α) : Recorder α := fun g =>
  match r with
  | .ok x => .ok x g
  | .error f => .error f g

/-- A question to the graph. -/
def query (f : Graph → Outcome α) : Recorder α := do lift (f (← get))

/-- The shape of a tensor. -/
def shapeOf (t : TensorId) : Recorder Shape := query (·.shapeOf t)

/-- Writes what is known about one more tensor, and numbers it. -/
def pushTensor (shape : Shape) (producer : Nat) : Recorder TensorId := do
  modify fun g => { g with tensors := g.tensors.push { shape, producer } }
  return (← get).tensors.size - 1

/-- Writes a node: its results one after the other, and then the node with their numbers. -/
def push (operation : Operation) (inputs : List TensorId) (shapes : List Shape) :
    Recorder (List TensorId) := do
  let producer := (← get).nodes.size
  let outputs ← shapes.mapM (pushTensor · producer)
  modify fun g => { g with nodes := g.nodes.push { operation, inputs, outputs } }
  return outputs

/-- Writes a node with one result. -/
def pushOne (operation : Operation) (inputs : List TensorId) (shape : Shape) :
    Recorder TensorId := do
  match ← push operation inputs [shape] with
  | t :: _ => return t
  | [] => throw .brokenDown

/-! ## The calls -/

/-- Declares a named input: the node is written first, the name after it. -/
def input (name : String) (shape : Shape) : Recorder TensorId := do
  query fun g => ensure (!g.inputs.any (·.1 = name)) s!"duplicate input '{name}'"
  let t ← pushOne (.input name) [] shape
  modify fun g => { g with inputs := g.inputs ++ [(name, t)] }
  return t

/-- Writes a convolution or deconvolution. -/
def convolution (input : TensorId) (k : Kernel) : Recorder TensorId := do
  let source ← shapeOf input
  let s ← lift source.nchw
  lift <| ensure (0 < k.size && 0 < k.stride && 0 < k.groups && 0 < k.filters)
    "convolution kernel, stride, groups and filters must be positive"
  lift <| ensure (s.channels % k.groups = 0 && k.filters % k.groups = 0)
    (s!"{s.channels} input channels and {k.filters} filters are not divisible into " ++
      s!"{k.groups} groups")
  let expected ← lift (Graph.kernelLength k s.channels)
  lift <| ensure (k.weights.size = expected)
    s!"convolution expects {expected} kernel weights (got {k.weights.size})"
  lift (Graph.checkBias k)
  let down ← lift (Graph.kernelExtent k s.height)
  let right ← lift (Graph.kernelExtent k s.width)
  let (height, width) ← lift <| Graph.bothExtents
    s!"{k.size}x{k.size} kernel does not fit a {s.height}x{s.width} input with padding {k.padding}"
    down right
  let shape ← lift (Shape.ofDims [s.batch, k.filters, height, width])
  pushOne (.convolution k) [input] shape

/-- Writes a map of channels. -/
def scale (input : TensorId) (m : ChannelMap) : Recorder TensorId := do
  let shape ← shapeOf input
  let s ← lift shape.nchw
  lift (Graph.checkChannels "shift" m.shift s.channels)
  lift (Graph.checkChannels "scale" m.scale s.channels)
  lift (Graph.checkChannels "power" m.power s.channels)
  pushOne (.scale m) [input] shape

/-- Writes a sum or product of two tensors. -/
def combination (left right : TensorId) (c : Combination) : Recorder TensorId := do
  let a ← shapeOf left
  let b ← shapeOf right
  lift <| ensure (a.dims.length = b.dims.length)
    s!"elementwise operands differ in rank ({dimsText a.dims} vs {dimsText b.dims})"
  match broadcastDims a.dims b.dims with
  | some dims =>
    let shape ← lift (Shape.ofDims dims)
    pushOne (.combine c) [left, right] shape
  | none =>
    throw (.note
      s!"elementwise operands do not broadcast ({dimsText a.dims} vs {dimsText b.dims})")

/-- Writes a primitive nonlinearity. -/
def activation (input : TensorId) (p : Pointwise) : Recorder TensorId := do
  let shape ← shapeOf input
  pushOne (.activation p) [input] shape

/-- Writes a constant. -/
def constant (shape : Shape) (values : Array Scalar) : Recorder TensorId := do
  lift <| ensure (values.size = shape.elements)
    s!"constant of shape {shape.text} needs {shape.elements} values (got {values.size})"
  pushOne (.constant values) [] shape

/-- Writes tensors laid end to end. -/
def concat (inputs : List TensorId) (axis : Nat) : Recorder TensorId :=
  match inputs with
  | [] => throw (.note "concat needs at least one input")
  | first :: rest => do
    let source ← shapeOf first
    lift <| ensure (axis < source.dims.length)
      s!"concat axis {axis} out of range for rank {source.dims.length}"
    let dims ← query fun g => g.concatDims axis source.dims rest
    let shape ← lift (Shape.ofDims dims)
    pushOne (.concat axis) inputs shape

/-- Writes a strided window. -/
def slice (input : TensorId) (w : SliceWindow) : Recorder TensorId := do
  let source ← shapeOf input
  lift <| ensure (w.start.length = source.dims.length && w.size.length = source.dims.length &&
      w.stride.length = source.dims.length)
    s!"slice rank does not match input {dimsText source.dims}"
  lift (Graph.checkSlice source.dims 0 (source.dims.zip (w.start.zip (w.size.zip w.stride))))
  let shape ← lift (Shape.ofDims w.size)
  pushOne (.slice w) [input] shape

/-- Writes a change of resolution. -/
def resize (input : TensorId) (scales : List Scalar) : Recorder TensorId := do
  let source ← shapeOf input
  lift <| ensure (scales.length = source.dims.length)
    s!"resize needs one scale per axis of {dimsText source.dims}"
  let shape ← lift <| inContext "resize produced an empty tensor"
    (Shape.ofDims (List.zipWith Graph.scaledExtent source.dims scales))
  pushOne (.resize scales) [input] shape

/-- Writes a pooling window. -/
def pool (input : TensorId) (p : PoolWindow) : Recorder TensorId := do
  let source ← shapeOf input
  let s ← lift source.nchw
  lift <| ensure
    (0 < p.window.rows && 0 < p.window.columns && 0 < p.stride.rows && 0 < p.stride.columns)
    "pool window and stride must be positive"
  let down ← lift <| Graph.poolExtent s.height p.before.rows p.after.rows p.window.rows
    p.stride.rows
  let right ← lift <| Graph.poolExtent s.width p.before.columns p.after.columns p.window.columns
    p.stride.columns
  let (height, width) ← lift <| Graph.bothExtents
    s!"{dimsText p.window.toList} pool window does not fit a {s.height}x{s.width} input" down right
  let shape ← lift (Shape.ofDims [s.batch, s.channels, height, width])
  pushOne (.pool p) [input] shape

/-- Writes a change of extents. -/
def reshape (input : TensorId) (dims : List Nat) : Recorder TensorId := do
  let source ← shapeOf input
  let shape ← lift (Shape.ofDims dims)
  lift <| ensure (shape.elements = source.elements)
    s!"cannot reshape {source.text} into {shape.text}"
  pushOne (.reshape dims) [input] shape

/-- Writes a change of the order of axes. -/
def transpose (input : TensorId) (order : List Nat) : Recorder TensorId := do
  let source ← shapeOf input
  lift <| ensure (order.length = source.dims.length)
    s!"permutation {dimsText order} has the wrong rank"
  lift <| ensure (isOrder source.dims.length order []) s!"{dimsText order} is not a permutation"
  let shape ← lift (Shape.ofDims (order.map fun axis => (source.dims[axis]?).getD 0))
  pushOne (.transpose order) [input] shape

/-- Writes a decode node, which makes three tensors. -/
def decode (inputs : List TensorId) (d : HeadDecoder) : Recorder (List TensorId) := do
  let shapes ← query fun g => inputs.mapM g.shapeOf
  let outputs ← lift (d.outputShapes shapes)
  push (.decode d) inputs outputs

/-- Gives a tensor a name under which a run returns it. -/
def output (t : TensorId) (name : String) : Recorder Unit := do
  let _ ← query (·.entry t)
  query fun g => ensure (!g.outputs.any (·.1 = name)) s!"duplicate output '{name}'"
  modify fun g => { g with outputs := g.outputs ++ [(name, t)] }

/-! ## The calls as functions of the graph -/

/-- A function of the graph as a step that changes the graph only if the function has a value. -/
def commit (f : Graph → Outcome (Graph × α)) : Recorder α := fun g =>
  match f g with
  | .ok (g', x) => .ok x g'
  | .error e => .error e g

theorem query_eq (f : Graph → Outcome α) (g : Graph) : query f g = lift (f g) g := rfl

/-- Asking first and writing later. -/
theorem commit_query {f : Graph → Outcome β} {k : β → Graph → Outcome (Graph × α)} :
    commit (fun g => f g >>= fun x => k x g) = query f >>= fun x => commit (k x) := by
  funext g
  cases h : f g <;> simp [commit, query_eq, lift, h, bind, EStateM.bind, Except.bind]

theorem query_const {r : Outcome α} : query (fun _ => r) = lift r := rfl

theorem commit_lift {r : Outcome β} {k : β → Graph → Outcome (Graph × α)} :
    commit (fun g => r >>= fun x => k x g) = lift r >>= fun x => commit (k x) := commit_query

theorem pushTensor_eq (shape : Shape) (producer : Nat) (g : Graph) :
    pushTensor shape producer g =
      .ok g.tensors.size { g with tensors := g.tensors.push { shape, producer } } := by
  change EStateM.Result.ok ((g.tensors.push { shape, producer }).size - 1) _ = _
  rw [Array.size_push, Nat.add_sub_cancel]

/-- The results of a node are numbered from the number of tensors on. -/
theorem mapM_pushTensor (shapes : List Shape) (producer : Nat) (g : Graph) :
    shapes.mapM (pushTensor · producer) g =
      .ok ((List.range shapes.length).map (g.tensors.size + ·))
        { g with tensors := g.tensors ++ (shapes.map fun shape => ⟨shape, producer⟩).toArray } := by
  induction shapes generalizing g with
  | nil => simp [pure, EStateM.pure]
  | cons shape rest ih =>
    simp only [List.mapM_cons, bind, EStateM.bind, pushTensor_eq, ih, pure, EStateM.pure]
    congr 1
    · rw [List.length_cons, List.range_succ_eq_map]
      simp [Nat.add_assoc, Nat.add_comm 1]
    · simp

/-- **Writing piece by piece** makes the graph with one more node. -/
theorem commit_push (op : Operation) (inputs : List TensorId) (shapes : List Shape) :
    commit (fun g => pure (g.push op inputs shapes)) = push op inputs shapes := by
  funext g
  -- the node is written last, with the numbers of its results
  change _ = EStateM.bind (shapes.mapM (pushTensor · g.nodes.size))
    (fun outputs g => .ok outputs
      { g with nodes := g.nodes.push { operation := op, inputs, outputs } }) g
  simp only [EStateM.bind, mapM_pushTensor]
  rfl

theorem commit_pushOne (op : Operation) (inputs : List TensorId) (shape : Shape) :
    commit (fun g => pure (g.pushOne op inputs shape)) = pushOne op inputs shape := by
  funext g
  rw [pushOne, ← commit_push]
  rfl

/-! Each call asks and checks before it writes, so it is the recorder's function, committed. -/

theorem commit_addInput (name : String) (shape : Shape) :
    commit (·.addInput name shape) = input name shape := by
  have hwritten : commit (fun g => pure ({ (g.pushOne (.input name) [] shape).1 with
      inputs := (g.pushOne (.input name) [] shape).1.inputs ++
        [(name, (g.pushOne (.input name) [] shape).2)] },
      (g.pushOne (.input name) [] shape).2)) =
      (do
        let t ← pushOne (.input name) [] shape
        modify fun g => { g with inputs := g.inputs ++ [(name, t)] }
        return t) := by
    funext g
    rw [← commit_pushOne]
    rfl
  unfold Graph.addInput input
  rw [← hwritten]
  exact commit_query

theorem commit_addConvolution (input : TensorId) (k : Kernel) :
    commit (·.addConvolution input k) = convolution input k := by
  unfold Graph.addConvolution convolution
  simp only [commit_query, commit_pushOne]
  rfl

theorem commit_addScale (input : TensorId) (m : ChannelMap) :
    commit (·.addScale input m) = scale input m := by
  unfold Graph.addScale scale
  simp only [commit_query, query_const, commit_pushOne]
  rfl

theorem commit_addCombination (left right : TensorId) (c : Combination) :
    commit (·.addCombination left right c) = combination left right c := by
  unfold Graph.addCombination combination
  rw [commit_query]
  refine congrArg (query _ >>= ·) (funext fun a => ?_)
  rw [commit_query]
  refine congrArg (query _ >>= ·) (funext fun b => ?_)
  rw [commit_lift]
  refine congrArg (lift _ >>= ·) (funext fun _ => ?_)
  cases broadcastDims a.dims b.dims with
  | none => rfl
  | some dims => simp only [commit_lift, commit_pushOne]

theorem commit_addActivation (input : TensorId) (p : Pointwise) :
    commit (·.addActivation input p) = activation input p := by
  unfold Graph.addActivation activation
  simp only [commit_query, commit_pushOne]
  rfl

theorem commit_addConstant (shape : Shape) (values : Array Scalar) :
    commit (·.addConstant shape values) = constant shape values := by
  unfold Graph.addConstant constant
  simp only [commit_lift, commit_pushOne]

theorem commit_addConcat (inputs : List TensorId) (axis : Nat) :
    commit (·.addConcat inputs axis) = concat inputs axis := by
  unfold Graph.addConcat concat
  cases inputs with
  | nil => rfl
  | cons first rest =>
    simp only [commit_query, query_const, commit_pushOne]
    rfl

theorem commit_addSlice (input : TensorId) (w : SliceWindow) :
    commit (·.addSlice input w) = slice input w := by
  unfold Graph.addSlice slice
  simp only [commit_query, query_const, commit_pushOne]
  rfl

theorem commit_addResize (input : TensorId) (scales : List Scalar) :
    commit (·.addResize input scales) = resize input scales := by
  unfold Graph.addResize resize
  simp only [commit_query, query_const, commit_pushOne]
  rfl

theorem commit_addPool (input : TensorId) (p : PoolWindow) :
    commit (·.addPool input p) = pool input p := by
  unfold Graph.addPool pool
  simp only [commit_query, commit_pushOne]
  rfl

theorem commit_addReshape (input : TensorId) (dims : List Nat) :
    commit (·.addReshape input dims) = reshape input dims := by
  unfold Graph.addReshape reshape
  simp only [commit_query, query_const, commit_pushOne]
  rfl

theorem commit_addTranspose (input : TensorId) (order : List Nat) :
    commit (·.addTranspose input order) = transpose input order := by
  unfold Graph.addTranspose transpose
  simp only [commit_query, query_const, commit_pushOne]
  rfl

theorem commit_addDecode (inputs : List TensorId) (d : HeadDecoder) :
    commit (·.addDecode inputs d) = decode inputs d := by
  unfold Graph.addDecode decode
  simp only [commit_query, query_const, commit_push]

theorem commit_markOutput (t : TensorId) (name : String) :
    commit (fun g => (g.markOutput t name).map (·, ())) = output t name := by
  have hmarked : (fun g : Graph => (g.markOutput t name).map (·, ())) = fun g => do
      let _ ← g.entry t
      ensure (!g.outputs.any (·.1 = name)) s!"duplicate output '{name}'"
      return ({ g with outputs := g.outputs ++ [(name, t)] }, ()) := by
    funext g
    unfold Graph.markOutput
    cases g.entry t with
    | error f => rfl
    | ok e => cases ensure (!g.outputs.any (·.1 = name)) s!"duplicate output '{name}'" <;> rfl
  rw [hmarked, commit_query]
  refine congrArg (query _ >>= ·) (funext fun _ => ?_)
  exact commit_query

end Recorder

end GridNet
