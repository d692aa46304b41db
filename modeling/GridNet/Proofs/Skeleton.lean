import GridNet.Proofs.Outcomes

/-!
# What a graph is without its weights

The skeleton of a graph keeps everything but the values of weights, biases, channel maps and
constants, of which it keeps the number. The recorder looks at nothing else: recording a node and
taking the skeleton can be done in either order.

* `Operation.skeleton`, `Graph.skeleton` — zeros in place of all stored values.
* `Graph.Oblivious` — a call of the recorder that commutes with taking the skeleton.
-/

namespace GridNet

/-- As many zeros as there are values. -/
def blank (values : Array Scalar) : Array Scalar := Array.replicate values.size .zero

@[simp] theorem size_blank (values : Array Scalar) : (blank values).size = values.size :=
  Array.size_replicate

theorem blank_eq_iff {a b : Array Scalar} : blank a = blank b ↔ a.size = b.size :=
  ⟨fun h => by simpa using congrArg Array.size h, fun h => by rw [blank, blank, h]⟩

theorem map_blank_eq {a b : Option (Array Scalar)} (h : a.map Array.size = b.map Array.size) :
    a.map blank = b.map blank := by
  rcases a with _ | a <;> rcases b with _ | b
  · rfl
  · cases h
  · cases h
  · exact congrArg some (blank_eq_iff.mpr (Option.some.inj h))

@[simp] theorem isEmpty_blank (values : Array Scalar) :
    (blank values).isEmpty = values.isEmpty := by
  simp [Array.isEmpty]

/-- A kernel without its weights. -/
def Kernel.skeleton (k : Kernel) : Kernel :=
  { k with weights := blank k.weights, bias := k.bias.map blank }

/-- A map of channels without its values. -/
def ChannelMap.skeleton (m : ChannelMap) : ChannelMap :=
  { shift := blank m.shift, scale := blank m.scale, power := blank m.power }

/-- An operation without the values that it holds. -/
def Operation.skeleton : Operation → Operation
  | convolution k => .convolution k.skeleton
  | scale m => .scale m.skeleton
  | constant values => .constant (blank values)
  | op => op

/-- A node without the values that it holds. -/
def Node.skeleton (n : Node) : Node := { n with operation := n.operation.skeleton }

namespace Graph

variable {g : Graph}

/-- The **skeleton** of a graph. -/
def skeleton (g : Graph) : Graph := { g with nodes := g.nodes.map Node.skeleton }

/-- The skeleton of a graph that a call returns. -/
def skeletonFirst {α : Type} (r : Graph × α) : Graph × α := (r.1.skeleton, r.2)

theorem push_skeleton (g : Graph) (op : Operation) (inputs : List TensorId) (shapes : List Shape) :
    skeletonFirst (g.push op inputs shapes) = g.skeleton.push op.skeleton inputs shapes := by
  simp [push, skeleton, skeletonFirst, Node.skeleton]

theorem pushOne_skeleton (g : Graph) (op : Operation) (inputs : List TensorId) (shape : Shape) :
    skeletonFirst (g.pushOne op inputs shape) = g.skeleton.pushOne op.skeleton inputs shape := by
  simp [pushOne, push, skeleton, skeletonFirst, Node.skeleton]

@[simp] theorem shapeOf_skeleton (g : Graph) : g.skeleton.shapeOf = g.shapeOf := rfl

@[simp] theorem entry_skeleton (g : Graph) : g.skeleton.entry = g.entry := rfl

end Graph

/-! ## Outcomes and maps -/

namespace Outcome

variable {α β γ : Type}

theorem map_bind (x : Outcome α) (f : α → Outcome β) (h : β → γ) :
    (x >>= f).map h = x >>= fun a => (f a).map h := by
  cases x <;> rfl

theorem map_pure (a : α) (h : α → β) : (pure a : Outcome α).map h = pure (h a) := rfl

theorem map_throw (e : Failure) (h : α → β) : (throw e : Outcome α).map h = throw e := rfl

end Outcome

namespace Graph

variable {g : Graph}

/-! ## Calls of the recorder -/

theorem addConvolution_skeleton (g : Graph) (input : TensorId) (k : Kernel) :
    (g.addConvolution input k).map skeletonFirst = g.skeleton.addConvolution input k.skeleton := by
  have hextent : kernelExtent k.skeleton = kernelExtent k := rfl
  have hlength : kernelLength k.skeleton = kernelLength k := rfl
  have hbias : checkBias k.skeleton = checkBias k := by
    rcases hb : k.bias with _ | bias <;> simp [checkBias, Kernel.skeleton, hb, size_blank]
  simp only [addConvolution, shapeOf_skeleton, Outcome.map_bind, Outcome.map_pure, hextent, hlength,
    hbias, pushOne_skeleton]
  simp only [Operation.skeleton, Kernel.skeleton, size_blank]
  rfl

theorem addScale_skeleton (g : Graph) (input : TensorId) (m : ChannelMap) :
    (g.addScale input m).map skeletonFirst = g.skeleton.addScale input m.skeleton := by
  simp only [addScale, shapeOf_skeleton, checkChannels, Outcome.map_bind, Outcome.map_pure,
    pushOne_skeleton, ChannelMap.skeleton, isEmpty_blank, size_blank, Operation.skeleton]

theorem addConstant_skeleton (g : Graph) (shape : Shape) (values : Array Scalar) :
    (g.addConstant shape values).map skeletonFirst = g.skeleton.addConstant shape
      (blank values) := by
  simp only [addConstant, Outcome.map_bind, Outcome.map_pure, pushOne_skeleton, size_blank,
    Operation.skeleton]

/-- A call that commutes with taking the skeleton. -/
def Oblivious {α : Type} (f : Graph → Outcome (Graph × α)) : Prop :=
  ∀ g, (f g).map skeletonFirst = f g.skeleton

theorem addActivation_oblivious (input : TensorId) (p : Pointwise) :
    Oblivious (addActivation · input p) := fun g => by
  simp only [addActivation, shapeOf_skeleton, Outcome.map_bind, Outcome.map_pure, pushOne_skeleton,
    Operation.skeleton]

theorem addCombination_oblivious (left right : TensorId) (c : Combination) :
    Oblivious (addCombination · left right c) := fun g => by
  simp only [addCombination, shapeOf_skeleton, Outcome.map_bind]
  refine bind_congr fun a => bind_congr fun b => bind_congr fun _ => ?_
  cases broadcastDims a.dims b.dims <;>
    simp only [Outcome.map_bind, Outcome.map_pure, Outcome.map_throw, pushOne_skeleton,
      Operation.skeleton]

theorem concatDims_skeleton (g : Graph) (axis : Nat) (dims : List Nat) (ids : List TensorId) :
    concatDims g.skeleton axis dims ids = concatDims g axis dims ids := by
  induction ids generalizing dims with
  | nil => rfl
  | cons t rest ih => simp only [concatDims, shapeOf_skeleton, ih]

theorem addConcat_oblivious (inputs : List TensorId) (axis : Nat) :
    Oblivious (addConcat · inputs axis) := fun g => by
  cases inputs with
  | nil => rfl
  | cons first rest =>
    simp only [addConcat, shapeOf_skeleton, concatDims_skeleton, Outcome.map_bind, Outcome.map_pure,
      pushOne_skeleton, Operation.skeleton]

theorem addSlice_oblivious (input : TensorId) (w : SliceWindow) :
    Oblivious (addSlice · input w) := fun g => by
  simp only [addSlice, shapeOf_skeleton, Outcome.map_bind, Outcome.map_pure, pushOne_skeleton,
    Operation.skeleton]

theorem addResize_oblivious (input : TensorId) (scales : List Scalar) :
    Oblivious (addResize · input scales) := fun g => by
  simp only [addResize, shapeOf_skeleton, Outcome.map_bind, Outcome.map_pure, pushOne_skeleton,
    Operation.skeleton]

theorem addPool_oblivious (input : TensorId) (p : PoolWindow) :
    Oblivious (addPool · input p) := fun g => by
  simp only [addPool, shapeOf_skeleton, Outcome.map_bind, Outcome.map_pure, pushOne_skeleton,
    Operation.skeleton]

theorem addReshape_oblivious (input : TensorId) (dims : List Nat) :
    Oblivious (addReshape · input dims) := fun g => by
  simp only [addReshape, shapeOf_skeleton, Outcome.map_bind, Outcome.map_pure, pushOne_skeleton,
    Operation.skeleton]

theorem addTranspose_oblivious (input : TensorId) (order : List Nat) :
    Oblivious (addTranspose · input order) := fun g => by
  simp only [addTranspose, shapeOf_skeleton, Outcome.map_bind, Outcome.map_pure, pushOne_skeleton,
    Operation.skeleton]

theorem addDecode_oblivious (inputs : List TensorId) (d : HeadDecoder) :
    Oblivious (addDecode · inputs d) := fun g => by
  simp only [addDecode, shapeOf_skeleton, Outcome.map_bind, Outcome.map_pure, push_skeleton,
    Operation.skeleton]

theorem addInput_oblivious (name : String) (shape : Shape) :
    Oblivious (addInput · name shape) := fun g => by
  simp only [addInput, Outcome.map_bind, Outcome.map_pure]
  refine bind_congr fun _ => ?_
  simp [skeletonFirst, skeleton, pushOne, push, Node.skeleton, Operation.skeleton]

theorem markOutput_oblivious (t : TensorId) (name : String) :
    Oblivious fun g => (g.markOutput t name).map (·, ()) := fun g => by
  simp only [markOutput, entry_skeleton, Outcome.map_bind, Outcome.map_pure]
  rfl

end Graph

end GridNet
