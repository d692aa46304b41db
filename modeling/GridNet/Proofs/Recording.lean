import GridNet.Graph.Recorder
import GridNet.Proofs.Outcomes

/-!
# What the recorder appends

Every call of the recorder that succeeds does one of three things: it appends a node whose operands
and parameters have passed the checks of its kind, it declares a named input, or it names an output.
All that later modules know about a graph comes from here.

* `Graph.Accepts` — the checks of each kind of node, and the shapes that it infers.
* `Graph.Reachable` — the graphs that calls of the recorder lead to.
* `Recording`, `Graph.recorded` — calls as data, and the graph after a list of them.
-/

namespace GridNet

/-! ## Shapes -/

theorem Shape.ofDims_eq_ok {dims : List Nat} {s : Shape} :
    Shape.ofDims dims = .ok s ↔ s.dims = dims := by
  unfold Shape.ofDims
  constructor
  · intro h
    split at h
    · cases h
      rfl
    · cases h
  · rintro rfl
    rw [dif_pos ⟨s.nonempty, s.positive, s.countable⟩]

theorem Shape.nchw_eq_ok {s : Shape} {b : Shape.Nchw} :
    s.nchw = .ok b ↔ s.dims = [b.batch, b.channels, b.height, b.width] := by
  unfold Shape.nchw
  constructor
  · intro h
    split at h
    · next dims =>
      cases h
      exact dims
    · cases h
  · intro h
    rw [h]

namespace Graph

variable {g g' : Graph}

theorem shapeOf_eq_ok {t : TensorId} {s : Shape} :
    g.shapeOf t = .ok s ↔ (g.tensors[t]?).map (·.shape) = some s := by
  unfold shapeOf entry
  rcases g.tensors[t]? with _ | e <;> simp [Except.map]

/-! ## The checks of each kind -/

/-- What the recorder has **checked** about a node that it appends to `g`, and the shapes it has
inferred for its results. -/
inductive Accepts (g : Graph) : Operation → List TensorId → List Shape → Prop
  | convolution {input : TensorId} {k : Kernel} {source shape : Shape}
      {n c h w height width : Nat} :
      g.shapeOf input = .ok source → source.dims = [n, c, h, w] →
      0 < k.size → 0 < k.stride → 0 < k.groups → 0 < k.filters →
      c % k.groups = 0 → k.filters % k.groups = 0 →
      kernelLength k c = .ok k.weights.size →
      (∀ bias, k.bias = some bias → bias.size = k.filters) →
      kernelExtent k h = .ok (some height) → kernelExtent k w = .ok (some width) →
      shape.dims = [n, k.filters, height, width] →
      Accepts g (.convolution k) [input] [shape]
  | scale {input : TensorId} {m : ChannelMap} {shape : Shape} {n c h w : Nat} :
      g.shapeOf input = .ok shape → shape.dims = [n, c, h, w] →
      (∀ values ∈ [m.shift, m.scale, m.power], values.isEmpty ∨ values.size = c) →
      Accepts g (.scale m) [input] [shape]
  | combine {left right : TensorId} {c : Combination} {a b shape : Shape} :
      g.shapeOf left = .ok a → g.shapeOf right = .ok b →
      broadcastDims a.dims b.dims = some shape.dims →
      Accepts g (.combine c) [left, right] [shape]
  | activation {input : TensorId} {p : Pointwise} {shape : Shape} :
      g.shapeOf input = .ok shape → Accepts g (.activation p) [input] [shape]
  | constant {values : Array Scalar} {shape : Shape} :
      values.size = shape.elements → Accepts g (.constant values) [] [shape]
  | concat {first : TensorId} {rest : List TensorId} {axis : Nat} {source shape : Shape} :
      g.shapeOf first = .ok source → axis < source.dims.length →
      concatDims g axis source.dims rest = .ok shape.dims →
      Accepts g (.concat axis) (first :: rest) [shape]
  | slice {input : TensorId} {w : SliceWindow} {source shape : Shape} :
      g.shapeOf input = .ok source →
      w.start.length = source.dims.length → w.size.length = source.dims.length →
      w.stride.length = source.dims.length →
      checkSlice source.dims 0 (source.dims.zip (w.start.zip (w.size.zip w.stride))) = .ok () →
      shape.dims = w.size →
      Accepts g (.slice w) [input] [shape]
  | resize {input : TensorId} {scales : List Scalar} {source shape : Shape} :
      g.shapeOf input = .ok source → scales.length = source.dims.length →
      shape.dims = List.zipWith scaledExtent source.dims scales →
      Accepts g (.resize scales) [input] [shape]
  | pool {input : TensorId} {p : PoolWindow} {source shape : Shape} {n c h w height width : Nat} :
      g.shapeOf input = .ok source → source.dims = [n, c, h, w] →
      0 < p.window.rows → 0 < p.window.columns → 0 < p.stride.rows → 0 < p.stride.columns →
      poolExtent h p.before.rows p.after.rows p.window.rows p.stride.rows = .ok (some height) →
      poolExtent w p.before.columns p.after.columns p.window.columns p.stride.columns =
        .ok (some width) →
      shape.dims = [n, c, height, width] →
      Accepts g (.pool p) [input] [shape]
  | reshape {input : TensorId} {dims : List Nat} {source shape : Shape} :
      g.shapeOf input = .ok source → shape.dims = dims → shape.elements = source.elements →
      Accepts g (.reshape dims) [input] [shape]
  | transpose {input : TensorId} {order : List Nat} {source shape : Shape} :
      g.shapeOf input = .ok source → order.length = source.dims.length →
      isOrder source.dims.length order [] = true →
      shape.dims = order.map (fun axis => (source.dims[axis]?).getD 0) →
      Accepts g (.transpose order) [input] [shape]
  | decode {inputs : List TensorId} {d : HeadDecoder} {sources shapes : List Shape} :
      inputs.mapM g.shapeOf = .ok sources → d.outputShapes sources = .ok shapes →
      Accepts g (.decode d) inputs shapes

/-- The graph and the tensor after a node with one result has been recorded. -/
def Records (g : Graph) (op : Operation) (inputs : List TensorId) (r : Recorded) : Prop :=
  ∃ shape, g.Accepts op inputs [shape] ∧ r = g.pushOne op inputs shape

/-! ## What a success of each call says -/

theorem checkBias_eq_ok {k : Kernel} {u : Unit} :
    checkBias k = .ok u ↔ ∀ bias, k.bias = some bias → bias.size = k.filters := by
  unfold checkBias
  cases k.bias <;> simp

theorem bothExtents_eq_ok {misfit : String} {down right : Option Nat} {p : Nat × Nat} :
    bothExtents misfit down right = .ok p ↔ down = some p.1 ∧ right = some p.2 := by
  cases down <;> cases right <;> simp [bothExtents, Prod.ext_iff]

theorem addConvolution_eq_ok {input : TensorId} {k : Kernel} {r : Recorded}
    (h : g.addConvolution input k = .ok r) : g.Records (.convolution k) [input] r := by
  simp only [addConvolution, Outcome.bind_eq_ok, Outcome.ensure_eq_ok, Outcome.pure_eq_ok,
    checkBias_eq_ok, bothExtents_eq_ok, Bool.and_eq_true, decide_eq_true_eq] at h
  obtain ⟨source, hsource, s, hs, -, ⟨⟨⟨hsize, hstride⟩, hgroups⟩, hfilters⟩, -, ⟨hc, hf⟩, _,
    hlength, -, rfl, -, hbias, _, hh, _, hw, ⟨height, width⟩, ⟨rfl, rfl⟩, shape, hshape, rfl⟩ := h
  exact ⟨shape, .convolution hsource (Shape.nchw_eq_ok.mp hs) hsize hstride hgroups hfilters hc hf
    hlength hbias hh hw (Shape.ofDims_eq_ok.mp hshape), rfl⟩

theorem addScale_eq_ok {input : TensorId} {m : ChannelMap} {r : Recorded}
    (h : g.addScale input m = .ok r) : g.Records (.scale m) [input] r := by
  simp only [addScale, checkChannels, Outcome.bind_eq_ok, Outcome.ensure_eq_ok, Outcome.pure_eq_ok,
    Bool.or_eq_true, decide_eq_true_eq] at h
  obtain ⟨shape, hshape, s, hs, -, hshift, -, hscale, -, hpower, rfl⟩ := h
  refine ⟨shape, .scale hshape (Shape.nchw_eq_ok.mp hs) fun values hvalues => ?_, rfl⟩
  simp only [List.mem_cons, List.not_mem_nil, or_false] at hvalues
  rcases hvalues with rfl | rfl | rfl <;> assumption

theorem addCombination_eq_ok {left right : TensorId} {c : Combination} {r : Recorded}
    (h : g.addCombination left right c = .ok r) : g.Records (.combine c) [left, right] r := by
  simp only [addCombination, Outcome.bind_eq_ok, Outcome.ensure_eq_ok] at h
  obtain ⟨a, ha, b, hb, -, -, h⟩ := h
  split at h
  · next dims hdims =>
    simp only [Outcome.bind_eq_ok, Outcome.pure_eq_ok] at h
    obtain ⟨shape, hshape, rfl⟩ := h
    exact ⟨shape, .combine ha hb (by rw [hdims, Shape.ofDims_eq_ok.mp hshape]), rfl⟩
  · simp at h

theorem addActivation_eq_ok {input : TensorId} {p : Pointwise} {r : Recorded}
    (h : g.addActivation input p = .ok r) : g.Records (.activation p) [input] r := by
  simp only [addActivation, Outcome.bind_eq_ok, Outcome.pure_eq_ok] at h
  obtain ⟨shape, hshape, rfl⟩ := h
  exact ⟨shape, .activation hshape, rfl⟩

theorem addConstant_eq_ok {shape : Shape} {values : Array Scalar} {r : Recorded}
    (h : g.addConstant shape values = .ok r) :
    g.Accepts (.constant values) [] [shape] ∧ r = g.pushOne (.constant values) [] shape := by
  simp only [addConstant, Outcome.bind_eq_ok, Outcome.ensure_eq_ok, Outcome.pure_eq_ok,
    decide_eq_true_eq] at h
  obtain ⟨-, hsize, rfl⟩ := h
  exact ⟨.constant hsize, rfl⟩

theorem addConcat_eq_ok {inputs : List TensorId} {axis : Nat} {r : Recorded}
    (h : g.addConcat inputs axis = .ok r) : g.Records (.concat axis) inputs r := by
  rcases inputs with _ | ⟨first, rest⟩
  · simp [addConcat] at h
  · simp only [addConcat, Outcome.bind_eq_ok, Outcome.ensure_eq_ok, Outcome.pure_eq_ok,
      decide_eq_true_eq] at h
    obtain ⟨source, hsource, -, haxis, dims, hdims, shape, hshape, rfl⟩ := h
    obtain rfl := Shape.ofDims_eq_ok.mp hshape
    exact ⟨shape, .concat hsource haxis hdims, rfl⟩

theorem addSlice_eq_ok {input : TensorId} {w : SliceWindow} {r : Recorded}
    (h : g.addSlice input w = .ok r) : g.Records (.slice w) [input] r := by
  simp only [addSlice, Outcome.bind_eq_ok, Outcome.ensure_eq_ok, Outcome.pure_eq_ok,
    Bool.and_eq_true, decide_eq_true_eq] at h
  obtain ⟨source, hsource, -, ⟨⟨hstart, hsize⟩, hstride⟩, ⟨⟩, hcheck, shape, hshape, rfl⟩ := h
  exact ⟨shape, .slice hsource hstart hsize hstride hcheck (Shape.ofDims_eq_ok.mp hshape), rfl⟩

theorem addResize_eq_ok {input : TensorId} {scales : List Scalar} {r : Recorded}
    (h : g.addResize input scales = .ok r) : g.Records (.resize scales) [input] r := by
  simp only [addResize, Outcome.bind_eq_ok, Outcome.ensure_eq_ok, Outcome.inContext_eq_ok,
    Outcome.pure_eq_ok, decide_eq_true_eq] at h
  obtain ⟨source, hsource, -, hscales, shape, hshape, rfl⟩ := h
  exact ⟨shape, .resize hsource hscales (Shape.ofDims_eq_ok.mp hshape), rfl⟩

theorem addPool_eq_ok {input : TensorId} {p : PoolWindow} {r : Recorded}
    (h : g.addPool input p = .ok r) : g.Records (.pool p) [input] r := by
  simp only [addPool, Outcome.bind_eq_ok, Outcome.ensure_eq_ok, Outcome.pure_eq_ok,
    bothExtents_eq_ok, Bool.and_eq_true, decide_eq_true_eq] at h
  obtain ⟨source, hsource, s, hs, -, ⟨⟨⟨hrows, hcolumns⟩, hdown⟩, hright⟩, _, hh, _, hw,
    ⟨height, width⟩, ⟨rfl, rfl⟩, shape, hshape, rfl⟩ := h
  exact ⟨shape, .pool hsource (Shape.nchw_eq_ok.mp hs) hrows hcolumns hdown hright hh hw
    (Shape.ofDims_eq_ok.mp hshape), rfl⟩

theorem addReshape_eq_ok {input : TensorId} {dims : List Nat} {r : Recorded}
    (h : g.addReshape input dims = .ok r) : g.Records (.reshape dims) [input] r := by
  simp only [addReshape, Outcome.bind_eq_ok, Outcome.ensure_eq_ok, Outcome.pure_eq_ok,
    decide_eq_true_eq] at h
  obtain ⟨source, hsource, shape, hshape, -, helements, rfl⟩ := h
  exact ⟨shape, .reshape hsource (Shape.ofDims_eq_ok.mp hshape) helements, rfl⟩

theorem addTranspose_eq_ok {input : TensorId} {order : List Nat} {r : Recorded}
    (h : g.addTranspose input order = .ok r) : g.Records (.transpose order) [input] r := by
  simp only [addTranspose, Outcome.bind_eq_ok, Outcome.ensure_eq_ok, Outcome.pure_eq_ok,
    decide_eq_true_eq] at h
  obtain ⟨source, hsource, -, hrank, -, horder, shape, hshape, rfl⟩ := h
  exact ⟨shape, .transpose hsource hrank horder (Shape.ofDims_eq_ok.mp hshape), rfl⟩

theorem addDecode_eq_ok {inputs : List TensorId} {d : HeadDecoder} {r : Graph × List TensorId}
    (h : g.addDecode inputs d = .ok r) :
    ∃ shapes, g.Accepts (.decode d) inputs shapes ∧ r = g.push (.decode d) inputs shapes := by
  simp only [addDecode, Outcome.bind_eq_ok, Outcome.pure_eq_ok] at h
  obtain ⟨sources, hsources, shapes, hshapes, rfl⟩ := h
  exact ⟨shapes, .decode hsources hshapes, rfl⟩

theorem addInput_eq_ok {name : String} {shape : Shape} {r : Recorded}
    (h : g.addInput name shape = .ok r) :
    (∀ t, (name, t) ∉ g.inputs) ∧
      r = ({ (g.push (.input name) [] [shape]).1 with
        inputs := g.inputs ++ [(name, g.tensors.size)] }, g.tensors.size) := by
  simp only [addInput, Outcome.bind_eq_ok, Outcome.ensure_eq_ok, Outcome.pure_eq_ok,
    Bool.not_eq_true'] at h
  obtain ⟨-, hfresh, rfl⟩ := h
  refine ⟨fun t ht => ?_, rfl⟩
  exact List.any_eq_false.mp hfresh _ ht (by simp)

theorem markOutput_eq_ok {t : TensorId} {name : String} (h : g.markOutput t name = .ok g') :
    t < g.tensors.size ∧ (∀ u, (name, u) ∉ g.outputs) ∧
      g' = { g with outputs := g.outputs ++ [(name, t)] } := by
  simp only [markOutput, entry, Outcome.bind_eq_ok, Outcome.ensure_eq_ok, Outcome.pure_eq_ok,
    Bool.not_eq_true'] at h
  obtain ⟨e, he, -, hfresh, rfl⟩ := h
  refine ⟨?_, fun u hu => ?_, rfl⟩
  · split at he
    · next e' he' => exact (Array.getElem?_eq_some_iff.mp he').1
    · cases he
  · exact List.any_eq_false.mp hfresh _ hu (by simp)

/-! ## Reachable graphs -/

/-- The graphs that successful calls lead to, from the empty one. -/
inductive Reachable : Graph → Prop
  | empty : Reachable .empty
  | node {g : Graph} {op : Operation} {inputs : List TensorId} {shapes : List Shape} :
      Reachable g → g.Accepts op inputs shapes → Reachable (g.push op inputs shapes).1
  | input {g : Graph} {name : String} {shape : Shape} :
      Reachable g → (∀ t, (name, t) ∉ g.inputs) →
      Reachable { (g.push (.input name) [] [shape]).1 with
        inputs := g.inputs ++ [(name, g.tensors.size)] }
  | output {g : Graph} {t : TensorId} {name : String} :
      Reachable g → t < g.tensors.size → (∀ u, (name, u) ∉ g.outputs) →
      Reachable { g with outputs := g.outputs ++ [(name, t)] }

theorem Records.reachable {op : Operation} {inputs : List TensorId} {r : Recorded}
    (h : g.Records op inputs r) (hg : g.Reachable) : r.1.Reachable := by
  obtain ⟨shape, haccepts, rfl⟩ := h
  exact hg.node haccepts

end Graph

/-! ## Calls as data -/

/-- A **call of the recorder**. -/
inductive Recording
  | input (name : String) (shape : Shape)
  | convolution (input : TensorId) (k : Kernel)
  | scale (input : TensorId) (m : ChannelMap)
  | combination (left right : TensorId) (c : Combination)
  | activation (input : TensorId) (p : Pointwise)
  | constant (shape : Shape) (values : Array Scalar)
  | concat (inputs : List TensorId) (axis : Nat)
  | slice (input : TensorId) (w : SliceWindow)
  | resize (input : TensorId) (scales : List Scalar)
  | pool (input : TensorId) (p : PoolWindow)
  | reshape (input : TensorId) (dims : List Nat)
  | transpose (input : TensorId) (order : List Nat)
  | decode (inputs : List TensorId) (d : HeadDecoder)
  | output (t : TensorId) (name : String)

namespace Graph

variable {g g' : Graph}

/-- What a call makes of a graph, if it succeeds. -/
def perform (g : Graph) : Recording → Outcome Graph
  | .input name shape => (g.addInput name shape).map (·.1)
  | .convolution input k => (g.addConvolution input k).map (·.1)
  | .scale input m => (g.addScale input m).map (·.1)
  | .combination left right c => (g.addCombination left right c).map (·.1)
  | .activation input p => (g.addActivation input p).map (·.1)
  | .constant shape values => (g.addConstant shape values).map (·.1)
  | .concat inputs axis => (g.addConcat inputs axis).map (·.1)
  | .slice input w => (g.addSlice input w).map (·.1)
  | .resize input scales => (g.addResize input scales).map (·.1)
  | .pool input p => (g.addPool input p).map (·.1)
  | .reshape input dims => (g.addReshape input dims).map (·.1)
  | .transpose input order => (g.addTranspose input order).map (·.1)
  | .decode inputs d => (g.addDecode inputs d).map (·.1)
  | .output t name => g.markOutput t name

/-- The graph after a call; one that fails leaves it as it is. -/
def attempt (g : Graph) (r : Recording) : Graph :=
  match g.perform r with
  | .ok next => next
  | .error _ => g

/-- The graph after a list of calls, some of which may have failed. -/
def recorded (calls : List Recording) : Graph := calls.foldl attempt .empty

theorem Reachable.perform (hg : g.Reachable) {r : Recording} (h : g.perform r = .ok g') :
    g'.Reachable := by
  cases r with
  | output t name =>
    obtain ⟨ht, hfresh, rfl⟩ := markOutput_eq_ok h
    exact hg.output ht hfresh
  | input name shape =>
    obtain ⟨r, hr, rfl⟩ := Outcome.map_eq_ok.mp h
    obtain ⟨hfresh, rfl⟩ := addInput_eq_ok hr
    exact hg.input hfresh
  | decode inputs d =>
    obtain ⟨r, hr, rfl⟩ := Outcome.map_eq_ok.mp h
    obtain ⟨shapes, haccepts, rfl⟩ := addDecode_eq_ok hr
    exact hg.node haccepts
  | constant shape values =>
    obtain ⟨r, hr, rfl⟩ := Outcome.map_eq_ok.mp h
    obtain ⟨haccepts, rfl⟩ := addConstant_eq_ok hr
    exact hg.node haccepts
  | convolution input k =>
    obtain ⟨r, hr, rfl⟩ := Outcome.map_eq_ok.mp h
    exact (addConvolution_eq_ok hr).reachable hg
  | scale input m =>
    obtain ⟨r, hr, rfl⟩ := Outcome.map_eq_ok.mp h
    exact (addScale_eq_ok hr).reachable hg
  | combination left right c =>
    obtain ⟨r, hr, rfl⟩ := Outcome.map_eq_ok.mp h
    exact (addCombination_eq_ok hr).reachable hg
  | activation input p =>
    obtain ⟨r, hr, rfl⟩ := Outcome.map_eq_ok.mp h
    exact (addActivation_eq_ok hr).reachable hg
  | concat inputs axis =>
    obtain ⟨r, hr, rfl⟩ := Outcome.map_eq_ok.mp h
    exact (addConcat_eq_ok hr).reachable hg
  | slice input w =>
    obtain ⟨r, hr, rfl⟩ := Outcome.map_eq_ok.mp h
    exact (addSlice_eq_ok hr).reachable hg
  | resize input scales =>
    obtain ⟨r, hr, rfl⟩ := Outcome.map_eq_ok.mp h
    exact (addResize_eq_ok hr).reachable hg
  | pool input p =>
    obtain ⟨r, hr, rfl⟩ := Outcome.map_eq_ok.mp h
    exact (addPool_eq_ok hr).reachable hg
  | reshape input dims =>
    obtain ⟨r, hr, rfl⟩ := Outcome.map_eq_ok.mp h
    exact (addReshape_eq_ok hr).reachable hg
  | transpose input order =>
    obtain ⟨r, hr, rfl⟩ := Outcome.map_eq_ok.mp h
    exact (addTranspose_eq_ok hr).reachable hg

/-- **All calls lead to reachable graphs**, whether they succeed or fail. -/
theorem reachable_recorded (calls : List Recording) : (recorded calls).Reachable := by
  have run : ∀ (calls : List Recording) (g : Graph), g.Reachable →
      (calls.foldl attempt g).Reachable := by
    intro calls
    induction calls with
    | nil => exact fun _ hg => hg
    | cons r rest ih =>
      intro g hg
      refine ih _ ?_
      unfold attempt
      split
      · next hr => exact hg.perform hr
      · exact hg
  exact run calls _ .empty

end Graph

end GridNet
