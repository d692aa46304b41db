import GridNet.Proofs.NodeValues
import GridNet.Proofs.RunValues

/-!
# Steps that go on from what an evaluation found

A step of construction is taken on a graph that has been evaluated. That it succeeds, and that the
longer graph can be evaluated as well, is shown together with the values that are found: each call
of the recorder is accepted because of the extents of the values so far, and appends a node whose
result is one more value.

* `Graph.Finds` — what an evaluation that comes to its end has found; `Graph.finds_iff` relates it
  to valuations.
* `Graph.addSlice_of_accepts`, … — a node whose checks hold is recorded.
* `Emit.GoesOn` — a step that succeeds on a graph with values, and leaves one with more.
* `Emit.reshape_goesOn`, `Emit.transpose_goesOn`, `Emit.slice_goesOn`,
  `Emit.concat_goesOn` — single calls.
-/

namespace GridNet

namespace Graph

variable {g : Graph} {feeds : Feeds} {vs : List Tensor} {t input : TensorId} {v : Tensor}
  {shape : Shape}

/-! ## What is found -/

/-- The evaluation **finds** the value `v` of tensor `t`: it comes to its end, and has kept `v`. -/
def Finds (g : Graph) (feeds : Feeds) (t : TensorId) (v : Tensor) : Prop :=
  ∃ e, g.evaluate feeds = .ok () e ∧ e.value t = .ok v

/-- What an evaluation has kept when it comes to its end. -/
theorem evaluate_eq_ok {e : Evaluation} (hg : g.WellFormed) (h : g.evaluate feeds = .ok () e) :
    ∃ vs, g.Valued feeds vs ∧ e.Holds g.tensors.size vs := by
  have hstart : ({ values := Array.replicate g.tensorCount none } : Evaluation).Holds
      g.tensors.size [] := by
    simp [Evaluation.Holds, tensorCount]
  obtain ⟨vs, hv, he⟩ := evaluateFrom_eq_ok hg g.nodes.toList [] 0 [] _ rfl .start hstart h
  exact ⟨vs, hv.valued hg, he⟩

/-- What is found is one of the values of a valuation. -/
theorem finds_iff (hg : g.WellFormed) :
    g.Finds feeds t v ↔ ∃ vs, g.Valued feeds vs ∧ vs[t]? = some v := by
  constructor
  · rintro ⟨e, hrun, hvalue⟩
    obtain ⟨vs, hv, he⟩ := evaluate_eq_ok hg hrun
    exact ⟨vs, hv, he.value hvalue⟩
  · rintro ⟨vs, hv, ht⟩
    obtain ⟨e, hrun, hvalues, -⟩ := hv.evaluate hg
    have hlt : t < g.tensorCount := (List.getElem?_eq_some_iff.mp ht).1.trans_eq hv.length_eq
    exact ⟨e, hrun, by simp only [Evaluation.value, hvalues t hlt, ht]⟩

/-! ## A declared input -/

/-- The graph that has one input and nothing else. -/
def declaring (name : String) (shape : Shape) : Graph :=
  { (empty.push (.input name) [] [shape]).1 with inputs := [(name, 0)] }

theorem declaring_reachable (name : String) (shape : Shape) : (declaring name shape).Reachable :=
  Reachable.empty.input fun _ => List.not_mem_nil

/-- Whatever is bound to the input is found, if an array can hold it. -/
theorem declaring_finds (name : String) (hdims : v.dims = shape.dims)
    (hsmall : shape.elements < Word.signedModulus) :
    (declaring name shape).Finds [(name, v)] 0 v := by
  have hnone : empty.Valued [(name, v)] [] :=
    ⟨rfl, fun _ h => absurd h List.not_mem_nil, fun _ h => by simp [empty] at h⟩
  have hread : (Operation.input name).apply [(name, v)] [] shape.dims = .ok [v] := by
    simp [Operation.apply, Feeds.value?, pure, Except.pure]
  have hone : (empty.push (.input name) [] [shape]).1.Valued [(name, v)] ([] ++ [v]) :=
    hnone.push .nil hread (by simp [hdims]) (by simpa using hsmall)
  exact (finds_iff (declaring_reachable name shape).wellFormed).mpr
    ⟨[v], ⟨hone.shapes, hone.small, hone.computed⟩, rfl⟩

/-! ## Nodes whose checks hold -/

/-- Extents that agree with those of the first tensor are added to them along the axis. -/
theorem concatDims_of_agree {axis : Nat} {first : List Nat} {ids : List TensorId}
    {operands : List (List Nat)}
    (haxis : axis < first.length) (hids : List.Forall₂ g.Spans ids operands)
    (hagree : operands.all (agreeExcept axis · first) = true) (n : Nat)
    (hsmall : n + (operands.map fun dims => (dims[axis]?).getD 0).sum < Word.modulus) :
    g.concatDims axis (first.set axis n) ids =
      .ok (first.set axis (n + (operands.map fun dims => (dims[axis]?).getD 0).sum)) := by
  induction hids generalizing n with
  | nil => rfl
  | @cons t dims ids operands hshape _ ih =>
    obtain ⟨s, hs, rfl⟩ := hshape
    rw [List.all_cons, Bool.and_eq_true] at hagree
    rw [List.map_cons, List.sum_cons, ← Nat.add_assoc] at hsmall ⊢
    have hadd : Word.add n ((s.dims[axis]?).getD 0) = .ok (n + (s.dims[axis]?).getD 0) :=
      Word.add_of_lt ((Nat.le_add_right _ _).trans_lt hsmall)
    rw [concatDims, hs, Outcome.ok_bind]
    simp only [ensure, agreeExcept_set, hagree.1, if_pos, Outcome.ok_bind,
      List.getElem?_set_self haxis, Option.getD_some, List.set_set, hadd]
    exact ih hagree.2 _ hsmall

theorem addConcat_of_accepts {axis : Nat} {inputs : List TensorId}
    (h : g.Accepts (.concat axis) inputs [shape]) :
    g.addConcat inputs axis = .ok (g.pushOne (.concat axis) inputs shape) := by
  cases h with
  | concat hfirst haxis hdims =>
    simp [addConcat, hfirst, haxis, hdims, ensure, Shape.ofDims_eq_ok.mpr rfl, pure, Except.pure]

/-- A window all of whose last positions are inside is let through. -/
theorem checkSlice_of_forall {dims : List Nat} {axis : Nat} {parts : List (Nat × Nat × Nat × Nat)}
    (h : ∀ part ∈ parts, 0 < part.2.2.1 ∧ 0 < part.2.2.2 ∧ part.1 ≤ Word.modulus ∧
      part.2.1 + (part.2.2.1 - 1) * part.2.2.2 < part.1) : checkSlice dims axis parts = .ok () := by
  induction parts generalizing axis with
  | nil => rfl
  | cons part rest ih =>
    obtain ⟨extent, start, size, stride⟩ := part
    obtain ⟨hsize, hstride, hword, hlast⟩ := h _ List.mem_cons_self
    dsimp only at hsize hstride hword hlast
    have hcounted := hlast.trans_le hword
    have hproduct := Word.mul_of_lt ((Nat.le_add_left _ start).trans_lt hcounted)
    simp only [checkSlice, ensure, hsize, hstride, hproduct, Word.add_of_lt hcounted,
      hlast, decide_true, Bool.and_self, if_true, Outcome.ok_bind]
    exact ih fun part hpart => h part (List.mem_cons_of_mem _ hpart)

theorem addSlice_of_accepts {w : SliceWindow} (h : g.Accepts (.slice w) [input] [shape]) :
    g.addSlice input w = .ok (g.pushOne (.slice w) [input] shape) := by
  cases h with
  | slice hsource hstart hsize hstride hcheck hshape =>
    simp [addSlice, hsource, hstart, hsize, hstride, hcheck, ensure, Shape.ofDims_eq_ok.mpr hshape,
      pure, Except.pure]

theorem addReshape_of_accepts {dims : List Nat} (h : g.Accepts (.reshape dims) [input] [shape]) :
    g.addReshape input dims = .ok (g.pushOne (.reshape dims) [input] shape) := by
  cases h with
  | reshape hsource hshape helements =>
    simp [addReshape, hsource, helements, ensure, Shape.ofDims_eq_ok.mpr hshape, pure, Except.pure]

theorem addTranspose_of_accepts {order : List Nat}
    (h : g.Accepts (.transpose order) [input] [shape]) :
    g.addTranspose input order = .ok (g.pushOne (.transpose order) [input] shape) := by
  cases h with
  | transpose hsource hrank horder hshape =>
    simp [addTranspose, hsource, hrank, horder, ensure, Shape.ofDims_eq_ok.mpr hshape,
      pure, Except.pure]

end Graph

/-- A network that has only its input so far: images of four channels, with two rows and
two columns. -/
def Draft.fourChannels : Draft where
  graph := .declaring "data" ⟨[1, 4, 2, 2], by decide, by decide, by decide⟩
  cursor := .start #[]

theorem Draft.fourChannels_finds (f : Nat → Scalar) : Draft.fourChannels.graph.Reachable ∧
    Draft.fourChannels.graph.Finds [("data", .ofFn [1, 4, 2, 2] f)] 0 (.ofFn [1, 4, 2, 2] f) :=
  ⟨Graph.declaring_reachable _ _, Graph.declaring_finds _ rfl (by decide)⟩

/-! ## Steps on a graph with values -/

/-- A draft whose graph has the values `vs`. -/
structure Draft.Valued (d : Draft) (feeds : Feeds) (vs : List Tensor) : Prop where
  wellFormed : d.graph.WellFormed
  valued : d.graph.Valued feeds vs

namespace Emit

variable {feeds : Feeds} {d : Draft} {vs : List Tensor} {α β : Type} {input : TensorId} {x : Tensor}

/-- A step **goes on** from a graph with values: it succeeds and leaves a graph with these values
and more, and `Q` holds of its outcome and the values. -/
def GoesOn (feeds : Feeds) (d : Draft) (vs : List Tensor) (m : Emit α)
    (Q : α → List Tensor → Prop) : Prop :=
  ∃ a d' vs', m d = .ok a d' ∧ d'.Valued feeds vs' ∧ vs <+: vs' ∧ Q a vs'

/-- What is found comes with all other values. -/
theorem valued_of_finds (hg : d.graph.Reachable) (hx : d.graph.Finds feeds input x) :
    ∃ vs, d.Valued feeds vs ∧ vs[input]? = some x := by
  obtain ⟨vs, hv, hvalue⟩ := (Graph.finds_iff hg.wellFormed).mp hx
  exact ⟨vs, ⟨hg.wellFormed, hv⟩, hvalue⟩

/-- The extents of a value are positive. -/
theorem extents_pos (hd : d.Valued feeds vs) (hx : vs[input]? = some x) : ∀ e ∈ x.dims, 0 < e := by
  obtain ⟨s, -, hdims⟩ := hd.valued.shapeOf hx
  exact hdims ▸ s.positive

/-- The elements of a value can be counted by an array. -/
theorem volume_lt (hd : d.Valued feeds vs) (hx : vs[input]? = some x) :
    volume x.dims < Word.signedModulus :=
  x.size_eq ▸ hd.valued.small x (List.mem_of_getElem? hx)

/-- The value that is left is found. -/
theorem GoesOn.finds {m : Emit TensorId} {y : Tensor}
    (h : GoesOn feeds d vs m fun t vs' => vs'[t]? = some y) :
    ∃ t d', m d = .ok t d' ∧ d'.graph.Finds feeds t y := by
  obtain ⟨t, d', vs', hbuilt, hd', -, hvalue⟩ := h
  exact ⟨t, d', hbuilt, (Graph.finds_iff hd'.wellFormed).mpr ⟨vs', hd'.valued, hvalue⟩⟩

theorem GoesOn.pure {Q : α → List Tensor → Prop} {a : α} (hd : d.Valued feeds vs) (h : Q a vs) :
    GoesOn feeds d vs (Pure.pure a) Q := ⟨a, d, vs, rfl, hd, List.prefix_rfl, h⟩

/-- Two steps, of which the second one goes on from the values that the first one leaves. -/
theorem GoesOn.bind {m : Emit α} {f : α → Emit β} {P : α → List Tensor → Prop}
    {Q : β → List Tensor → Prop} (hm : GoesOn feeds d vs m P)
    (hf : ∀ a d' vs', d'.Valued feeds vs' → vs <+: vs' → P a vs' → GoesOn feeds d' vs' (f a) Q) :
    GoesOn feeds d vs (m >>= f) Q := by
  obtain ⟨a, d₁, vs₁, ha, hd₁, hfront, hP⟩ := hm
  obtain ⟨b, d', vs', hb, hd', hfront', hQ⟩ := hf a d₁ vs₁ hd₁ hfront hP
  exact ⟨b, d', vs', bind_eq_ok.mpr ⟨a, d₁, ha, hb⟩, hd', hfront.trans hfront', hQ⟩

/-- A check in front of a step. -/
theorem GoesOn.after_lift {r : Outcome α} {a : α} {f : α → Emit β} {Q : β → List Tensor → Prop}
    (hr : r = .ok a) (h : GoesOn feeds d vs (f a) Q) : GoesOn feeds d vs (lift r >>= f) Q := by
  obtain ⟨b, d', vs', hb, hd'⟩ := h
  exact ⟨b, d', vs', bind_eq_ok.mpr ⟨a, d, lift_eq_ok.mpr ⟨hr, rfl⟩, hb⟩, hd'⟩

/-- The extents that are asked for are those of the value. -/
theorem nchw_eq (hd : d.Valued feeds vs) (hx : vs[input]? = some x) {s : Shape.Nchw}
    (hdims : x.dims = [s.batch, s.channels, s.height, s.width]) : nchw input d = .ok s d := by
  obtain ⟨shape, hshape, heq⟩ := hd.valued.shapeOf hx
  exact bind_eq_ok.mpr ⟨shape, d, query_eq_ok.mpr ⟨hshape, rfl⟩,
    lift_eq_ok.mpr ⟨Shape.nchw_eq_ok.mpr (heq.symm.trans hdims), rfl⟩⟩

theorem GoesOn.after_nchw (hd : d.Valued feeds vs) (hx : vs[input]? = some x) {s : Shape.Nchw}
    (hdims : x.dims = [s.batch, s.channels, s.height, s.width]) {f : Shape.Nchw → Emit β}
    {Q : β → List Tensor → Prop}
    (h : GoesOn feeds d vs (f s) Q) : GoesOn feeds d vs (nchw input >>= f) Q := by
  obtain ⟨b, d', vs', hb, hd'⟩ := h
  exact ⟨b, d', vs', bind_eq_ok.mpr ⟨s, d, nchw_eq hd hx hdims, hb⟩, hd'⟩

/-- Steps for each entry of a list, each of which goes on from whatever values there are then. -/
theorem GoesOn.mapM {f : α → Emit TensorId} {value : α → Tensor} {as : List α}
    (hd : d.Valued feeds vs) (h : ∀ a ∈ as, ∀ d' vs', d'.Valued feeds vs' → vs <+: vs' →
      GoesOn feeds d' vs' (f a) fun t vs'' => vs''[t]? = some (value a)) :
    GoesOn feeds d vs (as.mapM f) fun ids vs' => Reads vs' ids (as.map value) := by
  induction as generalizing d vs with
  | nil => exact .pure hd .nil
  | cons a rest ih =>
    rw [List.mapM_cons]
    refine .bind (h a List.mem_cons_self d vs hd List.prefix_rfl) fun t d₁ vs₁ hd₁ hfront ht => ?_
    refine .bind (ih hd₁ fun b hb d' vs' hd' hfront' => h b (List.mem_cons_of_mem _ hb) d' vs' hd'
      (hfront.trans hfront')) fun ids d₂ vs₂ hd₂ hfront' hids => .pure hd₂ ?_
    exact .cons (getElem?_of_front hfront' ht) hids

/-! ## Single calls -/

/-- **A call of the recorder** that appends a node, whose operation has a result of the
recorded extents. -/
theorem GoesOn.record (hd : d.Valued feeds vs) {f : Graph → Outcome Graph.Recorded} {op : Operation}
    {inputs : List TensorId} {operands : List Tensor} {shape : Shape} {y : Tensor}
    (hf : f d.graph = .ok (d.graph.pushOne op inputs shape)) (hreads : Reads vs inputs operands)
    (happly : op.apply feeds operands shape.dims = .ok [y]) (hdims : y.dims = shape.dims)
    (hsmall : shape.elements < Word.signedModulus) :
    GoesOn feeds d vs (Emit.record f) fun t vs' => vs'[t]? = some y := by
  have hinputs : ∀ t ∈ inputs, t < d.graph.tensors.size := by
    intro t ht
    obtain ⟨i, hi, rfl⟩ := List.getElem_of_mem ht
    have hvalue := (List.forall₂_iff_get.mp hreads).2 i hi (hreads.length_eq ▸ hi)
    exact (List.getElem?_eq_some_iff.mp hvalue).1.trans_eq hd.valued.length_eq
  have hvalued : (d.graph.push op inputs [shape]).1.Valued feeds (vs ++ [y]) :=
    hd.valued.push hreads happly (by simp [hdims]) (by simpa using hsmall)
  refine ⟨d.graph.tensors.size, { d with graph := (d.graph.push op inputs [shape]).1 }, vs ++ [y],
    record_eq_ok.mpr ⟨_, hf, rfl⟩, ⟨hd.wellFormed.push op [shape] hinputs, hvalued⟩,
    List.prefix_append _ _, ?_⟩
  show (vs ++ [y])[d.graph.tensors.size]? = some y
  rw [← hd.valued.length_eq, List.getElem?_concat_length]

/-- A call that has succeeded: what is found of the new node is what its operation computes. -/
theorem finds_of_recorded (hd : d.Valued feeds vs) {f : Graph → Outcome Graph.Recorded}
    {op : Operation} {inputs : List TensorId} {operands : List Tensor} {t : TensorId} {d' : Draft}
    (hf : ∀ g r, f g = .ok r → g.Records op inputs r) (h : Emit.record f d = .ok t d')
    (hreads : Reads vs inputs operands) :
    ∃ shape, d.graph.Accepts op inputs [shape] ∧ d'.graph.Spans t shape.dims ∧
      ∀ y, op.apply feeds operands shape.dims = .ok [y] → y.dims = shape.dims →
        shape.elements < Word.signedModulus → d'.graph.Finds feeds t y := by
  obtain ⟨g, hg, rfl⟩ := record_eq_ok.mp h
  obtain ⟨shape, haccepts, heq⟩ := hf _ _ hg
  rw [heq] at hg
  obtain ⟨rfl, rfl⟩ := Prod.mk.inj heq
  refine ⟨shape, haccepts, ⟨shape, Graph.shapeOf_pushed _ _ _ _, rfl⟩,
    fun y happly hdims hsmall => ?_⟩
  obtain ⟨t', d', hbuilt, hfinds⟩ := (GoesOn.record hd hg hreads happly hdims hsmall).finds
  obtain ⟨rfl, rfl⟩ := EStateM.Result.ok.inj (h.symm.trans hbuilt)
  exact hfinds

section Calls

variable (hd : d.Valued feeds vs) (hx : vs[input]? = some x)

include hd hx

theorem reshape_goesOn {dims : List Nat} (hnonempty : dims ≠ []) (hpositive : ∀ e ∈ dims, 0 < e)
    (hvolume : volume dims = volume x.dims) :
    GoesOn feeds d vs (Emit.record (·.addReshape input dims)) fun t vs' => vs'[t]? =
      some (x.reshape dims) := by
  have hsmall : volume dims < Word.signedModulus := hvolume ▸ volume_lt hd hx
  obtain ⟨source, hsource, hdims⟩ := hd.valued.shapeOf hx
  let shape : Shape := ⟨dims, hnonempty, hpositive, Word.lt_modulus hsmall⟩
  have haccepts : d.graph.Accepts (.reshape dims) [input] [shape] :=
    .reshape hsource rfl (hvolume.trans (congrArg volume hdims))
  refine .record hd (Graph.addReshape_of_accepts haccepts) (.cons hx .nil) ?_ rfl hsmall
  simp [Operation.apply, operand, demand, hvolume]

theorem transpose_goesOn {order : List Nat} (hrank : order.length = x.dims.length)
    (horder : isOrder x.dims.length order [] = true) (hpositive : ∀ e ∈ order.map x.extent, 0 < e)
    (hvolume : volume (order.map x.extent) = volume x.dims) :
    GoesOn feeds d vs (Emit.record (·.addTranspose input order)) fun t vs' => vs'[t]? =
      some (x.transpose order) := by
  have hsmall : volume (order.map x.extent) < Word.signedModulus := hvolume ▸ volume_lt hd hx
  obtain ⟨source, hsource, hdims⟩ := hd.valued.shapeOf hx
  have hnonempty : order.map x.extent ≠ [] := by
    have hlength : 0 < order.length := by
      rw [hrank, hdims]
      exact List.length_pos_of_ne_nil source.nonempty
    simpa using List.ne_nil_of_length_pos hlength
  let shape : Shape := ⟨order.map x.extent, hnonempty, hpositive, Word.lt_modulus hsmall⟩
  have haccepts : d.graph.Accepts (.transpose order) [input] [shape] :=
    .transpose hsource (hdims ▸ hrank) (hdims ▸ horder) (by simp [shape, Tensor.extent, hdims])
  refine .record hd (Graph.addTranspose_of_accepts haccepts) (.cons hx .nil) ?_ rfl hsmall
  simp [Operation.apply, operand, demand, hrank, horder]

/-- A window inside its operand, whose places words can count. -/
theorem slice_goesOn {w : SliceWindow} (hfits : w.fits x.dims = true) (hnonempty : w.size ≠ [])
    (hcheck : Graph.checkSlice x.dims 0 (x.dims.zip (w.start.zip (w.size.zip w.stride))) = .ok ())
    (hpositive : ∀ e ∈ w.size, 0 < e) (hsmall : volume w.size < Word.signedModulus) :
    GoesOn feeds d vs (Emit.record (·.addSlice input w)) fun t vs' =>
      vs'[t]? = some (x.slice w.start w.size w.stride) := by
  obtain ⟨source, hsource, hdims⟩ := hd.valued.shapeOf hx
  have hlengths : (w.start.length = x.dims.length ∧ w.size.length = x.dims.length) ∧
      w.stride.length = x.dims.length := by
    simp only [SliceWindow.fits, Bool.and_eq_true, decide_eq_true_eq] at hfits
    exact hfits.1
  let shape : Shape := ⟨w.size, hnonempty, hpositive, Word.lt_modulus hsmall⟩
  have haccepts : d.graph.Accepts (.slice w) [input] [shape] :=
    .slice hsource (hdims ▸ hlengths.1.1) (hdims ▸ hlengths.1.2) (hdims ▸ hlengths.2)
      (hdims ▸ hcheck) rfl
  refine .record hd (Graph.addSlice_of_accepts haccepts) (.cons hx .nil) ?_ rfl hsmall
  simp [Operation.apply, operand, demand, hfits]

end Calls

/-- Values whose extents agree, laid end to end. -/
theorem concat_goesOn (hd : d.Valued feeds vs) {inputs : List TensorId}
    {xs : List Tensor} {axis : Nat}
    {whole : List Nat} (hxs : Reads vs inputs xs)
    (hwhole : concatExtents axis (xs.map (·.dims)) = some whole)
    (hpositive : ∀ e ∈ whole, 0 < e) (hsmall : volume whole < Word.signedModulus) :
    GoesOn feeds d vs (Emit.record (·.addConcat inputs axis)) fun t vs' =>
      vs'[t]? = some (Tensor.concat axis whole xs) := by
  cases hxs with
  | nil => cases hwhole
  | @cons first x inputs xs hx hxs =>
    obtain ⟨source, hsource, hdims⟩ := hd.valued.shapeOf hx
    have happly := hwhole
    rw [List.map_cons, concatExtents] at hwhole
    split at hwhole
    · next hagree =>
      obtain ⟨haxis, hothers⟩ : axis < x.dims.length ∧
        (xs.map (·.dims)).all (agreeExcept axis · x.dims) = true := by
        simpa only [Bool.and_eq_true, decide_eq_true_eq] using hagree
      have hstart : x.dims.set axis ((x.dims[axis]?).getD 0) = x.dims := by
        rw [List.getElem?_eq_getElem haxis, Option.getD_some, List.set_getElem_self]
      obtain ⟨total, htotal, rfl⟩ : ∃ total, (x.dims[axis]?).getD 0 +
          ((xs.map (·.dims)).map fun dims => (dims[axis]?).getD 0).sum = total ∧
            whole = x.dims.set axis total :=
        ⟨_, rfl, by simpa [List.sum_eq_foldr] using (Option.some.inj hwhole).symm⟩
      -- the extent along the axis is one of the whole, which an array can hold
      have hroom : total < Word.modulus := by
        refine (le_volume hpositive total ?_).trans_lt (Word.lt_modulus hsmall)
        exact List.mem_of_getElem? (List.getElem?_set_self haxis)
      let shape : Shape := ⟨x.dims.set axis total,
        List.ne_nil_of_length_pos (by simpa using haxis.pos), hpositive, Word.lt_modulus hsmall⟩
      have hjoined := Graph.concatDims_of_agree haxis
        (List.forall₂_map_right_iff.mpr (hd.valued.spans hxs)) hothers
        _ (htotal ▸ hroom)
      rw [htotal, hstart, hdims] at hjoined
      have haccepts : d.graph.Accepts (.concat axis) (first :: inputs) [shape] :=
        .concat hsource (hdims ▸ haxis) (by simpa [shape, hdims] using hjoined)
      refine .record hd (Graph.addConcat_of_accepts haccepts) (.cons hx hxs) ?_ rfl hsmall
      rw [Operation.apply, happly]
      rfl
    · cases hwhole

end Emit

end GridNet
