import GridNet.Proofs.Running

/-!
# Construction layer by layer

How far a construction has come is counted in layers. In front of each layer the pass
holds one tensor for every earlier layer, namely the one that this layer left to the next,
and a table with a row for each.

* `Build.reach_succ` — one layer more.
* `Build.reach_of_network`, `Build.network_of_stuck` — a network goes over all its layers,
  or stops at one.
* `Build.step_adds` — what every kind of layer adds.
* `Build.Held`, `Build.reach_held` — what is held in front of a layer.
-/

namespace GridNet

@[simp] theorem LayerOutputs.size_push (o : LayerOutputs) (t : TensorId) :
    (o.push t).size = o.size + 1 := by
  rw [size, push, List.length_append]
  rfl

namespace Build

open Emit

variable {all : List Layer} {p p' : Progress} {l : Layer} {d d' : Draft} {b : Blueprint}
  {weights : WeightBuffer} {i : Nat}

/-! ## Counting layers -/

theorem pass_append (front back : List Layer) (p : Progress) :
    pass all p (front ++ back) = (do pass all (← pass all p front) back) := by
  induction front generalizing p with
  | nil => exact (pure_bind p fun q => pass all q back).symm
  | cons l rest ih =>
    rw [List.cons_append, pass, pass, bind_assoc]
    exact bind_congr ih

theorem reach_eq_ok {count : Nat} :
    reach b count d = .ok p d' ↔ ∃ shape input d₁,
      Shape.ofDims [b.input.batch, b.input.channels, b.input.height, b.input.width] = .ok shape ∧
      record (·.addInput inputName shape) d = .ok input d₁ ∧
      pass b.layers { previous := input, heads := b.heads } (b.layers.take count) d₁ =
        .ok p d' := by
  simp only [reach, bind_eq_ok, lift_eq_ok]
  constructor
  · rintro ⟨shape, _, ⟨hshape, rfl⟩, input, d₁, hinput, hpass⟩
    exact ⟨shape, input, d₁, hshape, hinput, hpass⟩
  · rintro ⟨shape, input, d₁, hshape, hinput, hpass⟩
    exact ⟨shape, d, ⟨hshape, rfl⟩, input, d₁, hinput, hpass⟩

/-- **One layer more.** -/
theorem reach_succ (hl : b.layers[i]? = some l) :
    reach b (i + 1) = (do step b.layers (← reach b i) l) := by
  have hstep : ∀ p, pass b.layers p [l] = step b.layers p l := fun p => bind_pure _
  simp only [reach, bind_assoc, List.take_add_one, hl, Option.toList_some, pass_append, hstep]

theorem body_eq_ok_reach {input : TensorId} (h : body b d = .ok (input, p) d') :
    reach b b.layers.length d = .ok p d' := by
  obtain ⟨shape, d₁, hshape, hinput, hpass⟩ := body_eq_ok.mp h
  exact reach_eq_ok.mpr ⟨shape, input, d₁, hshape, hinput, by rwa [List.take_length]⟩

/-- What is in front of a layer has been reached by every construction that is behind it. -/
theorem reach_of_le {count : Nat} (h : reach b count d = .ok p d') (hi : i ≤ count) :
    ∃ q e, reach b i d = .ok q e := by
  obtain ⟨shape, input, d₁, hshape, hinput, hpass⟩ := reach_eq_ok.mp h
  have hsplit : b.layers.take count = b.layers.take i ++ (b.layers.take count).drop i := by
    conv_lhs => rw [← List.take_append_drop i (b.layers.take count), List.take_take,
      Nat.min_eq_left hi]
  rw [hsplit, pass_append] at hpass
  obtain ⟨q, e, hq, -⟩ := bind_eq_ok.mp hpass
  exact ⟨q, e, reach_eq_ok.mpr ⟨shape, input, d₁, hshape, hinput, hq⟩⟩

/-- A network that is built has gone over **each of its layers**. -/
theorem reach_of_network {built : BuiltNetwork} (h : network b d = .ok built d')
    (hl : b.layers[i]? = some l) :
    ∃ p e p' e', reach b i d = .ok p e ∧ step b.layers p l e = .ok p' e' ∧
      reach b (i + 1) d = .ok p' e' := by
  obtain ⟨input, last, d₁, hbody, -, -⟩ := network_eq_ok.mp h
  have hi : i + 1 ≤ b.layers.length := (List.getElem?_eq_some_iff.mp hl).1
  obtain ⟨p', e', hthis⟩ := reach_of_le (body_eq_ok_reach hbody) hi
  have hboth := hthis
  rw [reach_succ hl] at hboth
  obtain ⟨p, e, hbefore, hstep⟩ := bind_eq_ok.mp hboth
  exact ⟨p, e, p', e', hbefore, hstep, hthis⟩

/-- A layer that cannot be built **ends the construction** with its own failure. -/
theorem network_of_stuck {e : Draft} {f : Failure} (hreach : reach b i d = .ok p e)
    (hl : b.layers[i]? = some l) (h : step b.layers p l e = .error f d') :
    network b d = .error f d' := by
  obtain ⟨shape, input, d₁, hshape, hinput, hpass⟩ := reach_eq_ok.mp hreach
  have hlast : pass b.layers { previous := input, heads := b.heads } b.layers d₁ = .error f d' := by
    rw [← List.take_append_drop i b.layers, pass_append, List.take_append_drop]
    refine bind_eq_error.mpr (.inr ⟨p, e, hpass, ?_⟩)
    rw [List.drop_eq_getElem?_toList_append, hl]
    exact bind_eq_error.mpr (.inl h)
  refine bind_eq_error.mpr (.inl ?_)
  refine bind_eq_error.mpr (.inr ⟨shape, d, lift_eq_ok.mpr ⟨hshape, rfl⟩, ?_⟩)
  refine bind_eq_error.mpr (.inr ⟨input, d₁, hinput, ?_⟩)
  exact bind_eq_error.mpr (.inl hlast)

/-! ## What a layer adds -/

/-- **Every kind of layer** adds one tensor, which the next layer reads, and one row with its number
and the extents of the two. -/
theorem step_adds (h : step all p l d = .ok p' d') :
    ∃ source output row, d.graph.shapeOf p.previous = .ok source ∧
      d'.graph.shapeOf p'.previous = .ok output ∧ p'.outputs = p.outputs.push p'.previous ∧
      p'.table = p.table ++ [row] ∧ row.index = l.index ∧ row.input = source.dims ∧
      row.output = output.dims := by
  rcases hl : l.kind.isHead with _ | _
  · rw [step_of_isHead hl] at h
    obtain ⟨source, d₁, hshape, h⟩ := bind_eq_ok.mp h
    obtain ⟨hsource, rfl⟩ := query_eq_ok.mp hshape
    obtain ⟨⟨label, t⟩, d₂, -, h⟩ := bind_eq_ok.mp h
    obtain ⟨output, d₃, houtput, h⟩ := bind_eq_ok.mp h
    obtain ⟨hmade, rfl⟩ := query_eq_ok.mp houtput
    obtain ⟨taken, d₄, htaken, h⟩ := bind_eq_ok.mp h
    obtain ⟨rfl, rfl⟩ := pure_eq_ok.mp h
    cases htaken
    exact ⟨source, output, _, hsource, hmade, rfl, rfl, rfl, rfl, rfl⟩
  · obtain ⟨index, kind⟩ := l
    cases kind with
    | head kind place =>
      obtain ⟨source, d₁, hshape, h⟩ := bind_eq_ok.mp h
      obtain ⟨hsource, rfl⟩ := query_eq_ok.mp hshape
      obtain ⟨s, d₂, hnchw, h⟩ := bind_eq_ok.mp h
      obtain ⟨-, rfl⟩ := lift_eq_ok.mp hnchw
      obtain ⟨heads, d₃, hheads, h⟩ := bind_eq_ok.mp h
      obtain ⟨-, rfl⟩ := lift_eq_ok.mp hheads
      obtain ⟨taken, d₄, htaken, h⟩ := bind_eq_ok.mp h
      obtain ⟨rfl, rfl⟩ := pure_eq_ok.mp h
      cases htaken
      exact ⟨source, source, _, hsource, hsource, rfl, rfl, rfl, rfl, rfl⟩
    | _ => cases hl

/-! ## What is held -/

/-- Layer `j` **leaves** tensor `t` for the next layer. -/
def Leaves (b : Blueprint) (weights : WeightBuffer) (j : Nat) (t : TensorId) : Prop :=
  ∃ p d, reach b (j + 1) { cursor := .start weights } = .ok p d ∧ p.previous = t

/-- What is held **in front of layer `i`**. -/
structure Held (b : Blueprint) (weights : WeightBuffer) (i : Nat) (p : Progress) (d : Draft) :
    Prop where
  /-- exactly what the earlier layers left -/
  tensors : List.Forall₂ (Leaves b weights) (List.range i) p.outputs.tensors
  /-- one row for each earlier layer -/
  rows : p.table.map (·.index) = (b.layers.take i).map (·.index)
  /-- each row ends with what the next one begins with -/
  chained : ∃ current, d.graph.shapeOf p.previous = .ok current ∧
    p.table.map (·.input) ++ [current.dims] =
      [b.input.batch, b.input.channels, b.input.height, b.input.width] :: p.table.map (·.output)

theorem Held.size (h : Held b weights i p d) : p.outputs.size = i := by
  rw [LayerOutputs.size, ← h.tensors.length_eq, List.length_range]

/-- **One layer** leaves what it is held for. -/
theorem Held.step {e : Draft} (h : Held b weights i p e) (hl : b.layers[i]? = some l)
    (hstep : step b.layers p l e = .ok p' d')
    (hreach : reach b (i + 1) { cursor := .start weights } = .ok p' d') :
    Held b weights (i + 1) p' d' := by
  obtain ⟨source, output, row, hsource, houtput, houtputs, htable, hindex, hinput, hrow⟩ :=
    step_adds hstep
  obtain ⟨current, hcurrent, hchained⟩ := h.chained
  obtain rfl := Except.ok.inj (hcurrent.symm.trans hsource)
  constructor
  · rw [houtputs, LayerOutputs.push, List.range_succ]
    exact List.rel_append h.tensors (.cons ⟨p', d', hreach, rfl⟩ .nil)
  · rw [htable, List.take_add_one, hl, List.map_append, List.map_append, h.rows, List.map_singleton,
      hindex]
    rfl
  · refine ⟨output, houtput, ?_⟩
    rw [htable, List.map_append, List.map_append, List.map_singleton,
      List.map_singleton, hinput, hrow, hchained, List.cons_append]

/-- **Every layer that is reached** is reached with what the earlier ones left. -/
theorem reach_held (hi : i ≤ b.layers.length)
    (h : reach b i { cursor := .start weights } = .ok p d) : Held b weights i p d := by
  induction i generalizing p d with
  | zero =>
    obtain ⟨shape, input, d₁, hshape, hinput, hpass⟩ := reach_eq_ok.mp h
    obtain ⟨rfl, rfl⟩ := start_eq_ok hinput
    obtain ⟨rfl, rfl⟩ := pure_eq_ok.mp hpass
    refine ⟨.nil, rfl, shape, startGraph_shapeOf shape, ?_⟩
    rw [Shape.ofDims_eq_ok.mp hshape]
    rfl
  | succ i ih =>
    have hl : b.layers[i]? = some b.layers[i] := List.getElem?_eq_getElem hi
    have hboth := h
    rw [reach_succ hl] at hboth
    obtain ⟨q, e, hbefore, hstep⟩ := bind_eq_ok.mp hboth
    exact (ih (Nat.le_of_succ_le hi) hbefore).step hl hstep h

end Build

end GridNet
