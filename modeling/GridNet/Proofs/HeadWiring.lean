import GridNet.Proofs.RecordedGraphs
import GridNet.Proofs.References

/-!
# Heads, head layers and head tensors in step

The heads are read before the network is built, the extents of their grids are filled in when the
pass comes to their layers, and the tensors that they read are kept in a list of their own. The
three stay in step: entry `j` of each belongs to head layer `j` of the description.

* `Blueprint.head_of_layersOf` — head layer `j` has the number `j`, and head `j` was read
  from its block.
* `Build.pass_places` — what the pass does at one head layer, and leaves alone everywhere else.
* `Build.finish_decoded` — the one decode node, and the extents of its results.
* `Build.Wired`, `Build.heads_wired` — all of it together.
-/

namespace GridNet

/-! ## Heads and their blocks -/

namespace Blueprint

theorem readLayer_head {s : Section} {index : Nat} {h : Head} {activated : Bool}
    (hread : readLayer s index = .ok (.head h activated)) : readHead s h.kind index = .ok h := by
  unfold readLayer at hread
  split at hread
  case h_19 | h_20 =>
    obtain ⟨_, -, hread⟩ := Outcome.bind_eq_ok.mp hread
    obtain ⟨head, hhead, hread⟩ := Outcome.bind_eq_ok.mp hread
    obtain ⟨rfl, -⟩ := Reading.head.inj (Outcome.pure_eq_ok.mp hread)
    rwa [(readHead_eq_ok hhead).1]
  case h_9 | h_10 | h_13 | h_14 =>
    obtain ⟨_, -, hread⟩ := Outcome.bind_eq_ok.mp hread
    obtain ⟨_, -, hread⟩ := Outcome.bind_eq_ok.mp hread
    cases Outcome.pure_eq_ok.mp hread
  case h_15 | h_16 | h_17 | h_21 => cases hread
  case h_22 => cases hread
  all_goals
    obtain ⟨_, -, hread⟩ := Outcome.map_eq_ok.mp hread
    cases hread

/-- **Head layer `j`** has the number `j` behind those in front, and head `j` was read
from its block. -/
theorem head_of_layersOf {blocks : List Block} {readings : List Reading} {index place j : Nat}
    {l : Layer} (h : readLayers index blocks = .ok readings)
    (hl : ((layersOf index place readings).filter (·.kind.isHead))[j]? = some l) :
    ∃ block head, index ≤ l.index ∧ blocks[l.index - index]? = some block ∧
      readHead ⟨block, l.block⟩ head.kind l.index = .ok head ∧
      ((headsOf (index + 1) readings).map (·.1))[j]? = some head ∧
      l.kind = .head head.kind (place + j) := by
  induction blocks generalizing index place j readings with
  | nil =>
    cases h
    cases hl
  | cons first rest ih =>
    simp only [readLayers, Outcome.bind_eq_ok, Outcome.pure_eq_ok] at h
    obtain ⟨r, hr, others, hothers, rfl⟩ := h
    -- what is found further back stands one block further back here
    have hbehind : ∀ {i : Nat} {block : Block}, index + 1 ≤ i →
        rest[i - (index + 1)]? = some block →
        (first :: rest)[i - index]? = some block := by
      intro i block hi hblock
      rwa [show i - index = i - (index + 1) + 1 by omega, List.getElem?_cons_succ]
    cases r with
    | layer kind =>
      obtain ⟨hkind, -⟩ := readLayer_matches hr
      rw [layersOf, List.filter_cons_of_neg (by simp [hkind])] at hl
      obtain ⟨block, head, hi, hblock, hread, hhead, hnumber⟩ := ih hothers hl
      exact ⟨block, head, Nat.le_of_succ_le hi, hbehind hi hblock, hread, hhead, hnumber⟩
    | head h activated =>
      rw [layersOf, List.filter_cons_of_pos rfl] at hl
      cases j with
      | zero =>
        obtain rfl := Option.some.inj hl
        exact ⟨first, h, Nat.le_refl _, by simp, readLayer_head hr, rfl, rfl⟩
      | succ j =>
        obtain ⟨block, head, hi, hblock, hread, hhead, hnumber⟩ := ih hothers hl
        refine ⟨block, head, Nat.le_of_succ_le hi, hbehind hi hblock, hread, hhead, ?_⟩
        rw [hnumber, Nat.add_assoc, Nat.add_comm 1]

end Blueprint

namespace Build

open Emit

variable {all layers front back : List Layer} {p p' : Progress} {l : Layer} {d d' : Draft}
  {b : Blueprint} {weights : WeightBuffer} {j : Nat}

/-! ## Heads in the pass -/

/-- The layers in front of and behind head layer `j`. -/
theorem split_at_head (hl : (layers.filter (·.kind.isHead))[j]? = some l) :
    ∃ front back, layers = front ++ l :: back ∧ headLayers front = j := by
  obtain ⟨hj, hget⟩ := List.getElem?_eq_some_iff.mp hl
  have hsplit : layers.filter (·.kind.isHead) = (layers.filter (·.kind.isHead)).take j ++
      l :: (layers.filter (·.kind.isHead)).drop (j + 1) := by
    rw [← hget, ← List.drop_eq_getElem_cons, List.take_append_drop]
  obtain ⟨first, last, hlayers, hfirst, hlast⟩ := List.filter_eq_append_iff.mp hsplit
  obtain ⟨middle, back, rfl, hmiddle, -, -⟩ := List.filter_eq_cons_iff.mp hlast
  refine ⟨first ++ middle, back, hlayers.trans (List.append_assoc _ _ _).symm, ?_⟩
  rw [headLayers, List.filter_append, hfirst, List.filter_eq_nil_iff.mpr fun x hx => hmiddle x hx,
    List.append_nil, List.length_take, Nat.min_eq_left (Nat.le_of_lt hj)]

/-- The pass **leaves a head alone** that none of its layers is for. -/
theorem pass_heads_of_ne (h : pass all p layers d = .ok p' d')
    (hne : ∀ l ∈ layers, ∀ kind, l.kind ≠ .head kind j) : p'.heads[j]? = p.heads[j]? := by
  induction layers generalizing p d with
  | nil =>
    obtain ⟨rfl, -⟩ := pure_eq_ok.mp h
    rfl
  | cons l rest ih =>
    obtain ⟨p₁, d₁, hstep, hrest⟩ := bind_eq_ok.mp h
    rw [ih hrest fun l hl => hne l (List.mem_cons_of_mem _ hl)]
    obtain ⟨_, _, -, -, -, -, ⟨kind, place, _, hkind, -, hplace, -⟩ | ⟨-, _, -, -, hsame, -⟩⟩ :=
      step_eq_ok hstep
    · obtain ⟨_, -, -, hset⟩ := placeHead_eq_ok hplace
      have hplace : place ≠ j := by
        rintro rfl
        exact hne l List.mem_cons_self kind hkind
      rw [hset, List.getElem?_set_ne hplace]
    · rw [hsame]

/-- The list of head tensors only grows. -/
theorem pass_headTensors (h : pass all p layers d = .ok p' d') :
    p.headTensors <+: p'.headTensors := by
  induction layers generalizing p d with
  | nil =>
    obtain ⟨rfl, -⟩ := pure_eq_ok.mp h
    exact List.prefix_rfl
  | cons l rest ih =>
    obtain ⟨p₁, d₁, hstep, hrest⟩ := bind_eq_ok.mp h
    refine List.IsPrefix.trans ?_ (ih hrest)
    obtain ⟨_, _, -, -, -, -, ⟨_, _, _, -, -, -, -, -, -, hkept⟩ | ⟨-, _, -, -, -, hkept⟩⟩ :=
      step_eq_ok hstep
    · exact hkept ▸ List.prefix_append _ _
    · exact hkept ▸ List.prefix_rfl

/-- The pass **at a head layer** that is the only one for its head: head `j` is completed there with
the extents of the tensor that is read, and the tensor is kept as number `j`. -/
theorem pass_places {kind : HeadKind} (h : pass all p (front ++ l :: back) d = .ok p' d')
    (hstart : p.headTensors = []) (hl : l.kind = .head kind j) (hfront : headLayers front = j)
    (honly : ∀ l' ∈ front ++ back, ∀ kind, l'.kind ≠ .head kind j) :
    ∃ q e head width height, pass all p front d = .ok q e ∧ p.heads[j]? = some head ∧
      p'.heads[j]? = some { head with gridWidth := width, gridHeight := height } ∧
      p'.headTensors[j]? = some q.previous := by
  rw [pass_append] at h
  obtain ⟨q, e, hbefore, h⟩ := bind_eq_ok.mp h
  obtain ⟨q', e', hstep, hbehind⟩ := bind_eq_ok.mp h
  have hcount : q.headTensors.length = j := by
    rw [(pass_counts hbefore).2, hstart, List.length_nil, Nat.zero_add, hfront]
  obtain ⟨_, _, -, -, -, -, ⟨kind', place, s, hkind, -, hplace, -, -, -, hkept⟩ |
    ⟨hnone, -⟩⟩ := step_eq_ok hstep
  · obtain ⟨-, rfl⟩ := LayerKind.head.inj (hl.symm.trans hkind)
    obtain ⟨head, hhead, -, hset⟩ := placeHead_eq_ok hplace
    have hlt : j < q.heads.length := (List.getElem?_eq_some_iff.mp hhead).1
    refine ⟨q, e, head, s.width, s.height, hbefore, ?_, ?_, ?_⟩
    · rw [← hhead, pass_heads_of_ne hbefore fun l' hl' => honly l' (List.mem_append_left _ hl')]
    · rw [pass_heads_of_ne hbehind fun l' hl' => honly l' (List.mem_append_right _ hl'), hset,
        List.getElem?_set_self hlt]
    · obtain ⟨rest, hrest⟩ := pass_headTensors hbehind
      rw [← hrest, hkept, List.append_assoc,
        List.getElem?_append_right (Nat.le_of_eq hcount), hcount, Nat.sub_self]
      rfl
  · rw [hl] at hnone
    cases hnone

/-- The head layers are **numbered in order**. -/
def HeadsInOrder (layers : List Layer) : Prop :=
  ∀ (k : Nat) (l : Layer), (layers.filter (·.kind.isHead))[k]? = some l → ∃ kind,
    l.kind = .head kind k

/-- No other layer than head layer `j` is for head `j`. -/
theorem HeadsInOrder.only (h : HeadsInOrder (front ++ l :: back)) (hl : l.kind.isHead = true)
    (hfront : headLayers front = j) :
    ∀ l' ∈ front ++ back, ∀ kind, l'.kind ≠ .head kind j := by
  intro l' hl' kind hkind
  have hhead : l'.kind.isHead = true := by rw [hkind]; rfl
  rcases List.mem_append.mp hl' with hl' | hl'
  · have hmem : l' ∈ front.filter (·.kind.isHead) := List.mem_filter.mpr ⟨hl', hhead⟩
    obtain ⟨k, hk, hget⟩ := List.getElem_of_mem hmem
    obtain ⟨kind', hkind'⟩ := h k l' (by
      rw [List.filter_append, List.getElem?_append_left hk, List.getElem?_eq_getElem hk, hget])
    obtain ⟨-, rfl⟩ := LayerKind.head.inj (hkind.symm.trans hkind')
    exact Nat.ne_of_lt hk hfront.symm
  · have hmem : l' ∈ back.filter (·.kind.isHead) := List.mem_filter.mpr ⟨hl', hhead⟩
    obtain ⟨k, hk, hget⟩ := List.getElem_of_mem hmem
    have hplace : (front.filter (·.kind.isHead)).length = j := hfront
    have hcons : (l :: back).filter (·.kind.isHead) = l :: back.filter (·.kind.isHead) :=
      List.filter_cons_of_pos hl
    obtain ⟨kind', hkind'⟩ := h (j + (k + 1)) l' (by
      rw [List.filter_append, List.getElem?_append_right (by omega), hplace,
        Nat.add_sub_cancel_left, hcons, List.getElem?_cons_succ, List.getElem?_eq_getElem hk, hget])
    obtain ⟨-, hj⟩ := LayerKind.head.inj (hkind.symm.trans hkind')
    omega

/-! ## The decode node -/

/-- **After the pass** over a network with heads there is one decode node. It reads the kept
tensors, in order, for the completed heads, all of one batch size, and makes the three outputs. -/
theorem finish_decoded {outputs : NetworkOutputs} (h : finish b p d = .ok outputs d')
    (hsome : p.headTensors ≠ [])
    (hplain : ∀ node ∈ d.graph.nodes.toList, node.operation.Undecoded) :
    p.headTensors.length = p.heads.length ∧ ∃ images boxes scores classes,
      outputs = .decoded boxes scores classes ∧
      d'.graph.nodes.toList.filter (·.operation.isDecode) =
        [⟨.decode (decoderOf b p), p.headTensors, [boxes, scores, classes]⟩] ∧
      d'.graph.Spans boxes [images, HeadDecoder.rowsOf p.heads, 4] ∧
      d'.graph.Spans scores [images, HeadDecoder.rowsOf p.heads, 1] ∧
      d'.graph.Spans classes [images, HeadDecoder.rowsOf p.heads, 1] ∧
      ∀ (j : Nat) (head : Head) (t : TensorId), p.heads[j]? = some head →
        p.headTensors[j]? = some t →
        d'.graph.Spans t [images, head.channels, head.gridHeight, head.gridWidth] := by
  obtain ⟨hnone, -⟩ | ⟨-, shapes, -, haccepts, houtputs, rfl⟩ := finish_eq_ok h
  · exact absurd hnone hsome
  cases haccepts with
  | @decode _ _ sources _ hsources hshapes =>
    obtain ⟨hlength, -, hrows, images, boxes, scores, rfl, hboxes, hscores, hheads⟩ :=
      HeadDecoder.outputShapes_eq_ok hshapes
    have hread := Outcome.mapM_eq_ok.mp hsources
    have hwithin := Graph.within_push d.graph (.decode (decoderOf b p)) p.headTensors
      [boxes, scores, scores]
    -- the extents of a result are those that the node has been given
    have hresult : ∀ k s, [boxes, scores, scores][k]? = some s →
        (d.graph.push (.decode (decoderOf b p)) p.headTensors [boxes, scores, scores]).1.Spans
          (d.graph.tensors.size + k) s.dims := by
      intro k s hs
      refine ⟨s, Graph.shapeOf_eq_ok.mpr ?_, rfl⟩
      rw [Graph.push_tensors_getElem?, if_neg (Nat.not_lt.mpr (Nat.le_add_right _ _)),
        Nat.add_sub_cancel_left, hs]
      rfl
    refine ⟨hread.length_eq.trans hlength, images, _, _, _, houtputs, ?_, ?_, ?_, ?_, ?_⟩
    · have hbefore : d.graph.nodes.toList.filter (·.operation.isDecode) = [] :=
        List.filter_eq_nil_iff.mpr
          fun node hnode => by simpa [Operation.Undecoded] using hplain node hnode
      simp only [Draft.named, Graph.push_nodes, List.filter_append, hbefore]
      rfl
    · exact hboxes ▸ hresult 0 boxes rfl
    · exact hscores ▸ hresult 1 scores rfl
    · exact hscores ▸ hresult 2 scores rfl
    · intro j head t hhead ht
      obtain ⟨hj, rfl⟩ := List.getElem?_eq_some_iff.mp ht
      have hs : j < sources.length := hread.length_eq ▸ hj
      have hshape := (List.forall₂_iff_get.mp hread).2 j hj hs
      have hmem : (head, sources[j]) ∈ p.heads.zip sources := by
        refine List.mem_of_getElem? (i := j) ?_
        rw [List.getElem?_zip_eq_some]
        exact ⟨hhead, List.getElem?_eq_getElem hs⟩
      exact ⟨sources[j], hwithin.shapeOf hshape, (hheads _ hmem).symm⟩

/-! ## Whole networks -/

/-- How head layer `l`, number `j` of the description, is **wired**: head `j` was read from the
layer's block and completed with the grid of the tensor that the layer reads, and that tensor is
number `j` too. -/
structure Wired (blocks : List Block) (b : Blueprint) (weights : WeightBuffer)
    (built : BuiltNetwork)
    (g : Graph) (images j : Nat) (l : Layer) (head : Head) (t : TensorId) : Prop where
  number : l.kind = .head head.kind j
  read : ∃ block, blocks[l.block]? = some block ∧
    Blueprint.readHead ⟨block, l.block⟩ head.kind l.index =
      .ok { head with gridWidth := 0, gridHeight := 0 }
  place : built.heads[j]? = some head
  tensor : built.headTensors[j]? = some t
  current : b.layers[l.index]? = some l ∧
    ∃ p d, reach b l.index { cursor := .start weights } = .ok p d ∧ p.previous = t
  extents : g.Spans t [images, head.boxes * (5 + head.classes), head.gridHeight, head.gridWidth]

/-- The layers that are read from blocks have their heads numbered in order. -/
theorem headsInOrder_of_readLayers {blocks : List Block} {readings : List Blueprint.Reading}
    (h : Blueprint.readLayers 0 blocks = .ok readings) :
    HeadsInOrder (Blueprint.layersOf 0 0 readings) := by
  intro k l hl
  obtain ⟨_, head, -, -, -, -, hnumber⟩ := Blueprint.head_of_layersOf h hl
  exact ⟨head.kind, by rw [hnumber, Nat.zero_add]⟩

/-- Up to the end of the pass nothing is decoded. -/
theorem undecoded_of_body {input : TensorId}
    (h : body b { cursor := .start weights } = .ok (input, p) d) :
    ∀ node ∈ d.graph.nodes.toList, node.operation.Undecoded := by
  obtain ⟨shape, d₀, -, hinput, hpass⟩ := body_eq_ok.mp h
  obtain ⟨rfl, rfl⟩ := start_eq_ok hinput
  obtain ⟨added, hadded, hall⟩ := (pass_extends _ _ _ _ _ hpass).nodes
  intro node hnode
  rw [hadded] at hnode
  rcases List.mem_append.mp hnode with hnode | hnode
  · obtain rfl := List.mem_singleton.mp hnode
    rfl
  · exact hall node hnode

/-- **One head layer** is wired, given what is known of the extents at the end. -/
theorem wired_of_body {first : Block} {rest : List Block} {readings : List Blueprint.Reading}
    {built : BuiltNetwork} {g : Graph} {input : TensorId} {images : Nat}
    (hread : Blueprint.readLayers 0 rest = .ok readings)
    (hlayers : b.layers = Blueprint.layersOf 0 0 readings)
    (hheads : b.heads = (Blueprint.headsOf 1 readings).map (·.1))
    (hbody : body b { cursor := .start weights } = .ok (input, p) d)
    (hbuilt : built.heads = p.heads) (htensors : built.headTensors = p.headTensors)
    (hextents : ∀ (j : Nat) (head : Head) (t : TensorId), p.heads[j]? = some head →
      p.headTensors[j]? = some t →
      g.Spans t [images, head.channels, head.gridHeight, head.gridWidth])
    (hl : (b.layers.filter (·.kind.isHead))[j]? = some l) :
    ∃ head t, Wired (first :: rest) b weights built g images j l head t := by
  obtain ⟨block, head, -, hblock, hblockRead, hhead, hnumber⟩ :=
    Blueprint.head_of_layersOf hread (hlayers ▸ hl)
  rw [Nat.zero_add] at hnumber
  obtain ⟨shape, d₀, hshape, hinput, hpass⟩ := body_eq_ok.mp hbody
  obtain ⟨front, back, hsplit, hfront⟩ := split_at_head hl
  have horder : HeadsInOrder (front ++ l :: back) :=
    hsplit ▸ hlayers ▸ headsInOrder_of_readLayers hread
  rw [hsplit] at hpass
  obtain ⟨q, e, template, width, height, hreached, htemplate, hplaced, htensor⟩ :=
    pass_places hpass rfl hnumber hfront (horder.only (by rw [hnumber]; rfl) hfront)
  obtain rfl := Option.some.inj ((hheads ▸ hhead).symm.trans htemplate)
  -- the layer stands where its index says, and its head has no grid when it is read
  have hplace : b.layers[front.length]? = some l := by simp [hsplit]
  have hindex : l.index = front.length := by
    rw [index_of_layersOf (hlayers ▸ hplace), Nat.zero_add]
  obtain ⟨-, hblank, -⟩ := Blueprint.readHead_eq_ok hblockRead
  refine ⟨{ head with gridWidth := width, gridHeight := height }, q.previous, {
    number := hnumber
    read := ⟨block, ?_, hblockRead.trans (congrArg _ hblank.symm)⟩
    place := hbuilt ▸ hplaced
    tensor := htensors ▸ htensor
    current := ⟨hindex ▸ hplace, q, e, ?_, rfl⟩
    extents := ?_ }⟩
  · rw [Layer.block, List.getElem?_cons_succ]
    exact hblock
  · rw [hindex, reach_eq_ok]
    exact ⟨shape, input, d₀, hshape, hinput, by simpa [hsplit] using hreached⟩
  · exact hextents j _ _ hplaced htensor

/-- **Heads, head layers and head tensors are in step.** A network with heads that is built from a
description has as many heads and head tensors as head layers. Head layer `j` of the description is
wired as head `j` and head tensor `j`, and all these tensors have one batch size. There is one
decode node; it reads the head tensors in this order for the completed heads. The extents of its
three results are those of as many images, with the rows of all heads together. -/
theorem heads_wired {blocks : List Block} {name : String} {b₀ b : Blueprint} {batch : Option Nat}
    {weights : WeightBuffer} {built : BuiltNetwork} {d : Draft}
    (hread : Blueprint.ofBlocks blocks name = .ok b₀) (hbatch : b₀.withBatch batch = .ok b)
    (hsome : b.headLayerCount ≠ 0) (h : network b { cursor := .start weights } = .ok built d) :
    built.heads.length = b.headLayerCount ∧ built.headTensors.length = b.headLayerCount ∧
      ∃ images boxes scores classes,
        (∀ j l, (b.layers.filter (·.kind.isHead))[j]? = some l →
          ∃ head t, Wired blocks b weights built d.graph images j l head t) ∧
        d.graph.nodes.toList.filter (·.operation.isDecode) =
          [⟨.decode (.ofHeads b.input.width b.input.height b.classes b.activatedHeads built.heads),
            built.headTensors, [boxes, scores, classes]⟩] ∧
        built.outputs = .decoded boxes scores classes ∧
        d.graph.Spans boxes [images, built.outputRows, 4] ∧
        d.graph.Spans scores [images, built.outputRows, 1] ∧
        d.graph.Spans classes [images, built.outputRows, 1] ∧
        built.outputRows =
          (built.heads.map fun head => head.boxes * head.gridWidth * head.gridHeight).sum := by
  obtain ⟨first, rest, readings, rfl, -, -, hreadings, hlayers, hheads, -⟩ :=
    Blueprint.ofBlocks_eq_ok hread
  have hsame : b.layers = b₀.layers ∧ b.heads = b₀.heads := by
    obtain ⟨n, rfl⟩ := Blueprint.withBatch_eq_ok hbatch
    exact ⟨rfl, rfl⟩
  rw [← hsame.1] at hlayers
  rw [← hsame.2] at hheads
  obtain ⟨input, p, dpass, hbody, -, hclose⟩ := network_eq_ok.mp h
  obtain ⟨outputs, hfinish, -, houtputs, hbuilt, htensors⟩ := close_eq_ok hclose
  have hcount : p.headTensors.length = b.headLayerCount := by
    obtain ⟨_, _, -, -, hpass⟩ := body_eq_ok.mp hbody
    rw [(pass_counts hpass).2, List.length_nil, Nat.zero_add]
    rfl
  have hkept : p.headTensors ≠ [] := by
    intro hnone
    exact hsome (by rw [← hcount, hnone, List.length_nil])
  obtain ⟨hlength, images, boxes, scores, classes, hdecoded, hnode, hboxes, hscores, hclasses,
    hextents⟩ := finish_decoded hfinish hkept (undecoded_of_body hbody)
  rw [← hbuilt] at hlength hboxes hscores hclasses
  rw [← htensors] at hlength hcount
  have hdecoder : decoderOf b p =
      .ofHeads b.input.width b.input.height b.classes b.activatedHeads built.heads := by
    rw [hbuilt]
    rfl
  rw [hdecoder, ← htensors] at hnode
  refine ⟨hlength ▸ hcount, hcount, images, boxes, scores, classes, fun j l hl => ?_, hnode,
    houtputs.trans hdecoded, hboxes, hscores, hclasses, rfl⟩
  exact wired_of_body hreadings hlayers hheads hbody hbuilt htensors hextents hl

/-- A description of two heads with grids of two sizes. -/
def pairBlocks : List Block :=
  [{ kind := "net", line := 1
     assignments := ⟨[("channels", "6"), ("height", "2"), ("width", "2")], by decide⟩ },
    { kind := "yolo", line := 5
      assignments := ⟨[("anchors", "2,1"), ("classes", "1"), ("num", "1")], by decide⟩ },
    { kind := "maxpool", line := 9, assignments := ⟨[("size", "2"), ("stride", "2")], by decide⟩ },
    { kind := "region", line := 12
      assignments := ⟨[("anchors", "2,2"), ("classes", "1"), ("num", "1")], by decide⟩ }]

/-- The blueprint that is read from it. -/
def pairBlueprint : Blueprint where
  name := "pair"
  input := { width := 2, height := 2, channels := 6 }
  layers := [⟨0, .head .yolo 0⟩, ⟨1, .maxPool 2 2⟩, ⟨2, .head .region 1⟩]
  heads := [{ name := "yolo_0", kind := .yolo, boxes := 1, classes := 1,
              anchors := [.ofNat 2, .one], mask := [], centreScale := .one },
            { name := "region_2", kind := .region, boxes := 1, classes := 1,
              anchors := [.ofNat 2, .ofNat 2], mask := [], centreScale := .one }]
  classes := 1
  activatedHeads := false

theorem heads_wired_pairBlocks :
    ∃ built d images boxes, network pairBlueprint { cursor := .start #[] } = .ok built d ∧
      built.heads.length = 2 ∧ built.headTensors = [0, 1] ∧
      d.graph.Spans boxes [images, 5, 4] := by
  have hread : Blueprint.ofBlocks pairBlocks "pair" = .ok pairBlueprint :=
    Outcome.toOption_eq_some.mp (by decide +kernel)
  have hkept : pairBlueprint.withBatch none = .ok pairBlueprint := rfl
  have hfound : ((network pairBlueprint).run' { cursor := .start #[] }).map (fun built =>
      (built.headTensors, built.outputRows)) = some ([0, 1], 5) := by
    decide +kernel
  obtain ⟨built, hrun, hfound⟩ := Option.map_eq_some_iff.mp hfound
  obtain ⟨htensors, hrows⟩ := Prod.mk.inj hfound
  obtain ⟨d, hbuilt⟩ := Emit.eq_ok_of_run' hrun
  obtain ⟨hheads, -, images, boxes, _, _, -, -, -, hboxes, -⟩ :=
    heads_wired hread hkept (by decide) hbuilt
  exact ⟨built, d, images, boxes, hbuilt, hheads, htensors, hrows ▸ hboxes⟩

end Build

end GridNet
