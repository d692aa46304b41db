import GridNet.Proofs.BuildBreakdowns
import GridNet.Proofs.ObservedRuns

/-!
# The sizes of a network

What the construction of a network computes on the way, for every description that is read and all
weights. It breaks down only at a layer that is out of range, or at the rows of all heads together.
Each layer that it builds is in range and has exact sizes, and a kernel that is stored has exactly
as many weights as it needs.

* `Build.layer_sized`, `Build.step_sized` — one layer.
* `Graph.Reachable.accepted` — each node of a recorded graph has passed the checks of its kind.
* `Build.network_sizes` — all of it, for a whole network.
* `Build.sizes_break_down` — two descriptions whose networks are not built.
-/

namespace GridNet

namespace Build

open Emit

variable {all : List Layer} {p p' : Progress} {l : Layer} {d d' : Draft} {b : Blueprint}
  {weights : WeightBuffer} {i : Nat}

/-! ## One layer -/

/-- **A layer that has been built** is in range, and its sizes are exact. -/
theorem layer_sized (hl : l.kind.WellFormed) (hplaced : Placed p d) {label : String} {t : TensorId}
    {output : List Nat} (h : layer all p l d = .ok (label, t) d') (hhead : l.kind.isHead = false)
    (hinput : d.graph.Spans p.previous (extents p d l).input) (houtput : d'.graph.Spans t output) :
    l.kind.InRange (extents p d l) ∧ l.kind.Sized (extents p d l) output := by
  unfold layer at h
  cases hkind : l.kind with
  | convolution c | deconvolution c =>
    rw [hkind] at h
    obtain ⟨n, k, height, width, made, hdims, hrange, hsized, hspans⟩ :=
      convolution_sized (labelled_eq_ok h) hinput
    refine ⟨fun n' k' height' width' hdims' => ?_,
      n, k, height, width, hdims, houtput.unique hspans ▸ hsized⟩
    obtain ⟨-, rfl, rfl, rfl⟩ : _ ∧ _ ∧ _ ∧ _ := by simpa using hdims.symm.trans hdims'
    exact hrange
  | normalization a =>
    rw [hkind] at h
    exact ⟨trivial, houtput.unique (normalization_spans (labelled_eq_ok h) hinput)⟩
  | implicit filters =>
    rw [hkind] at h
    exact ⟨trivial, houtput.unique (implicit_spans (labelled_eq_ok h))⟩
  | shiftChannels source | controlChannels source =>
    rw [hkind] at h
    obtain ⟨found, _, hasked, h⟩ := bind_eq_ok.mp h
    obtain ⟨himplicit, rfl⟩ := lift_eq_ok.mp hasked
    obtain ⟨hfound, -⟩ := lookupImplicit_eq_ok_iff.mp himplicit
    obtain ⟨whole, hwhole, hspans, -⟩ :=
      combination_spans (labelled_eq_ok h) hinput (hplaced.lookup hfound)
    exact ⟨trivial, _, namedExtents_of_single (by rw [hkind]; rfl) hfound,
      houtput.unique hspans ▸ hwhole⟩
  | shortcut source a =>
    rw [hkind] at h
    obtain ⟨found, _, hasked, h⟩ := bind_eq_ok.mp h
    obtain ⟨-, rfl⟩ := lift_eq_ok.mp hasked
    obtain ⟨hcorner, hspans⟩ := shortcut_sized (labelled_eq_ok h) hinput
    exact ⟨trivial, hcorner, houtput.unique hspans⟩
  | sam source a =>
    rw [hkind] at h
    obtain ⟨found, _, hasked, h⟩ := bind_eq_ok.mp h
    obtain ⟨hfound, rfl⟩ := lift_eq_ok.mp hasked
    obtain ⟨whole, hwhole, hspans⟩ :=
      combined_spans (labelled_eq_ok h) hinput (hplaced.lookup hfound)
    exact ⟨trivial, _, namedExtents_of_single (by rw [hkind]; rfl) hfound,
      houtput.unique hspans ▸ hwhole⟩
  | route sources axis group =>
    rw [hkind] at h hl
    obtain ⟨found, _, hasked, h⟩ := bind_eq_ok.mp h
    obtain ⟨hfound, rfl⟩ := lift_eq_ok.mp hasked
    have hnamed := hplaced.namedExtents (l := l) (by rwa [hkind])
    obtain ⟨hrange, joined, made, hjoined, hkept, hspans⟩ :=
      route_sized (labelled_eq_ok h) hnamed fun g hg => (hl.2 g hg).2
    exact ⟨hrange, joined, hjoined, houtput.unique hspans ▸ hkept⟩
  | upsample stride =>
    rw [hkind] at h hl
    obtain ⟨n, c, height, width, made, hdims, hspans, hexact⟩ :=
      upsample_sized (labelled_eq_ok h) hinput hl
    exact ⟨trivial, n, c, height, width, hdims, houtput.unique hspans ▸ hexact⟩
  | maxPool size stride =>
    rw [hkind] at h
    obtain ⟨n, c, height, width, made, hdims, hrange, hpadding, hsized, hspans⟩ :=
      maxPool_sized (labelled_eq_ok h) hinput
    refine ⟨fun n' c' height' width' hdims' => ?_,
      n, c, height, width, hdims, hpadding, houtput.unique hspans ▸ hsized⟩
    obtain ⟨-, -, rfl, rfl⟩ : _ ∧ _ ∧ _ ∧ _ := by simpa using hdims.symm.trans hdims'
    exact hrange
  | averagePool =>
    rw [hkind] at h
    obtain ⟨n, c, height, width, hdims, hspans⟩ := averagePool_sized (labelled_eq_ok h) hinput
    exact ⟨trivial, n, c, height, width, hdims, houtput.unique hspans⟩
  | reorg3d =>
    rw [hkind] at h
    obtain ⟨n, c, height, width, hdims, hheight, hwidth, hphases, hspans⟩ :=
      reorg3d_sized (labelled_eq_ok h) hinput
    exact ⟨trivial, n, c, height, width, hdims, hheight, hwidth, hphases, houtput.unique hspans⟩
  | reorg stride =>
    rw [hkind] at h
    obtain ⟨hrange, n, c, height, width, hdims, harea, hchannels, hc, hheight, hwidth, hspans⟩ :=
      reorg_sized (labelled_eq_ok h) hinput
    exact ⟨hrange, n, c, height, width, hdims, harea, hchannels, hc, hheight, hwidth,
      houtput.unique hspans⟩
  | head kind place =>
    rw [hkind] at hhead
    cases hhead
  | dropout =>
    rw [hkind] at h
    obtain ⟨hpair, rfl⟩ := pure_eq_ok.mp h
    obtain ⟨-, rfl⟩ := Prod.mk.inj hpair
    exact ⟨trivial, houtput.unique hinput⟩

/-- **One step** of the construction. -/
theorem step_sized (hl : l.kind.WellFormed) (hplaced : Placed p d)
    (h : step all p l d = .ok p' d') : l.kind.InRange (extents p d l) ∧
      l.kind.Sized (extents p d l) (d'.graph.extentsOf p'.previous) := by
  obtain ⟨source, row, hsource, -, -, -, hcase⟩ := step_eq_ok h
  have hspans : d.graph.Spans p.previous source.dims := ⟨source, hsource, rfl⟩
  have hinput : (extents p d l).input = source.dims := hspans.extentsOf_eq
  rcases hcase with ⟨kind, place, s, hkind, hs, hplace, rfl, -, hprevious, -⟩ |
    ⟨hhead, label, hlayer, -⟩
  · rw [hkind]
    obtain ⟨head, hhead, hcounted, -⟩ := placeHead_eq_ok hplace
    have hdims := Shape.nchw_eq_ok.mp hs
    obtain ⟨hpos, -, hvolume⟩ := hspans.extents
    rw [hdims] at hpos hvolume
    refine ⟨fun found hfound => ?_, s.batch, s.channels, s.height, s.width, head,
      hinput.trans hdims, hhead, Head.sized_of_channels hpos hvolume hcounted, ?_⟩
    · obtain rfl := Option.some.inj (hhead.symm.trans hfound)
      obtain ⟨hclasses, hchannels, -⟩ := Head.countChannels_eq_ok.mp hcounted
      exact ⟨hclasses, hchannels⟩
    · exact congrArg d'.graph.extentsOf hprevious
  · obtain ⟨_, output, _, -, houtput, -⟩ := step_adds h
    have hmade : d'.graph.Spans p'.previous output.dims := ⟨output, houtput, rfl⟩
    rw [hmade.extentsOf_eq]
    exact layer_sized hl hplaced hlayer hhead (hinput ▸ hspans) hmade

end Build

/-! ## Stored kernels -/

namespace Graph

variable {g : Graph}

/-- **Each node** of a recorded graph declares an input, or has passed the checks of its kind on a
graph that the recorded one has grown from. -/
theorem Reachable.accepted (hg : g.Reachable) {node : Node} (hnode : node ∈ g.nodes.toList) :
    (∃ name, node.operation = .input name) ∨
      ∃ (g₀ : Graph) (shapes : List Shape), g₀.Within g ∧
      g₀.Accepts node.operation node.inputs shapes := by
  induction hg with
  | empty => exact absurd hnode List.not_mem_nil
  | @node g op inputs shapes _ haccepts ih =>
    -- the nodes in front were checked on an earlier graph, the new one is checked on this graph
    have hwithin := within_push g op inputs shapes
    rw [push_nodes] at hnode
    rcases List.mem_append.mp hnode with hnode | hnode
    · exact (ih hnode).imp_right fun ⟨g₀, shapes₀, hfront, h⟩ =>
        ⟨g₀, shapes₀, hfront.trans hwithin, h⟩
    · obtain rfl := List.mem_singleton.mp hnode
      exact .inr ⟨g, shapes, hwithin, haccepts⟩
  | @input g name shape _ _ ih =>
    have hwithin := within_push g (.input name) [] [shape]
    rw [push_nodes] at hnode
    rcases List.mem_append.mp hnode with hnode | hnode
    · refine (ih hnode).imp_right fun ⟨g₀, shapes₀, hfront, h⟩ => ⟨g₀, shapes₀, ?_, h⟩
      exact ⟨hfront.nodes.trans hwithin.nodes, hfront.tensors.trans hwithin.tensors⟩
    · obtain rfl := List.mem_singleton.mp hnode
      exact .inl ⟨name, rfl⟩
  | output _ _ _ ih =>
    exact (ih hnode).imp_right fun ⟨g₀, shapes₀, hfront, h⟩ =>
      ⟨g₀, shapes₀, ⟨hfront.nodes, hfront.tensors⟩, h⟩

/-- **A stored kernel** has exactly as many weights as it needs. -/
theorem Reachable.kernel_size (hg : g.Reachable) {node : Node} (hnode : node ∈ g.nodes.toList)
    {k : Kernel} (hop : node.operation = .convolution k) :
    ∃ t n c h w, node.inputs = [t] ∧ g.Spans t [n, c, h, w] ∧
      k.weights.size = k.filters * (c / k.groups) * k.size ^ 2 := by
  rcases hg.accepted hnode with ⟨name, hinput⟩ | ⟨g₀, shapes, hwithin, haccepts⟩
  · rw [hop] at hinput
    cases hinput
  · rw [hop] at haccepts
    generalize hinputs : node.inputs = inputs at haccepts
    cases haccepts with
    | convolution hsource hdims _ _ _ _ _ _ hweights =>
      refine ⟨_, _, _, _, _, rfl, hwithin.spans ⟨_, hsource, hdims.symm⟩, ?_⟩
      rw [(kernelLength_eq_ok hweights).1, Nat.pow_two, Nat.mul_assoc]

end Graph

namespace Build

/-- A network that has been built is recorded. -/
theorem network_reachable {b : Blueprint} {weights : WeightBuffer}
    {built : BuiltNetwork} {d : Draft}
    (h : network b { cursor := .start weights } = .ok built d) : d.graph.Reachable := by
  have hcompiled : Model.compile b weights = .ok { blueprint := b, built, graph := d.graph } := by
    rw [Model.compile, h]
  exact Model.compile_reachable hcompiled

/-- The rows of a network that has been built are in range: they are an extent of the boxes, or
there is no head. -/
theorem network_rows {b : Blueprint} {weights : WeightBuffer} {built : BuiltNetwork} {d : Draft}
    (hlayers : ∀ j < b.heads.length, ∃ l ∈ b.layers, ∃ kind, l.kind = .head kind j)
    (h : network b { cursor := .start weights } = .ok built d) :
    HeadDecoder.rowsOf built.heads < Word.modulus := by
  obtain ⟨input, p, d₁, hbody, -, hclose⟩ := network_eq_ok.mp h
  obtain ⟨outputs, hfinish, -, -, hheads, -⟩ := close_eq_ok hclose
  obtain ⟨shape, d₀, -, -, hpass⟩ := body_eq_ok.mp hbody
  obtain ⟨hlength, hcount⟩ := pass_counts hpass
  rw [hheads]
  rcases finish_eq_ok hfinish with ⟨hnone, -⟩ | ⟨-, shapes, -, haccepts, -⟩
  · have hempty : headLayers b.layers = 0 := by simpa [hnone] using hcount.symm
    have hnil : p.heads = [] := by
      refine List.eq_nil_of_length_eq_zero (hlength.trans ?_)
      by_contra hsome
      obtain ⟨l, hl, kind, hkind⟩ := hlayers 0 (Nat.pos_of_ne_zero hsome)
      have hmem : l ∈ b.layers.filter (·.kind.isHead) :=
        List.mem_filter.mpr ⟨hl, by rw [hkind]; rfl⟩
      rw [List.eq_nil_of_length_eq_zero hempty] at hmem
      cases hmem
    rw [hnil]
    decide
  · cases haccepts with
    | decode _ hshapes => exact (HeadDecoder.countable_of_outputShapes hshapes).rows

/-- **Sizes.** Take any description that is read, and any weights.

The construction breaks down only where it has reached a layer that is out of range, or has passed
all layers and the rows of all heads together are no word. All its other failures have causes.

Each layer that has been built is in range, and all its sizes are exact.

A network that has been built announces exactly as many rows as its heads have, and holds kernels
with exactly as many weights as they need. -/
theorem network_sizes {blocks : List Block} {name : String} {b : Blueprint}
    (h : Blueprint.ofBlocks blocks name = .ok b) (weights : WeightBuffer) :
    (∀ d, network b { cursor := .start weights } = .error .brokenDown d →
      (∃ i l p e, b.layers[i]? = some l ∧ reach b i { cursor := .start weights } = .ok p e ∧
        ¬ l.kind.InRange (extents p e l)) ∨
      ∃ p e, reach b b.layers.length { cursor := .start weights } = .ok p e ∧
        Word.modulus ≤ HeadDecoder.rowsOf p.heads) ∧
    (∀ i l p d p' d', b.layers[i]? = some l → reach b i { cursor := .start weights } = .ok p d →
      step b.layers p l d = .ok p' d' → l.kind.InRange (extents p d l) ∧
        l.kind.Sized (extents p d l) (d'.graph.extentsOf p'.previous)) ∧
    (∀ built d, network b { cursor := .start weights } = .ok built d →
      built.outputRows =
        (built.heads.map fun head => head.boxes * head.gridWidth * head.gridHeight).sum ∧
      built.outputRows < Word.modulus ∧
      ∀ node ∈ d.graph.nodes.toList, ∀ k, node.operation = .convolution k → ∃ t n c h w,
        node.inputs = [t] ∧ d.graph.Spans t [n, c, h, w] ∧
        k.weights.size = k.filters * (c / k.groups) * k.size ^ 2) := by
  have hformed := Blueprint.layers_wellFormed h
  have hlayers : ∀ j < b.heads.length, ∃ l ∈ b.layers, ∃ kind, l.kind = .head kind j :=
    fun j => Blueprint.exists_headLayer h
  refine ⟨fun d => network_brokenDown hformed hlayers, fun i l p d p' d' hl hreach hstep => ?_,
    fun built d hbuilt => ⟨rfl, network_rows hlayers hbuilt, fun node hnode k hop => ?_⟩⟩
  · have hi : i ≤ b.layers.length := (List.getElem?_eq_some_iff.mp hl).1.le
    exact step_sized (hformed l (List.mem_of_getElem? hl)) (reach_placed hi hreach) hstep
  · exact (network_reachable hbuilt).kernel_size hnode hop

/-- A description of a convolution with one weight for each pair of channels, and of blocks of two
by two positions that become channels. -/
def foldedBlocks : List Block :=
  [{ kind := "net", line := 1
     assignments := ⟨[("channels", "4"), ("height", "2"), ("width", "2")], by decide⟩ },
    { kind := "convolutional", line := 5
      assignments := ⟨[("bias", "0"), ("filters", "4"), ("pad", "0"), ("size", "1"),
        ("stride", "1")], by decide⟩ },
    { kind := "reorg", line := 11, assignments := ⟨[("stride", "2")], by decide⟩ }]

/-- The blueprint that is read from it. -/
def foldedBlueprint : Blueprint where
  name := "folded"
  input := { width := 2, height := 2, channels := 4 }
  layers := [
    ⟨0, .convolution { filters := 4, size := 1, stride := 1, padding := 0, groups := 1,
                       normalized := false, bias := false, activation := .linear }⟩,
    ⟨1, .reorg 2⟩]
  heads := []
  classes := 0
  activatedHeads := false

/-- The network is built from 16 weights, and its second layer is exact. -/
theorem network_sizes_foldedBlocks :
    Blueprint.ofBlocks foldedBlocks "folded" = .ok foldedBlueprint ∧
      ∃ p d p' d', reach foldedBlueprint 1 { cursor := .start (Array.replicate 16 .one) } =
        .ok p d ∧
        step foldedBlueprint.layers p ⟨1, .reorg 2⟩ d = .ok p' d' ∧
        LayerKind.Sized (extents p d ⟨1, .reorg 2⟩) (d'.graph.extentsOf p'.previous)
          (.reorg 2) := by
  have hread : Blueprint.ofBlocks foldedBlocks "folded" = .ok foldedBlueprint :=
    Outcome.toOption_eq_some.mp (by decide +kernel)
  have hfound : ((network foldedBlueprint).run'
      { cursor := .start (Array.replicate 16 .one) }).isSome := by
    decide +kernel
  obtain ⟨built, hrun⟩ := Option.isSome_iff_exists.mp hfound
  obtain ⟨d, hbuilt⟩ := Emit.eq_ok_of_run' hrun
  obtain ⟨p, e, p', e', hreach, hstep, -⟩ :=
    reach_of_network (i := 1) (l := ⟨1, .reorg 2⟩) hbuilt rfl
  exact ⟨hread, p, e, p', e', hreach, hstep,
    ((network_sizes hread _).2.1 1 ⟨1, .reorg 2⟩ p e p' e' rfl hreach hstep).2⟩

/-- A description of a reorganisation by a stride of `2 ^ 32`. -/
def squareBlocks : List Block :=
  [{ kind := "net", line := 1
     assignments := ((Assignments.empty.insert "width" "1").insert "height" "1").insert
       "channels" "1" },
    { kind := "reorg", line := 5, assignments := Assignments.empty.insert "stride" "4294967296" }]

/-- The blueprint that is read from it. -/
def squareBlueprint : Blueprint where
  name := "square"
  input := { width := 1, height := 1, channels := 1 }
  layers := [⟨0, .reorg 0x100000000⟩]
  heads := []
  classes := 0
  activatedHeads := false

/-- A description of a convolution with `2 ^ 62` kernels of four weights each. -/
def vastBlocks : List Block :=
  [{ kind := "net", line := 1
     assignments := ⟨[("channels", "1"), ("height", "2"), ("width", "2")], by decide⟩ },
    { kind := "convolutional", line := 5
      assignments := ⟨[("bias", "0"), ("filters", "4611686018427387904"), ("pad", "0"),
        ("size", "2"), ("stride", "1")], by decide⟩ }]

/-- The convolution that it describes. -/
def vastConvolution : Convolution where
  filters := 0x4000000000000000
  size := 2
  stride := 1
  padding := 0
  groups := 1
  normalized := false
  bias := false
  activation := .linear

/-- The blueprint that is read from it. -/
def vastBlueprint : Blueprint where
  name := "vast"
  input := { width := 2, height := 2, channels := 1 }
  layers := [⟨0, .convolution vastConvolution⟩]
  heads := []
  classes := 0
  activatedHeads := false

/-- **Sizes that leave the range**: both descriptions are read, and neither becomes a network. The
square of the stride is no word, and neither is the number of weights. -/
theorem sizes_break_down :
    (Blueprint.ofBlocks squareBlocks "square" = .ok squareBlueprint ∧
      Model.compile squareBlueprint #[] = .error .brokenDown) ∧
    Blueprint.ofBlocks vastBlocks "vast" = .ok vastBlueprint ∧
      Model.compile vastBlueprint #[] = .error .brokenDown :=
  ⟨⟨Outcome.toOption_eq_some.mp (by decide +kernel), rfl⟩,
    Outcome.toOption_eq_some.mp (by decide +kernel), rfl⟩

end Build

end GridNet
