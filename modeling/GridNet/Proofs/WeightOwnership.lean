import GridNet.Proofs.Construction
import GridNet.Proofs.OperationSoundness
import GridNet.Proofs.WeightSlices

/-!
# Every weight belongs to one layer

The table of layers says after each layer how many weights have been taken. The weights
between two entries are the slice of a layer, and the nodes that the layer has recorded
hold this slice and no other weights. Only the lists of a normalisation are not stored as
they are, but folded from four to two.

* `Graph.Emits` — the operations with weights among the nodes that have been appended.
* `Build.layer_owns` — one layer takes its slice, and its nodes hold it.
* `Build.Ledger` — what the table and the graph say about the weights taken so far.
* `Build.weights_owned` — the whole network.
-/

namespace GridNet

/-! ## Appended nodes that hold weights -/

namespace Graph

variable {g g' g'' : Graph}

/-- Nodes have been appended to `g`, of which those with weights have the operations `ops`. -/
def Emits (g : Graph) (ops : List Operation) (g' : Graph) : Prop :=
  ∃ added, g'.nodes.toList = g.nodes.toList ++ added ∧
    (added.map (·.operation)).filter (·.isWeighted) = ops

theorem Emits.refl (g : Graph) : g.Emits [] g := ⟨[], (List.append_nil _).symm, rfl⟩

theorem Emits.trans {ops ops' : List Operation} (h : g.Emits ops g') (h' : g'.Emits ops' g'') :
    g.Emits (ops ++ ops') g'' := by
  obtain ⟨added, hadded, rfl⟩ := h
  obtain ⟨added', hadded', rfl⟩ := h'
  refine ⟨added ++ added', ?_, ?_⟩
  · rw [hadded', hadded, List.append_assoc]
  · rw [List.map_append, List.filter_append]

theorem Grows.emits (h : g.Grows Operation.Weightless g') : g.Emits [] g' := by
  obtain ⟨added, hadded, hall⟩ := h.nodes
  refine ⟨added, hadded, List.filter_eq_nil_iff.mpr fun op hop => ?_⟩
  obtain ⟨n, hn, rfl⟩ := List.mem_map.mp hop
  exact Bool.eq_false_iff.mp (hall n hn)

theorem Records.emits {op : Operation} {inputs : List TensorId} {r : Recorded}
    (h : g.Records op inputs r) (hop : op.isWeighted = true) : g.Emits [op] r.1 := by
  obtain ⟨shape, -, rfl⟩ := h
  refine ⟨_, push_nodes g op inputs [shape], ?_⟩
  simp [hop]

theorem parameterCount_eq (g : Graph) :
    g.parameterCount = (g.nodes.toList.map (·.operation.parameterCount)).sum := by
  rw [Graph.parameterCount, List.sum_eq_foldr, List.foldr_map]

/-- Operations without weights do not count. -/
theorem sum_weighted (ops : List Operation) :
    ((ops.filter (·.isWeighted)).map (·.parameterCount)).sum =
      (ops.map (·.parameterCount)).sum := by
  induction ops with
  | nil => rfl
  | cons op rest ih =>
    rcases hop : op.isWeighted with _ | _
    · have hzero : op.parameterCount = 0 := Operation.Weightless.parameterCount hop
      simp [hop, ih, hzero]
    · simp [hop, ih]

/-- What appended nodes add to the number of values that a graph holds. -/
theorem Emits.parameterCount {ops : List Operation} (h : g.Emits ops g') :
    g'.parameterCount = g.parameterCount + (ops.map (·.parameterCount)).sum := by
  obtain ⟨added, hadded, rfl⟩ := h
  rw [sum_weighted, parameterCount_eq, parameterCount_eq, hadded, List.map_append, List.sum_append,
    List.map_map]
  rfl

end Graph

/-! ## One layer -/

/-- **A layer owns** the weights between two drafts: there are as many as it takes, and the nodes
that it has appended hold them. -/
structure Draft.Owned (d : Draft) (kind : LayerKind) (channels : Nat) (d' : Draft) : Prop where
  weights : d'.cursor.weights = d.cursor.weights
  position : d'.cursor.position = d.cursor.position + kind.weightCount channels
  emits : d.graph.Emits (kind.held (d.slice d') channels) d'.graph

/-- The second entry of a list of extents. -/
def channelsOf (dims : List Nat) : Nat := (dims[1]?).getD 0

/-- The kernel that the recorder accepts is as long as the count says. -/
theorem Graph.Records.kernelCount {g : Graph} {c : Convolution} {transposed : Bool}
    {slice : Array Scalar} {input : TensorId} {r : Graph.Recorded} {source : Shape}
    {n channels height width : Nat}
    (h : g.Records (.convolution (c.kernelOf transposed slice)) [input] r)
    (hsource : g.shapeOf input = .ok source) (hdims : source.dims = [n, channels, height, width]) :
    slice.size - (c.normalizationLength + c.biasLength) = c.kernelCount channels := by
  obtain ⟨shape, haccepts, -⟩ := h
  cases haccepts with
  | @convolution _ _ source' _ n' channels' _ _ _ _ hsource' hdims' _ _ _ _ _ _ hweights =>
    obtain rfl := Except.ok.inj (hsource.symm.trans hsource')
    obtain ⟨-, rfl, -⟩ : n = n' ∧ channels = channels' ∧ _ := by simpa using hdims.symm.trans hdims'
    have hcount : c.filters * (channels / c.groups) * c.size * c.size = c.kernelCount channels := by
      rw [Convolution.kernelCount, Nat.pow_two, Nat.mul_assoc]
    have hsize : (c.kernelOf transposed slice).weights.size =
        slice.size - (c.normalizationLength + c.biasLength) := by
      simp [Convolution.kernelOf]
    rw [← hsize, (Graph.kernelLength_eq_ok hweights).1]
    exact hcount

namespace Emit

variable {d d' : Draft} {input t : TensorId} {source : Shape}

theorem convolution_owns {c : Convolution} {transposed : Bool} {block : Nat}
    (h : convolution input c transposed block d = .ok t d')
    (hsource : d.graph.shapeOf input = .ok source) :
    d'.cursor.weights = d.cursor.weights ∧
      d'.cursor.position = d.cursor.position +
        (c.kernelCount (channelsOf source.dims) + c.biasLength + c.normalizationLength) ∧
      d.graph.Emits (c.held transposed (d.slice d')) d'.graph := by
  obtain ⟨source', n, channels, height, width, _, d₁, convolved, normalized, hsource',
    hdims, -, htakes, hconvolved, hnormalized, hactivation⟩ := convolution_eq_ok h
  obtain rfl := Except.ok.inj (hsource.symm.trans hsource')
  have hchannels : channelsOf source.dims = channels := by simp [channelsOf, hdims]
  rw [hchannels]
  obtain ⟨hgrows, hcursor⟩ := adds_closed.activation normalized.2 c.activation _ _ _ hactivation
  have hslice : d.slice d' = d.slice d₁ := Draft.slice_congr hcursor
  have hcount := hconvolved.kernelCount hsource hdims
  rw [Draft.size_slice d d₁ htakes.weights, htakes.position, Nat.add_sub_cancel_left,
    Nat.add_sub_cancel_left] at hcount
  refine ⟨?_, ?_, ?_⟩
  · rw [hcursor]
    exact htakes.weights
  · rw [hcursor]
    have hposition := htakes.position
    dsimp only
    omega
  · rw [hslice, Convolution.held]
    have hfirst := hconvolved.emits rfl
    split at hnormalized
    · next hnormal =>
      have hlast := (hfirst.trans (hnormalized.emits rfl)).trans hgrows.emits
      rwa [if_pos hnormal]
    · next hnormal =>
      subst hnormalized
      rw [if_neg hnormal]
      exact hfirst.trans hgrows.emits

theorem normalization_owns {a : Activation} {block : Nat}
    (h : normalization input a block d = .ok t d') (hsource : d.graph.shapeOf input = .ok source) :
    d.Owned (.normalization a) (channelsOf source.dims) d' := by
  obtain ⟨source', n, channels, height, width, d₁, normalized, hsource', hdims, htakes, hnormalized,
    hactivation⟩ := normalization_eq_ok h
  obtain rfl := Except.ok.inj (hsource.symm.trans hsource')
  have hchannels : channelsOf source.dims = channels := by simp [channelsOf, hdims]
  obtain ⟨hgrows, hcursor⟩ := adds_closed.activation normalized.2 a _ _ _ hactivation
  have hslice : d.slice d' = d.slice d₁ := Draft.slice_congr hcursor
  rw [hchannels]
  refine ⟨?_, ?_, ?_⟩
  · rw [hcursor]
    exact htakes.weights
  · rw [hcursor]
    exact htakes.position
  · rw [hslice]
    exact (hnormalized.emits rfl).trans hgrows.emits

theorem implicit_owns {filters block channels : Nat} (h : implicit filters block d = .ok t d') :
    d.Owned (.implicit filters) channels d' := by
  obtain ⟨shape, d₁, -, htakes, haccepts, hpush, hcursor⟩ := implicit_eq_ok h
  have hrecords : d.graph.Records _ [] (d'.graph, t) := ⟨shape, haccepts, hpush⟩
  have hslice : d.slice d' = d.slice d₁ := Draft.slice_congr hcursor
  refine ⟨?_, ?_, ?_⟩
  · rw [hcursor]
    exact htakes.weights
  · rw [hcursor]
    exact htakes.position
  · rw [hslice]
    exact hrecords.emits rfl

end Emit

/-- A layer without weights owns none. -/
theorem Draft.Owned.of_weightless {d d' : Draft} {kind : LayerKind} (channels : Nat)
    (hkind : kind.isWeighted = false) (hgrows : d.graph.Grows Operation.Weightless d'.graph)
    (hcursor : d'.cursor = d.cursor) : d.Owned kind channels d' := by
  have hnone : kind.weightCount channels = 0 ∧ kind.held (d.slice d') channels = [] := by
    cases kind <;> first | exact ⟨rfl, rfl⟩ | cases hkind
  exact ⟨by rw [hcursor], by rw [hcursor, hnone.1, Nat.add_zero], hnone.2 ▸ hgrows.emits⟩

namespace Build

variable {layers : List Layer} {p p' : Progress} {l : Layer} {d d' : Draft} {source : Shape}

/-- **One layer** takes its slice of the weights, and its nodes hold it. -/
theorem layer_owns {label : String} {t : TensorId} (h : layer layers p l d = .ok (label, t) d')
    (hsource : d.graph.shapeOf p.previous = .ok source) :
    d.Owned l.kind (channelsOf source.dims) d' := by
  rcases hl : l.kind.isWeighted with _ | _
  · obtain ⟨hgrows, hcursor⟩ := Emit.adds_closed.layer layers p l hl _ _ _ h
    exact .of_weightless _ hl hgrows hcursor
  · unfold layer at h
    cases hkind : l.kind with
    | convolution c | deconvolution c =>
      rw [hkind] at h
      obtain ⟨hweights, hposition, hemits⟩ := Emit.convolution_owns (labelled_eq_ok h) hsource
      exact ⟨hweights, hposition, hemits⟩
    | normalization a =>
      rw [hkind] at h
      exact Emit.normalization_owns (labelled_eq_ok h) hsource
    | implicit filters =>
      rw [hkind] at h
      exact Emit.implicit_owns (labelled_eq_ok h)
    | _ =>
      rw [hkind] at hl
      cases hl

/-- **One step** of the pass adds a row, and the layer owns the weights up to the number
in this row. -/
theorem step_owns (h : step layers p l d = .ok p' d') :
    ∃ row, p'.table = p.table ++ [row] ∧ row.weightsTaken = d'.cursor.position ∧
      d.graph.Spans p.previous row.input ∧ d.Owned l.kind (channelsOf row.input) d' := by
  obtain ⟨source, row, hsource, hinput, htaken, htable, hlayer⟩ := step_eq_ok h
  refine ⟨row, htable, htaken, ⟨source, hsource, hinput⟩, ?_⟩
  rw [hinput]
  rcases hlayer with ⟨kind, place, s, hkind, -, -, rfl, -⟩ | ⟨-, label, hlayer, -⟩
  · exact .of_weightless _ (by rw [hkind]; rfl) .refl rfl
  · exact layer_owns hlayer hsource

end Build

/-! ## Counting -/

/-- The channels that a layer normalises. -/
def LayerKind.normalizedChannels (channels : Nat) : LayerKind → Nat
  | convolution c | deconvolution c => if c.normalized then c.filters else 0
  | normalization _ => channels
  | _ => 0

/-- A folded normalisation holds two values for each channel. -/
theorem normalizationOf_parameterCount {slice : Array Scalar} {channels : Nat}
    (h : 4 * channels ≤ slice.size) :
    (Operation.scale (normalizationOf slice channels)).parameterCount = 2 * channels := by
  simp only [Operation.parameterCount, normalizationOf, foldNormalization, Array.size_map,
    Array.size_zip, Array.size_extract]
  omega

theorem Convolution.held_parameterCount {c : Convolution} {transposed : Bool}
    {slice : Array Scalar} {count : Nat}
    (h : slice.size = count + c.biasLength + c.normalizationLength) :
    ((c.held transposed slice).map (·.parameterCount)).sum +
      2 * (if c.normalized then c.filters else 0) = slice.size := by
  have hkernel : (Operation.convolution (c.kernelOf transposed slice)).parameterCount =
      count + c.biasLength := by
    rcases hbias : c.bias with _ | _
    · simp [Operation.parameterCount, kernelOf, biasLength, hbias, h]
    · simp only [Operation.parameterCount, kernelOf, biasLength, hbias, if_true, Option.map,
        Option.getD_some, Array.size_extract] at h ⊢
      omega
  rw [held, List.map_cons, List.sum_cons, hkernel]
  rcases hnormal : c.normalized with _ | _
  · simp [normalizationLength, hnormal] at h
    simpa using h.symm
  · simp only [normalizationLength, hnormal, if_true] at h
    simp only [if_true, List.map_singleton, List.sum_singleton]
    rw [normalizationOf_parameterCount (by omega)]
    omega

/-- What a layer's nodes hold, and twice the channels that it normalises, make up its weights. -/
theorem LayerKind.held_parameterCount {kind : LayerKind} {slice : Array Scalar} {channels : Nat}
    (h : slice.size = kind.weightCount channels) :
    ((kind.held slice channels).map (·.parameterCount)).sum +
      2 * kind.normalizedChannels channels = kind.weightCount channels := by
  cases kind with
  | convolution c => exact (c.held_parameterCount h).trans h
  | deconvolution c => exact (c.held_parameterCount h).trans h
  | normalization a =>
    have hcount := normalizationOf_parameterCount (Nat.le_of_eq h.symm)
    simp only [held, List.map_singleton, List.sum_singleton, hcount,
      normalizedChannels, weightCount]
    omega
  | implicit filters => simpa [held, normalizedChannels, Operation.parameterCount] using h
  | _ => rfl

/-! ## The pass -/

namespace Build

variable {layers : List Layer} {p p' : Progress} {l : Layer} {d d' : Draft}

/-- The channels that layers normalise, as far as the table goes. -/
def normalizedTotal (layers : List Layer) (table : List LayerRow) : Nat :=
  ((layers.zip table).map fun pair =>
    pair.1.kind.normalizedChannels (channelsOf pair.2.input)).sum

/-- The numbers of taken weights in front of each row, and behind the last one. -/
def pointers (table : List LayerRow) : List Nat := 0 :: table.map (·.weightsTaken)

theorem pointers_getLast (table : List LayerRow) :
    (pointers table)[table.length]? = some (((table.getLast?).map (·.weightsTaken)).getD 0) := by
  rcases List.eq_nil_or_concat table with rfl | ⟨front, last, rfl⟩
  · rfl
  · simp [pointers]

/-- **The ledger** of the layers done so far: the table has a row for each of them, its numbers of
taken weights ascend to the place of the cursor, and the values in the graph, with two for each
normalised channel, account for the weights up to there. -/
structure Ledger (done : List Layer) (p : Progress) (d : Draft) : Prop where
  rows : p.table.length = done.length
  sorted : (p.table.map (·.weightsTaken)).Pairwise (· ≤ ·)
  bounded : ∀ row ∈ p.table, row.weightsTaken ≤ d.cursor.position
  last : (pointers p.table)[done.length]? = some d.cursor.position
  total : d.graph.parameterCount + 2 * normalizedTotal done p.table = d.cursor.position

/-- A step whose layer owns its weights keeps the ledger. -/
theorem Ledger.step {done : List Layer} (hledger : Ledger done p d) {row : LayerRow}
    (htable : p'.table = p.table ++ [row]) (htaken : row.weightsTaken = d'.cursor.position)
    (howned : d.Owned l.kind (channelsOf row.input) d') : Ledger (done ++ [l]) p' d' := by
  have hposition := howned.position
  have hsize : (d.slice d').size = l.kind.weightCount (channelsOf row.input) := by
    rw [Draft.size_slice d d' howned.weights, hposition, Nat.add_sub_cancel_left]
  have hcount := LayerKind.held_parameterCount hsize
  have hle : d.cursor.position ≤ d'.cursor.position := by omega
  refine ⟨?_, ?_, ?_, ?_, ?_⟩
  · rw [htable, List.length_append, List.length_append, hledger.rows]
    rfl
  · rw [htable, List.map_append, List.pairwise_append]
    refine ⟨hledger.sorted, List.pairwise_singleton _ _, fun a ha b hb => ?_⟩
    obtain ⟨r, hr, rfl⟩ := List.mem_map.mp ha
    obtain rfl := List.mem_singleton.mp hb
    exact ((hledger.bounded r hr).trans hle).trans_eq htaken.symm
  · intro r hr
    rw [htable] at hr
    rcases List.mem_append.mp hr with hr | hr
    · exact (hledger.bounded r hr).trans hle
    · obtain rfl := List.mem_singleton.mp hr
      exact htaken.le
  · rw [htable, List.length_append, List.length_singleton, pointers, List.getElem?_cons_succ,
      ← hledger.rows]
    simp [htaken]
  · have htotal := hledger.total
    rw [htable, normalizedTotal, List.zip_append hledger.rows.symm, List.map_append,
      List.sum_append, howned.emits.parameterCount, ← normalizedTotal]
    simp only [List.zip_cons_cons, List.zip_nil_right, List.map_cons, List.map_nil, List.sum_cons,
      List.sum_nil]
    omega

/-- **The pass** over some layers keeps the ledger, and neither the weights nor the nodes in front
change. -/
theorem pass_owns {done rest : List Layer} (hledger : Ledger done p d)
    (h : pass layers p rest d = .ok p' d') :
    Ledger (done ++ rest) p' d' ∧ d'.cursor.weights = d.cursor.weights ∧
      d.graph.nodes.toList <+: d'.graph.nodes.toList := by
  induction rest generalizing done p d with
  | nil =>
    obtain ⟨rfl, rfl⟩ := Emit.pure_eq_ok.mp h
    rw [List.append_nil]
    exact ⟨hledger, rfl, List.prefix_rfl⟩
  | cons l rest ih =>
    obtain ⟨p₁, d₁, hstep, hrest⟩ := Emit.bind_eq_ok.mp h
    obtain ⟨row, htable, htaken, -, howned⟩ := step_owns hstep
    rw [List.append_cons]
    obtain ⟨hlast, hweights, hnodes⟩ := ih (hledger.step htable htaken howned) hrest
    obtain ⟨added, hadded, -⟩ := howned.emits
    exact ⟨hlast, hweights.trans howned.weights, (hadded ▸ List.prefix_append _ _).trans hnodes⟩

/-- **The layer of row `i`**, in the state in which the pass reaches it, takes the weights from the
number in front of its row up to its own, and the nodes that it appends hold them. -/
theorem layer_of_pass {start : Progress} {rest : List Layer} {i : Nat} (hstart : Ledger [] start d)
    (h : pass layers start rest d = .ok p' d') (hl : rest[i]? = some l) :
    ∃ row first q e q' e', p'.table[i]? = some row ∧ (pointers p'.table)[i]? = some first ∧
      pass layers start (rest.take i) d = .ok q e ∧ step layers q l e = .ok q' e' ∧
      e.graph.Spans q.previous row.input ∧
      row.weightsTaken = first + l.kind.weightCount (channelsOf row.input) ∧
      e.graph.Emits
        (l.kind.held (d.cursor.weights.extract first row.weightsTaken) (channelsOf row.input))
        e'.graph ∧
      e'.graph.nodes.toList <+: d'.graph.nodes.toList := by
  obtain ⟨q, e, q', e', hbefore, hthis, hbehind⟩ := pass_split h hl
  obtain ⟨row, htable, htaken, hspans, howned⟩ := step_owns hthis
  have hbehind' := pass_table hbehind
  have hfront : q.table <+: p'.table := (htable ▸ List.prefix_append _ _).trans hbehind'
  obtain ⟨hledger, hweights, -⟩ := pass_owns hstart hbefore
  have hi : i < rest.length := (List.getElem?_eq_some_iff.mp hl).1
  have hlength : (rest.take i).length = i := List.length_take_of_le hi.le
  have hrows : q.table.length = i := hledger.rows.trans hlength
  have hrow : p'.table[i]? = some row := by
    refine getElem?_of_front hbehind' ?_
    rw [htable, ← hrows]
    exact List.getElem?_concat_length
  have hfirst : (pointers p'.table)[i]? = some e.cursor.position := by
    have hlast := hledger.last
    rw [List.nil_append, hlength] at hlast
    exact getElem?_of_front ((List.prefix_cons_inj 0).mpr (hfront.map _)) hlast
  have hnodes : e'.graph.nodes.toList <+: d'.graph.nodes.toList := by
    exact (pass_owns (hledger.step htable htaken howned) hbehind).2.2
  refine ⟨row, _, q, e, q', e', hrow, hfirst, hbefore, hthis, hspans, ?_, ?_, hnodes⟩
  · rw [htaken, howned.position]
  · rw [← hweights, htaken]
    exact howned.emits

/-- What is recorded after the pass holds no weights. -/
theorem finish_emits {b : Blueprint} {outputs : NetworkOutputs}
    (h : finish b p d = .ok outputs d') :
    d.graph.Emits [] d'.graph ∧ d'.cursor = d.cursor := by
  rcases finish_eq_ok h with ⟨-, -, rfl⟩ | ⟨-, shapes, -, -, -, rfl⟩
  · exact ⟨.refl _, rfl⟩
  · exact ⟨⟨_, Graph.push_nodes _ _ _ _, rfl⟩, rfl⟩

/-- The ledger of a network with an input and no layer. -/
theorem Ledger.start {weights : WeightBuffer} {input : TensorId} {shape : Shape} (heads : List Head)
    (h : Emit.record (·.addInput inputName shape) { cursor := .start weights } = .ok input d) :
    Ledger [] { previous := input, heads } d ∧ d.cursor = .start weights := by
  obtain ⟨g, hg, rfl⟩ := Emit.record_eq_ok.mp h
  obtain ⟨-, hg⟩ := Graph.addInput_eq_ok hg
  obtain ⟨rfl, -⟩ := Prod.mk.inj hg
  exact ⟨⟨rfl, .nil, fun _ h => absurd h List.not_mem_nil, rfl, rfl⟩, rfl⟩

/-- **Every weight is read once, in the order of the layers, by the layer that it belongs to.** In a
network that has been compiled, the numbers in the table ascend and end with the number of weights.
The layer of row `i`, in the state in which the pass reaches it, takes the weights from the number
in front of its row up to its own, as many as its kind and its channels ask for, and the nodes that
it appends hold exactly these. So the values in the graph, with two for each normalised channel,
account for all weights. -/
theorem weights_owned {b : Blueprint} {weights : WeightBuffer} {m : Model}
    (h : Model.compile b weights = .ok m) :
    (m.built.table.map (·.weightsTaken)).Pairwise (· ≤ ·) ∧
    ((m.built.table.getLast?).map (·.weightsTaken)).getD 0 = weights.size ∧
    (∀ i l, b.layers[i]? = some l → ∃ row start p d p' d',
      m.built.table[i]? = some row ∧
      (pointers m.built.table)[i]? = some start ∧
      reach b i { cursor := .start weights } = .ok p d ∧ step b.layers p l d = .ok p' d' ∧
      d.graph.Spans p.previous row.input ∧
      row.weightsTaken = start + l.kind.weightCount (channelsOf row.input) ∧
      d.graph.Emits (l.kind.held (weights.extract start row.weightsTaken) (channelsOf row.input))
        d'.graph ∧
      d'.graph.nodes.toList <+: m.graph.nodes.toList) ∧
    m.graph.parameterCount + 2 * normalizedTotal b.layers m.built.table = weights.size := by
  unfold Model.compile at h
  split at h
  · next built dend hnetwork =>
    obtain rfl := (Except.ok.inj h).symm
    obtain ⟨input, p, dpass, hbody, hall, hclose⟩ := network_eq_ok.mp hnetwork
    obtain ⟨shape, d₀, hshape, hinput, hpass⟩ := body_eq_ok.mp hbody
    obtain ⟨outputs, hfinish, htable, -⟩ := close_eq_ok hclose
    obtain ⟨hemits, hcursor⟩ := finish_emits hfinish
    obtain ⟨hstart, hzero⟩ := Ledger.start b.heads hinput
    have hstored : weights = d₀.cursor.weights := by rw [hzero]; rfl
    rw [htable]
    obtain ⟨hledger, hweights, -⟩ := pass_owns hstart hpass
    rw [List.nil_append] at hledger
    have hsize : dpass.cursor.position = weights.size := by rw [hall, hweights, hstored]
    refine ⟨hledger.sorted, ?_, fun i l hl => ?_, ?_⟩
    · have hlast := hledger.last
      rw [← hledger.rows, pointers_getLast] at hlast
      exact (Option.some.inj hlast).trans hsize
    · obtain ⟨row, first, q, e, q', e', hrow, hfirst, hbefore, hthis, hspans, htaken,
        hheld, hnodes⟩ :=
        layer_of_pass hstart hpass hl
      obtain ⟨added, hadded, -⟩ := hemits
      rw [← hstored] at hheld
      refine ⟨row, first, q, e, q', e', hrow, hfirst, ?_, hthis, hspans, htaken, hheld,
        hnodes.trans (hadded ▸ List.prefix_append _ _)⟩
      simp only [reach, Emit.bind_eq_ok, Emit.lift_eq_ok]
      exact ⟨shape, _, ⟨hshape, rfl⟩, input, d₀, hinput, hbefore⟩
    · have htotal := hledger.total
      rw [hemits.parameterCount, List.map_nil, List.sum_nil, Nat.add_zero]
      exact htotal.trans hsize
  · cases h

/-- A network of one convolution with a bias and one weight. -/
def pixelBlueprint : Blueprint where
  name := "pixel"
  input := { width := 1, height := 1, channels := 1 }
  layers := [⟨0, .convolution ⟨1, 1, 1, 0, 1, false, true, .linear⟩⟩]
  heads := []
  classes := 0
  activatedHeads := false

theorem weights_owned_pixelBlueprint :
    ∃ m, Model.compile pixelBlueprint #[.zero, .one] = .ok m ∧
      m.graph.parameterCount + 2 * normalizedTotal pixelBlueprint.layers m.built.table = 2 := by
  have hcompiled : (Model.compile pixelBlueprint #[.zero, .one]).toOption.isSome := by
    decide +kernel
  obtain ⟨m, hm⟩ := Option.isSome_iff_exists.mp hcompiled
  have h : Model.compile pixelBlueprint #[.zero, .one] = .ok m := by
    cases h : Model.compile pixelBlueprint #[.zero, .one] <;> rw [h] at hm <;> cases hm
    rfl
  exact ⟨m, h, (weights_owned h).2.2.2⟩

end Build

end GridNet
