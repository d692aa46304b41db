import GridNet.Proofs.BatchDecoding
import GridNet.Proofs.NodeValues

/-!
# Graphs for a batch of one

The graph of a network with a batch of one has the same nodes as its graph for any batch, but for
the windows and extents in which the batch is written down. In such a graph the single tensors are
the values: what a node makes of the single operands is the single result.

* `Operation.single`, `Graph.single` — the same network with a batch of one.
* `Operation.KeepsBatch` — the node leaves the axis of images alone.
* `Operation.apply_single` — one node on single operands.
* `Graph.Batched`, `Graph.Valued.single` — all nodes of a graph.
-/

namespace GridNet

/-! ## Extents -/

theorem agreeExcept_cons {axis j k : Nat} {a b : List Nat} :
    agreeExcept (axis + 1) (j :: a) (k :: b) = true ↔ j = k ∧ agreeExcept axis a b = true := by
  simp only [agreeExcept, List.length_cons, List.range_succ_eq_map, List.all_cons, List.all_map,
    Bool.and_eq_true, decide_eq_true_eq, List.all_eq_true, List.mem_range, Bool.or_eq_true,
    Function.comp_apply, Nat.add_right_cancel_iff, List.getElem?_cons_succ, List.getElem?_cons_zero]
  simp [and_left_comm]

/-- Tensors that are laid end to end behind the axis of images have one batch, and fit together as a
batch of one too. -/
theorem concatExtents_single {axis : Nat} {parts : List (List Nat)} {whole : List Nat}
    (hparts : ∀ dims ∈ parts, dims ≠ []) (h : concatExtents (axis + 1) parts = some whole) :
    ∃ k rest, whole = k :: rest ∧ (∀ dims ∈ parts, ∃ others, dims = k :: others) ∧
      concatExtents (axis + 1) (parts.map (1 :: ·.tail)) = some (1 :: rest) := by
  cases parts with
  | nil => cases h
  | cons first others =>
    obtain ⟨k, front, rfl⟩ := List.exists_cons_of_ne_nil (hparts first List.mem_cons_self)
    rw [concatExtents] at h
    split at h
    · next hagree =>
      obtain rfl := Option.some.inj h
      simp only [Bool.and_eq_true, decide_eq_true_eq, List.all_eq_true] at hagree
      have hothers : ∀ dims ∈ others, ∃ rest, dims = k :: rest ∧
          agreeExcept axis rest front = true := by
        intro dims hd
        obtain ⟨j, rest, rfl⟩ := List.exists_cons_of_ne_nil
          (hparts dims (List.mem_cons_of_mem _ hd))
        obtain ⟨rfl, hrest⟩ := agreeExcept_cons.mp (hagree.2 _ hd)
        exact ⟨rest, rfl, hrest⟩
      refine ⟨k, _, List.set_cons_succ .., fun dims hd => ?_, ?_⟩
      · rcases List.mem_cons.mp hd with rfl | hd
        · exact ⟨front, rfl⟩
        · obtain ⟨rest, hrest, -⟩ := hothers dims hd
          exact ⟨rest, hrest⟩
      · have hextents : ∀ dims : List Nat, ((1 :: dims.tail)[axis + 1]?).getD 0 =
            (dims[axis + 1]?).getD 0 := by
          intro dims
          cases dims <;> rfl
        rw [List.map_cons, concatExtents, if_pos, List.map_cons, List.map_map]
        · simp only [Function.comp_def, hextents, List.set_cons_succ, List.map_cons, List.tail_cons]
          rfl
        · simp only [Bool.and_eq_true, decide_eq_true_eq, List.all_eq_true, List.all_map]
          refine ⟨hagree.1, fun dims hd => ?_⟩
          obtain ⟨rest, rfl, hrest⟩ := hothers dims hd
          exact agreeExcept_cons.mpr ⟨rfl, hrest⟩
    · cases h

theorem broadcastDims_cons {j k : Nat} {a b whole : List Nat}
    (h : broadcastDims (j :: a) (k :: b) = some whole) :
    ∃ n rest, whole = n :: rest ∧ broadcastExtent j k = some n ∧
      broadcastDims (1 :: a) (1 :: b) = some (1 :: rest) := by
  simp only [broadcastDims, Option.bind_eq_bind, Option.bind_eq_some_iff] at h
  obtain ⟨n, hn, rest, hrest, hwhole⟩ := h
  refine ⟨n, rest, (Option.some.inj hwhole).symm, hn, ?_⟩
  rw [broadcastDims, hrest]
  rfl

/-- An order names every axis once. -/
theorem isOrder_not_mem {rank : Nat} {order seen : List Nat} (h : isOrder rank order seen = true) :
    ∀ axis ∈ seen, axis ∉ order := by
  induction order generalizing seen with
  | nil => exact fun _ _ => List.not_mem_nil
  | cons first rest ih =>
    simp only [isOrder, Bool.and_eq_true, Bool.not_eq_true', List.contains_eq_mem,
      decide_eq_false_iff_not] at h
    obtain ⟨⟨-, hfirst⟩, hrest⟩ := h
    intro axis hseen hmem
    rcases List.mem_cons.mp hmem with rfl | hmem
    · exact hfirst hseen
    · exact ih hrest axis (List.mem_cons_of_mem _ hseen) hmem

/-! ## Operations -/

/-- The operation with a **batch of one** where it writes the batch down. -/
def Operation.single : Operation → Operation
  | .slice w => .slice { w with size := 1 :: w.size.tail }
  | .reshape dims => .reshape (1 :: dims.tail)
  | op => op

/-- The operation **leaves the axis of images alone**, on operands and with results of the
given extents. -/
def Operation.KeepsBatch (operands results : List (List Nat)) : Operation → Prop
  | .constant _ => ∃ rest, results = [1 :: rest]
  | .concat axis => 0 < axis
  | .slice w => ∃ k rest start size stride, operands = [k :: rest] ∧
      w = ⟨0 :: start, k :: size, 1 :: stride⟩
  | .resize scales => ∃ k rest others dims, operands = [k :: rest] ∧ scales = .one :: others ∧
      results = [k :: dims] ∧ k ≤ 0x1000000
  | .reshape dims => ∃ k rest others, operands = [k :: rest] ∧ dims = k :: others
  | .transpose order => ∃ rest, order = 0 :: rest
  | _ => True

/-- The values of the inputs for image `b` alone. -/
def Feeds.single (b : Nat) (feeds : Feeds) : Feeds := feeds.map fun (name, t) => (name, t.single b)

theorem Feeds.value?_single (b : Nat) (feeds : Feeds) (name : String) :
    (feeds.single b).value? name = (feeds.value? name).map (Tensor.single b) := by
  rw [value?, value?, single, ← List.map_reverse, List.find?_map, Option.map_map, Option.map_map]
  rfl

/-- The tensor is a batch that is not empty. -/
def Tensor.Led (t : Tensor) : Prop := ∃ k rest, t.dims = k :: rest ∧ 0 < k

theorem operand_map {operands : List Tensor} {i : Nat} {t : Tensor} (f : Tensor → Tensor)
    (h : operand operands i = .ok t) : operand (operands.map f) i = .ok (f t) ∧ t ∈ operands := by
  unfold operand at h ⊢
  split at h
  · next u hu =>
    obtain rfl := Except.ok.inj h
    rw [List.getElem?_map, hu]
    exact ⟨rfl, List.mem_of_getElem? hu⟩
  · cases h

/-- A batch of one is its only member. -/
theorem Tensor.single_of_one {t : Tensor} {rest : List Nat} (ht : t.dims = 1 :: rest) (b : Nat) :
    t.single b = t := by
  conv_rhs => rw [← ofFn_item t]
  rw [single, member, extent_zero ht, Nat.mod_one, ht]
  exact ofFn_congr fun i _ => by rw [Nat.zero_mul, Nat.zero_add]

theorem Tensor.Led.four {t : Tensor} (h : t.Led) (hrank : t.dims.length = 4) :
    ∃ n c y x, t.dims = [n, c, y, x] ∧ 0 < n := by
  obtain ⟨n, rest, ht, hn⟩ := h
  rw [ht] at hrank
  obtain ⟨c, y, x, rfl⟩ := List.length_eq_three.mp (Nat.succ.inj hrank)
  exact ⟨n, c, y, x, ht, hn⟩

namespace Operation

variable {op : Operation} {feeds : Feeds} {operands results : List Tensor} {dims : List Nat}

theorem unary_ok {t v : Tensor} {check : Tensor → Bool} {f : Tensor → Tensor}
    (hread : operand operands 0 = .ok t) (hcheck : check t = true) (hvalue : f t = v) :
    (do let t ← operand operands 0; demand (check t); return [f t] : Outcome (List Tensor)) =
      .ok [v] := by
  rw [hread, Outcome.ok_bind]
  exact Outcome.bind_eq_ok.mpr ⟨(), Outcome.demand_eq_ok.mpr hcheck, by rw [hvalue]; rfl⟩

/-- The only operand, when the extents of all are known. -/
theorem only_operand {k : Nat} {rest : List Nat} {t : Tensor}
    (hone : operands.map (·.dims) = [k :: rest])
    (hoperands : ∀ v ∈ operands, v.Led) (ht : operand operands 0 = .ok t) (b : Nat) :
    operand (operands.map (Tensor.single b)) 0 = .ok (t.single b) ∧ t.dims = k :: rest ∧ 0 < k := by
  obtain ⟨hread, hmem⟩ := operand_map (Tensor.single b) ht
  have hd : t.dims = k :: rest := by simpa [hone] using List.mem_map_of_mem (f := (·.dims)) hmem
  obtain ⟨j, others, hd', hj⟩ := hoperands t hmem
  obtain ⟨rfl, -⟩ := List.cons.inj (hd'.symm.trans hd)
  exact ⟨hread, hd, hj⟩

/-- The batch that all operands have is not empty, if there is an operand. -/
theorem common_batch_pos {k : Nat} (hoperands : ∀ v ∈ operands, v.Led)
    (hbatch : ∀ v ∈ operands, ∃ rest, v.dims = k :: rest) (hsome : operands ≠ []) : 0 < k := by
  obtain ⟨v, hv⟩ := List.exists_mem_of_ne_nil operands hsome
  obtain ⟨j, rest, hd, hj⟩ := hoperands v hv
  obtain ⟨others, hd'⟩ := hbatch v hv
  exact (List.cons.inj (hd.symm.trans hd')).1 ▸ hj

/-- All heads that are decoded have one batch. -/
theorem decode_batch {d : HeadDecoder} {r : DecodedHeads} (h : d.decode operands = .ok r)
    (hoperands : ∀ v ∈ operands, v.Led) :
    ∃ n, 0 < n ∧ ∀ v ∈ operands, ∃ rest, v.dims = n :: rest := by
  obtain ⟨sources, hsources, h⟩ := Outcome.bind_eq_ok.mp h
  obtain ⟨shapes, hshapes, -⟩ := Outcome.bind_eq_ok.mp h
  obtain ⟨hne, n, -, -, -, -, hbatch⟩ :=
    HeadDecoder.batch_of_outputShapes (Outcome.mapM_eq_ok.mp hsources) hshapes
  exact ⟨n, common_batch_pos hoperands hbatch hne, hbatch⟩

section Operators

variable {feeds' : Feeds} {dims' : List Nat} (b : Nat) (hoperands : ∀ v ∈ operands, v.Led)

include hoperands

theorem convolution_single {k : Kernel} (hfirst : results ≠ [] → dims' = 1 :: dims.tail)
    (h : (convolution k).apply feeds operands dims = .ok results) :
    (convolution k).apply feeds' (operands.map (Tensor.single b)) dims' =
      .ok (results.map (Tensor.single b)) := by
  simp only [apply, Outcome.bind_eq_ok, Outcome.demand_eq_ok, Outcome.pure_eq_ok, Bool.and_eq_true,
    decide_eq_true_eq] at h
  obtain ⟨t, ht, -, ⟨⟨hrank, hlength⟩, hfits⟩, rfl⟩ := h
  obtain rfl := hfirst (List.cons_ne_nil _ _)
  obtain ⟨hread, hmem⟩ := operand_map (Tensor.single b) ht
  obtain ⟨n, c, y, x, hd, hn⟩ := (hoperands t hmem).four hrank
  obtain ⟨k', rest, rfl⟩ := List.exists_cons_of_length_eq_add_one hlength
  refine unary_ok hread ?_ (Tensor.convolve_single hd hn ?_)
  · simpa [hd, hfits] using hlength
  · simpa [Tensor.extent, hd] using hfits

theorem scale_single {m : ChannelMap} (h : (scale m).apply feeds operands dims = .ok results) :
    (scale m).apply feeds' (operands.map (Tensor.single b)) dims' =
      .ok (results.map (Tensor.single b)) := by
  simp only [apply, Outcome.bind_eq_ok, Outcome.demand_eq_ok, Outcome.pure_eq_ok,
    decide_eq_true_eq] at h
  obtain ⟨t, ht, -, hrank, rfl⟩ := h
  obtain ⟨hread, hmem⟩ := operand_map (Tensor.single b) ht
  obtain ⟨n, rest, hd, hn⟩ := hoperands t hmem
  have hrest : rest ≠ [] := by
    rintro rfl
    simp [hd] at hrank
  refine unary_ok hread ?_ (Tensor.mapChannels_single m hd hn hrest)
  simpa [hd] using hrank

theorem combine_single {c : Combination} (h : (combine c).apply feeds operands dims = .ok results) :
    (combine c).apply feeds' (operands.map (Tensor.single b)) dims' =
      .ok (results.map (Tensor.single b)) := by
  simp only [apply, Outcome.bind_eq_ok] at h
  obtain ⟨x, hx, y, hy, h⟩ := h
  obtain ⟨hread, hmem⟩ := operand_map (Tensor.single b) hx
  obtain ⟨hread', hmem'⟩ := operand_map (Tensor.single b) hy
  obtain ⟨k, rest, hd, hk⟩ := hoperands x hmem
  obtain ⟨j, others, hd', hj⟩ := hoperands y hmem'
  split at h
  · next whole hwhole =>
    obtain rfl := Outcome.pure_eq_ok.mp h
    rw [hd, hd'] at hwhole
    obtain ⟨n, common, rfl, hn, hsingle⟩ := broadcastDims_cons hwhole
    have hextents : broadcastDims (x.single b).dims (y.single b).dims = some (1 :: common) := by
      rw [Tensor.single_dims, Tensor.single_dims, hd, hd']
      exact hsingle
    simp only [apply, hread, hread', Outcome.ok_bind, hextents, List.map_cons, List.map_nil,
      Tensor.broadcast_single c.apply hd hk hd' hj hn]
    rfl
  · cases h

/-- A map of the elements works on each image by itself. -/
theorem activation_single {p : Pointwise}
    (h : (activation p).apply feeds operands dims = .ok results) :
    (activation p).apply feeds' (operands.map (Tensor.single b)) dims' =
      .ok (results.map (Tensor.single b)) := by
  simp only [apply, Outcome.bind_eq_ok, Outcome.pure_eq_ok] at h
  obtain ⟨t, ht, rfl⟩ := h
  obtain ⟨hread, hmem⟩ := operand_map (Tensor.single b) ht
  obtain ⟨n, rest, hd, hn⟩ := hoperands t hmem
  simp only [apply, hread, Outcome.ok_bind, List.map_cons, List.map_nil,
    ← Tensor.map_single p.apply hd hn]
  rfl

/-- Operands that are laid end to end behind the axis of images have one batch. -/
theorem concat_single {axis : Nat} (haxis : 0 < axis)
    (h : (concat axis).apply feeds operands dims = .ok results) :
    (concat axis).apply feeds' (operands.map (Tensor.single b)) dims' =
      .ok (results.map (Tensor.single b)) := by
  obtain ⟨axis, rfl⟩ := Nat.exists_eq_succ_of_ne_zero (Nat.ne_of_gt haxis)
  simp only [apply] at h
  split at h
  · next whole hwhole =>
    obtain rfl := Outcome.pure_eq_ok.mp h
    have hparts : ∀ d ∈ operands.map (·.dims), d ≠ [] := by
      intro d hd
      obtain ⟨t, ht, rfl⟩ := List.mem_map.mp hd
      obtain ⟨k, rest, hd, -⟩ := hoperands t ht
      exact hd ▸ List.cons_ne_nil _ _
    obtain ⟨k, rest, rfl, hsame, hsingle⟩ := concatExtents_single hparts hwhole
    have hbatch : ∀ t ∈ operands, ∃ others, t.dims = k :: others := fun t ht =>
      hsame _ (List.mem_map_of_mem ht)
    have hk : 0 < k := by
      refine common_batch_pos hoperands hbatch ?_
      rintro rfl
      cases hwhole
    have hextents : concatExtents (axis + 1) ((operands.map (Tensor.single b)).map (·.dims)) =
        some (1 :: rest) := by
      simpa [List.map_map, Function.comp_def] using hsingle
    simp only [apply, hextents, List.map_cons, List.map_nil, Tensor.concat_single hk hbatch]
    rfl
  · cases h

/-- A window over all images becomes one over the single image. -/
theorem slice_single {k : Nat} {rest start size stride : List Nat}
    (hone : operands.map (·.dims) = [k :: rest])
    (h : (slice ⟨0 :: start, k :: size, 1 :: stride⟩).apply feeds operands dims = .ok results) :
    (slice ⟨0 :: start, 1 :: size, 1 :: stride⟩).apply feeds'
      (operands.map (Tensor.single b)) dims' =
      .ok (results.map (Tensor.single b)) := by
  simp only [apply, Outcome.bind_eq_ok, Outcome.demand_eq_ok, Outcome.pure_eq_ok] at h
  obtain ⟨t, ht, -, hfits, rfl⟩ := h
  obtain ⟨hread, hd, hk⟩ := only_operand hone hoperands ht b
  refine unary_ok hread ?_ (Tensor.slice_single hd hk)
  -- the window of the images is the whole axis, before and after
  simp only [SliceWindow.fits, SliceWindow.reach, hd, Tensor.single_dims, List.tail_cons,
    List.zipWith_cons_cons, List.all_cons, Bool.and_eq_true] at hfits ⊢
  exact ⟨hfits.1, rfl, hfits.2.2⟩

/-- A factor of one keeps the images apart, as long as their number is exact as a scalar. -/
theorem resize_single {k : Nat} {rest extents : List Nat} {others : List Scalar}
    (hone : operands.map (·.dims) = [k :: rest]) (hresult : results.map (·.dims) = [k :: extents])
    (hexact : k ≤ 0x1000000) (hfirst : results ≠ [] → dims' = 1 :: dims.tail)
    (h : (resize (.one :: others)).apply feeds operands dims = .ok results) :
    (resize (.one :: others)).apply feeds' (operands.map (Tensor.single b)) dims' =
      .ok (results.map (Tensor.single b)) := by
  simp only [apply, Outcome.bind_eq_ok, Outcome.demand_eq_ok, Outcome.pure_eq_ok] at h
  obtain ⟨t, ht, -, hfits, rfl⟩ := h
  obtain rfl := hfirst (List.cons_ne_nil _ _)
  obtain ⟨hread, hd, hk⟩ := only_operand hone hoperands ht b
  obtain rfl : dims = k :: extents := (List.cons.inj hresult).1
  refine unary_ok hread ?_ (Tensor.enlarge_single hd hk hexact)
  simpa [hd, Tensor.enlarge, Tensor.tabulate, Tensor.ofFn, and_assoc, hk] using hfits

theorem pool_single {p : PoolWindow} (hfirst : results ≠ [] → dims' = 1 :: dims.tail)
    (h : (pool p).apply feeds operands dims = .ok results) :
    (pool p).apply feeds' (operands.map (Tensor.single b)) dims' =
      .ok (results.map (Tensor.single b)) := by
  simp only [apply, Outcome.bind_eq_ok, Outcome.demand_eq_ok, Outcome.pure_eq_ok, Bool.and_eq_true,
    decide_eq_true_eq] at h
  obtain ⟨t, ht, -, ⟨⟨hrank, hlength⟩, hfits⟩, rfl⟩ := h
  obtain rfl := hfirst (List.cons_ne_nil _ _)
  obtain ⟨hread, hmem⟩ := operand_map (Tensor.single b) ht
  obtain ⟨n, c, y, x, hd, hn⟩ := (hoperands t hmem).four hrank
  obtain ⟨k, rest, rfl⟩ := List.exists_cons_of_length_eq_add_one hlength
  refine unary_ok hread ?_ (Tensor.pool_single hd hn)
  simp only [hd, List.take_succ_cons, List.cons.injEq] at hfits
  simpa [hd, hfits.2] using hlength

/-- New extents behind the axis of images hold as many elements for each image as the old ones. -/
theorem reshape_single {k : Nat} {rest others : List Nat}
    (hone : operands.map (·.dims) = [k :: rest])
    (h : (reshape (k :: others)).apply feeds operands dims = .ok results) :
    (reshape (1 :: others)).apply feeds' (operands.map (Tensor.single b)) dims' =
      .ok (results.map (Tensor.single b)) := by
  simp only [apply, Outcome.bind_eq_ok, Outcome.demand_eq_ok, Outcome.pure_eq_ok,
    decide_eq_true_eq] at h
  obtain ⟨t, ht, -, hvolume, rfl⟩ := h
  obtain ⟨hread, hd, hk⟩ := only_operand hone hoperands ht b
  refine unary_ok hread ?_ (Tensor.reshape_single hd hk hvolume)
  rw [hd, volume, volume] at hvolume
  simpa [hd, volume] using Nat.eq_of_mul_eq_mul_left hk hvolume

/-- An order that leaves the axis of images in front moves the others among themselves. -/
theorem transpose_single {order : List Nat}
    (h : (transpose (0 :: order)).apply feeds operands dims = .ok results) :
    (transpose (0 :: order)).apply feeds' (operands.map (Tensor.single b)) dims' =
      .ok (results.map (Tensor.single b)) := by
  simp only [apply, Outcome.bind_eq_ok, Outcome.demand_eq_ok, Outcome.pure_eq_ok, Bool.and_eq_true,
    decide_eq_true_eq] at h
  obtain ⟨t, ht, -, ⟨hrank, horder⟩, rfl⟩ := h
  obtain ⟨hread, hmem⟩ := operand_map (Tensor.single b) ht
  obtain ⟨n, rest, hd, hn⟩ := hoperands t hmem
  refine unary_ok hread ?_ (Tensor.transpose_single hd hn ?_)
  · simpa [hd] using And.intro hrank horder
  · rw [isOrder, Bool.and_eq_true] at horder
    rintro axis haxis rfl
    exact isOrder_not_mem horder.2 0 List.mem_cons_self haxis

theorem decode_single {d : HeadDecoder} (h : (decode d).apply feeds operands dims = .ok results) :
    (decode d).apply feeds' (operands.map (Tensor.single b)) dims' =
      .ok (results.map (Tensor.single b)) := by
  simp only [apply, Outcome.bind_eq_ok, Outcome.pure_eq_ok] at h
  obtain ⟨r, hr, rfl⟩ := h
  obtain ⟨n, hn, hbatch⟩ := decode_batch hr hoperands
  simp only [apply, HeadDecoder.decode_single hn hbatch hr]
  rfl

end Operators

/-- **One node on single operands** has the single results. -/
theorem apply_single (b : Nat) (hop : op.KeepsBatch (operands.map (·.dims)) (results.map (·.dims)))
    (hoperands : ∀ v ∈ operands, v.Led) (hdims : ((results.head?).map (·.dims)).getD [] = dims)
    (h : op.apply feeds operands dims = .ok results) :
    op.single.apply (feeds.single b) (operands.map (Tensor.single b))
      ((((results.map (Tensor.single b)).head?).map (·.dims)).getD []) =
        .ok (results.map (Tensor.single b)) := by
  have hfirst : results ≠ [] →
      (((results.map (Tensor.single b)).head?).map (·.dims)).getD [] = 1 :: dims.tail := by
    intro hsome
    obtain ⟨v, rest, rfl⟩ := List.exists_cons_of_ne_nil hsome
    rw [← hdims]
    rfl
  cases op with
  | input name =>
    simp only [apply] at h
    split at h
    · next t ht =>
      obtain rfl := Outcome.pure_eq_ok.mp h
      simp only [single, apply, Feeds.value?_single, ht]
      rfl
    · cases h
  | convolution k => exact convolution_single b hoperands hfirst h
  | scale m => exact scale_single b hoperands h
  | combine c => exact combine_single b hoperands h
  | activation p => exact activation_single b hoperands h
  | constant values =>
    simp only [apply] at h
    split at h
    · next t ht =>
      obtain rfl := Outcome.pure_eq_ok.mp h
      obtain ⟨rest, hone⟩ := hop
      have hd : t.dims = 1 :: rest := by simpa using hone
      have hvalues : Tensor.ofArray? t.dims values = some t := by
        rw [← ht, ← hdims]
        rfl
      simp only [single, apply, List.map_cons, List.map_nil, Tensor.single_of_one hd,
        List.head?_cons, Option.map_some, Option.getD_some, hvalues]
      rfl
    · cases h
  | concat axis => exact concat_single b hoperands hop h
  | slice w =>
    obtain ⟨k, rest, start, size, stride, hone, rfl⟩ := hop
    exact slice_single b hoperands hone h
  | resize scales =>
    obtain ⟨k, rest, others, extents, hone, rfl, hresult, hexact⟩ := hop
    exact resize_single b hoperands hone hresult hexact hfirst h
  | pool p => exact pool_single b hoperands hfirst h
  | reshape extents =>
    obtain ⟨k, rest, others, hone, rfl⟩ := hop
    exact reshape_single b hoperands hone h
  | transpose order =>
    obtain ⟨order, rfl⟩ := hop
    exact transpose_single b hoperands h
  | decode d => exact decode_single b hoperands h

end Operation

/-! ## Graphs -/

theorem Reads.single {vs : List Tensor} {ids : List TensorId} {values : List Tensor}
    (h : Reads vs ids values) (b : Nat) :
    Reads (vs.map (Tensor.single b)) ids (values.map (Tensor.single b)) := by
  refine List.forall₂_map_right_iff.mpr (h.imp fun t v ht => ?_)
  rw [List.getElem?_map, ht]
  rfl

/-- A node of the graph for a batch of one. -/
def Node.single (node : Node) : Node := { node with operation := node.operation.single }

/-- What this graph records about a tensor. -/
def TensorEntry.single (e : TensorEntry) : TensorEntry := { e with shape := e.shape.single }

namespace Graph

variable {g g' : Graph} {B : Nat → Prop}

/-- The graph for a **batch of one**. -/
def single (g : Graph) : Graph :=
  { g with nodes := g.nodes.map Node.single, tensors := g.tensors.map TensorEntry.single }

@[simp] theorem single_nodes (g : Graph) : g.single.nodes.toList = g.nodes.toList.map Node.single :=
  Array.toList_map

@[simp] theorem single_tensors (g : Graph) :
    g.single.tensors.toList = g.tensors.toList.map TensorEntry.single := Array.toList_map

@[simp] theorem size_single (g : Graph) : g.single.tensors.size = g.tensors.size := Array.size_map

theorem entry_single {t : TensorId} {e : TensorEntry} (h : g.entry t = .ok e) :
    g.single.entry t = .ok e.single := by
  unfold entry at h ⊢
  split at h
  · next e' he =>
    obtain rfl := Except.ok.inj h
    simp only [single, Array.getElem?_map, he, Option.map_some]
  · cases h

theorem shapeOf_single {t : TensorId} {s : Shape} (h : g.shapeOf t = .ok s) :
    g.single.shapeOf t = .ok s.single := by
  obtain ⟨e, he, rfl⟩ := Outcome.map_eq_ok.mp h
  exact Outcome.map_eq_ok.mpr ⟨e.single, entry_single he, rfl⟩

/-- A node is appended to both graphs. -/
theorem push_single (g : Graph) (op : Operation) (inputs : List TensorId) (shapes : List Shape) :
    g.single.push op.single inputs (shapes.map Shape.single) =
      ((g.push op inputs shapes).1.single, (g.push op inputs shapes).2) := by
  simp [push, single, Node.single, TensorEntry.single, Function.comp_def]

/-- The well-formedness of a graph is one of its numbering. -/
theorem WellFormed.single (hg : g.WellFormed) : g.single.WellFormed where
  outputs := by
    rw [single_nodes, List.flatMap_map, size_single]
    exact hg.outputs
  inputs before node after h t ht := by
    rw [single_nodes, List.map_eq_append_iff] at h
    obtain ⟨before, rest, hnodes, rfl, hrest⟩ := h
    obtain ⟨node, after, rfl, rfl, rfl⟩ := List.map_eq_cons_iff.mp hrest
    rw [List.flatMap_map]
    exact hg.inputs before node after hnodes t ht
  declared entry h := (size_single g).symm ▸ hg.declared entry h
  marked entry h := (size_single g).symm ▸ hg.marked entry h

/-- A node of the graph **leaves the axis of images alone**. -/
def Keeps (g : Graph) (node : Node) : Prop :=
  ∃ operands results, List.Forall₂ g.Spans node.inputs operands ∧
    List.Forall₂ g.Spans node.outputs results ∧ node.operation.KeepsBatch operands results

/-- A graph whose tensors are **batches of certain sizes**, and of which no node touches the axis of
images. The sizes that occur are that of the input, and one where there are constants. -/
structure Batched (B : Nat → Prop) (g : Graph) : Prop where
  extents : ∀ e ∈ g.tensors.toList, ∃ k rest, e.shape.dims = k :: rest ∧ B k
  nodes : ∀ node ∈ g.nodes.toList, g.Keeps node

theorem Keeps.within {node : Node} (h : g.Keeps node) (hfront : g.Within g') : g'.Keeps node := by
  obtain ⟨operands, results, hoperands, hresults, hop⟩ := h
  exact ⟨operands, results, hoperands.imp fun _ _ => hfront.spans,
    hresults.imp fun _ _ => hfront.spans, hop⟩

theorem Batched.shapeOf (hg : g.Batched B) {t : TensorId} {s : Shape} (h : g.shapeOf t = .ok s) :
    ∃ k rest, s.dims = k :: rest ∧ 0 < k ∧ B k := by
  obtain ⟨e, he, rfl⟩ := Option.map_eq_some_iff.mp (shapeOf_eq_ok.mp h)
  rw [← Array.getElem?_toList] at he
  obtain ⟨k, rest, hdims, hk⟩ := hg.extents e (List.mem_of_getElem? he)
  exact ⟨k, rest, hdims, e.shape.positive k (hdims ▸ List.mem_cons_self), hk⟩

/-- One more node. -/
theorem Batched.push (hg : g.Batched B) {op : Operation} {inputs : List TensorId}
    {shapes : List Shape}
    {operands : List (List Nat)} (hinputs : List.Forall₂ g.Spans inputs operands)
    (hop : op.KeepsBatch operands (shapes.map (·.dims)))
    (hshapes : ∀ s ∈ shapes, ∃ k rest, s.dims = k :: rest ∧ B k) :
    (g.push op inputs shapes).1.Batched B where
  extents e he := by
    rw [push_tensors] at he
    rcases List.mem_append.mp he with he | he
    · exact hg.extents e he
    · obtain ⟨s, hs, rfl⟩ := List.mem_map.mp he
      exact hshapes s hs
  nodes node hnode := by
    have hfront := within_push g op inputs shapes
    rw [push_nodes] at hnode
    rcases List.mem_append.mp hnode with hnode | hnode
    · exact (hg.nodes node hnode).within hfront
    · obtain rfl := List.mem_singleton.mp hnode
      refine ⟨operands, shapes.map (·.dims), hinputs.imp fun _ _ => hfront.spans, ?_, hop⟩
      refine List.forall₂_iff_get.mpr ⟨by simp, fun i hi hi' => ?_⟩
      rw [List.length_map] at hi'
      refine ⟨shapes[i], shapeOf_eq_ok.mpr ?_, by simp⟩
      rw [← Array.getElem?_toList, push_tensors, List.getElem?_append_right (by simp)]
      simp [hi']

/-! ## Values -/

variable {feeds : Feeds} {vs : List Tensor}

/-- What is read has the extents that are recorded. -/
theorem Valued.dims_eq (hv : g.Valued feeds vs) {ids : List TensorId} {values : List Tensor}
    {extents : List (List Nat)} (h : Reads vs ids values)
    (hspans : List.Forall₂ g.Spans ids extents) :
    values.map (·.dims) = extents := by
  induction h generalizing extents with
  | nil => exact (List.forall₂_nil_left_iff.mp hspans).symm
  | cons ht _ ih =>
    obtain ⟨dims, rest, ⟨s, hs, rfl⟩, hrest, rfl⟩ := List.forall₂_cons_left_iff.mp hspans
    rw [List.map_cons, ih hrest, (spans_iff hs).mp (hv.shapeOf ht)]

/-- **The single tensors are the values** of the graph for a batch of one. -/
theorem Valued.single (hv : g.Valued feeds vs) (hg : g.Batched B) (b : Nat) :
    g.single.Valued (feeds.single b) (vs.map (Tensor.single b)) := by
  have hled : ∀ v ∈ vs, v.Led := by
    intro v hmem
    obtain ⟨t, ht⟩ := List.mem_iff_getElem?.mp hmem
    obtain ⟨s, hs, hdims⟩ := hv.shapeOf ht
    obtain ⟨k, rest, hd, hk, -⟩ := hg.shapeOf hs
    exact ⟨k, rest, hdims.trans hd, hk⟩
  refine ⟨?_, fun u hu => ?_, fun node hnode => ?_⟩
  · rw [single_tensors, List.map_map, List.map_map]
    have htails := congrArg (List.map fun dims : List Nat => 1 :: dims.tail) hv.shapes
    rw [List.map_map, List.map_map] at htails
    exact htails
  · obtain ⟨v, hmem, rfl⟩ := List.mem_map.mp hu
    obtain ⟨k, rest, hd, hk⟩ := hled v hmem
    refine lt_of_le_of_lt ?_ (hv.small v hmem)
    rw [(v.single b).size_eq, v.size_eq, Tensor.single_dims, hd, List.tail_cons, volume, volume,
      Nat.one_mul]
    exact Nat.le_mul_of_pos_left _ hk
  · rw [single_nodes] at hnode
    obtain ⟨node, hmem, rfl⟩ := List.mem_map.mp hnode
    obtain ⟨operands, results, hoperands, hresults, happly⟩ := hv.computed node hmem
    obtain ⟨sources, shapes, hsources, hshapes, hop⟩ := hg.nodes node hmem
    obtain rfl := hv.dims_eq hoperands hsources
    obtain rfl := hv.dims_eq hresults hshapes
    refine ⟨_, _, Reads.single hoperands b, Reads.single hresults b,
      Operation.apply_single b hop (fun v hmem => ?_) rfl happly⟩
    exact hled v (hoperands.mem v hmem)

/-! ## Runs -/

/-- Outputs can be sorted by name before or after something is made of each value. -/
theorem map_sorted {α β : Type} (f : α → β) (outputs : List (String × α)) :
    (outputs.map fun o => (o.1, f o.2)).mergeSort (fun a b => a.1 ≤ b.1) =
      (outputs.mergeSort fun a b => a.1 ≤ b.1).map fun o => (o.1, f o.2) := by
  refine (List.map_mergeSort ?_).symm
  exact fun _ _ _ _ => rfl

theorem namedValues_single (g : Graph) (vs : List Tensor) (b : Nat) :
    g.single.namedValues (vs.map (Tensor.single b)) =
      (g.namedValues vs).map fun (name, v) => (name, v.single b) := by
  rw [namedValues, namedValues, List.map_filterMap]
  refine List.filterMap_congr fun entry _ => ?_
  obtain ⟨name, t⟩ := entry
  dsimp only
  rw [List.getElem?_map, Option.map_map, Option.map_map]
  rfl

/-- The extents that are recorded for the named outputs, ascending by name. -/
def outputExtents (g : Graph) : List (List Nat) :=
  ((g.outputs.filterMap fun (name, t) => g.tensors[t]?.map (name, ·.shape.dims)).mergeSort
    fun a b => a.1 ≤ b.1).map (·.2)

/-- The values of the named outputs have the recorded extents. -/
theorem Valued.outputExtents (hv : g.Valued feeds vs) :
    ((g.namedValues vs).mergeSort fun a b => a.1 ≤ b.1).map (·.2.dims) = g.outputExtents := by
  have hnamed : (g.namedValues vs).map (fun o => (o.1, o.2.dims)) =
      g.outputs.filterMap fun (name, t) => g.tensors[t]?.map (name, ·.shape.dims) := by
    rw [namedValues, List.map_filterMap]
    refine List.filterMap_congr fun entry _ => ?_
    obtain ⟨name, t⟩ := entry
    have hdims := congrArg (·[t]?) hv.shapes
    simp only [List.getElem?_map, Array.getElem?_toList] at hdims
    dsimp only
    rw [Option.map_map]
    have hpair := congrArg (Option.map (Prod.mk name)) hdims
    rwa [Option.map_map, Option.map_map] at hpair
  rw [Graph.outputExtents, ← hnamed, map_sorted, List.map_map]
  rfl

/-- **A run on one image** returns, under the same names and in the same order, the single tensors
of what the run on the whole batch returns. -/
theorem Valued.runNamed_single (hg : g.WellFormed) (hv : g.Valued feeds vs)
    (hb : g.Batched B) (b : Nat) :
    ∃ outputs, (g.runNamed feeds).outputs = .ok outputs ∧ (∀ o ∈ outputs, o.2 ∈ vs) ∧
      outputs.map (·.2.dims) = g.outputExtents ∧
      (g.single.runNamed (feeds.single b)).outputs =
        .ok (outputs.map fun (name, v) => (name, v.single b)) := by
  refine ⟨_, by rw [hv.runNamed hg], fun o ho => ?_, hv.outputExtents, ?_⟩
  · obtain ⟨entry, -, ho⟩ := List.mem_filterMap.mp (List.mem_mergeSort.mp ho)
    obtain ⟨v, hget, rfl⟩ := Option.map_eq_some_iff.mp ho
    exact List.mem_of_getElem? hget
  · rw [(hv.single hb b).runNamed hg.single, namedValues_single]
    exact congrArg Except.ok (map_sorted (Tensor.single b) (g.namedValues vs))

end Graph

end GridNet
