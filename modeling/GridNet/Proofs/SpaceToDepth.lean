import GridNet.Proofs.FoundValues
import GridNet.Proofs.LayerSizes
import GridNet.Proofs.MovedElements

/-!
# Positions that become channels

Two layers turn blocks of positions into channels. Nothing is computed: the elements are moved, each
of them to one place. They differ in what they call a block. One stacks the phases of a grid of
pairs; the other one reads the data as if it had fewer channels and more positions, and only then
takes the steps within a block for channels.

* `ravel_merge` — axes that are read as one.
* `Emit.reorg3d_moves` — the four phases as channels, for even extents and no others.
* `Emit.reorg_moves` — the steps within a block as channels.
-/

namespace GridNet

/-! ## Axes that are read as one -/

/-- Two axes **read as one**: the place is the same. -/
theorem ravel_merge {e l : Nat} (hl : l < e) (d k : Nat) (dims ks : List Nat) :
    ravel (d * e :: dims) ((k * e + l) :: ks) = ravel (d :: e :: dims) (k :: l :: ks) := by
  have hinside : k * e + l < d * e ↔ k < d := by
    constructor
    · intro h
      exact Nat.lt_of_mul_lt_mul_right (lt_of_le_of_lt (Nat.le_add_right _ l) h)
    · exact fun h => place_lt h hl
  simp only [ravel, hinside, if_pos hl, volume, Option.map_map]
  congr 2
  funext i
  simp only [Function.comp_apply]
  ring

/-- Places agree behind an axis where they agree on the rest. -/
theorem ravel_cons_congr {dims dims' ks ks' : List Nat} (hvolume : volume dims = volume dims')
    (h : ravel dims ks = ravel dims' ks') (d k : Nat) :
    ravel (d :: dims) (k :: ks) = ravel (d :: dims') (k :: ks') := by
  rw [ravel, ravel, h, hvolume]

namespace Tensor

variable {t : Tensor} {dims dims' ks ks' : List Nat}

/-- Under any extents, what stands at a place is the same. -/
theorem get_reshape_congr (h : ravel dims ks = ravel dims' ks') :
    (t.reshape dims).get ks = (t.reshape dims').get ks' := by
  cases hplace : ravel dims ks with
  | none =>
    have hplace' := h ▸ hplace
    simp only [get, reshape, ofFn, hplace, hplace']
  | some i =>
    have hplace' := h ▸ hplace
    rw [get_of_ravel (t := t.reshape dims) hplace, get_of_ravel (t := t.reshape dims') hplace',
      item_reshape (ravel_lt hplace), item_reshape (ravel_lt hplace')]

theorem reshape_self (t : Tensor) : t.reshape t.dims = t := ofFn_item t

theorem reshape_reshape (h : volume dims = volume dims') :
    (t.reshape dims).reshape dims' = t.reshape dims' :=
  ofFn_congr fun _ hi => item_reshape (h ▸ hi)

end Tensor

namespace Emit

variable {feeds : Feeds} {d : Draft} {input : TensorId} {x : Tensor} {n c h w : Nat}

/-! ## Phases -/

/-- Where the elements of stacked phases come from: the phase, of which the row is the faster part,
is the slower part of the channel. -/
def phaseSource (c : Nat) : List Nat → List Nat
  | [k, j, i] => [k % c, 2 * j + k / c % 2, 2 * i + k / c / 2]
  | ks => ks

/-- All positions of a grid are in one of the four phases, at one place. -/
theorem phaseSource_bijective (hc : 0 < c) (hh : 2 ∣ h) (hw : 2 ∣ w) :
    Set.BijOn (phaseSource c) {ks | Inside [4 * c, h / 2, w / 2] ks}
    {ks | Inside [c, h, w] ks} := by
  obtain ⟨h, rfl⟩ := hh
  obtain ⟨w, rfl⟩ := hw
  simp only [Nat.mul_div_cancel_left _ Nat.two_pos]
  have hfour : ∀ k < 4 * c, k / c < 4 := fun k hk => Nat.div_lt_of_lt_mul (by rwa [Nat.mul_comm])
  refine ⟨fun ks hks => ?_, fun ks hks ks' hks' heq => ?_, fun ks hks => ?_⟩
  · obtain ⟨k, j, i, rfl, hk, hj, hi⟩ := Inside.exists_three hks
    have hphase := hfour k hk
    exact inside_three.mpr ⟨Nat.mod_lt k hc, by omega, by omega⟩
  · obtain ⟨k, j, i, rfl, hk, -, -⟩ := Inside.exists_three hks
    obtain ⟨k', j', i', rfl, hk', -, -⟩ := Inside.exists_three hks'
    have hphase := hfour k hk
    have hphase' := hfour k' hk'
    simp only [phaseSource, List.cons.injEq, and_true] at heq
    obtain ⟨hchannel, hrow, hcolumn⟩ := heq
    -- the row and the column say what the phase is
    obtain ⟨p, hp⟩ : ∃ p, k / c = p := ⟨_, rfl⟩
    obtain ⟨p', hp'⟩ : ∃ p', k' / c = p' := ⟨_, rfl⟩
    rw [hp] at hphase hrow hcolumn
    rw [hp'] at hphase' hrow hcolumn
    obtain ⟨rfl, rfl, rfl⟩ : j = j' ∧ i = i' ∧ p = p' := by omega
    rw [← Nat.div_add_mod k c, ← Nat.div_add_mod k' c, hp, hp', hchannel]
  · obtain ⟨k, j, i, rfl, hk, hj, hi⟩ := Inside.exists_three hks
    obtain ⟨hdiv, hmod⟩ := place_div_mod (j % 2 + 2 * (i % 2)) hk
    refine ⟨[(j % 2 + 2 * (i % 2)) * c + k, j / 2, i / 2],
      inside_three.mpr ⟨?_, by omega, by omega⟩, ?_⟩
    · exact place_lt (by omega) hk
    · rw [phaseSource, hdiv, hmod, List.cons.injEq, List.cons.injEq, List.cons.injEq]
      exact ⟨rfl, by omega, by omega, rfl⟩

/-- A phase is cut out. -/
theorem phase_goesOn {vs : List Tensor} (hd : d.Valued feeds vs) (hx : vs[input]? = some x)
    (hdims : x.dims = [n, c, h, w]) (hh : 2 ∣ h) (hw : 2 ∣ w) {start : Nat × Nat}
    (hstart : start ∈ phases) :
    GoesOn feeds d vs (record (·.addSlice input (SliceWindow.phase n c h w start))) fun t vs' =>
      vs'[t]? = some (Interpreter.phase x start.1 start.2) := by
  have hsmall : start.1 < 2 ∧ start.2 < 2 := by
    revert start
    decide
  have hpositive : ∀ e ∈ [n, c, h, w], 0 < e := hdims ▸ extents_pos hd hx
  obtain ⟨hn, hc, hh', hw'⟩ := forall_mem_extents.mp hpositive
  have hvolume : volume [n, c, h, w] < Word.signedModulus := hdims ▸ volume_lt hd hx
  have hword : ∀ e ∈ [n, c, h, w], e ≤ Word.modulus := fun e he =>
    ((le_volume hpositive e he).trans_lt (Word.lt_modulus hvolume)).le
  obtain ⟨hnword, hcword, hhword, hwword⟩ := forall_mem_extents.mp hword
  have hwindow : Interpreter.phase x start.1 start.2 =
      x.slice [0, 0, start.1, start.2] [n, c, h / 2, w / 2] [1, 1, 2, 2] := by
    simp [Interpreter.phase, Tensor.extent, hdims]
  rw [hwindow]
  refine slice_goesOn hd hx ?_ (List.cons_ne_nil _ _) (Graph.checkSlice_of_forall ?_) ?_ ?_
  · simp [SliceWindow.phase, SliceWindow.fits, SliceWindow.reach, hdims]
    omega
  · intro part hpart
    simp only [hdims, SliceWindow.phase, List.zip_cons_cons, List.zip_nil_right, List.mem_cons,
      List.not_mem_nil, or_false] at hpart
    rcases hpart with rfl | rfl | rfl | rfl <;> dsimp only <;> omega
  · exact forall_mem_extents.mpr ⟨hn, hc, by omega, by omega⟩
  · refine lt_of_le_of_lt ?_ hvolume
    exact Nat.mul_le_mul_left n (Nat.mul_le_mul_left c (Nat.mul_le_mul (Nat.div_le_self h 2)
      (Nat.mul_le_mul_right 1 (Nat.div_le_self w 2))))

/-- The phases of a tensor, stacked. -/
def stacked (n c h w : Nat) (x : Tensor) : Tensor :=
  .concat 1 [n, 4 * c, h / 2, w / 2] (phases.map fun start => Interpreter.phase x start.1 start.2)

theorem stacked_extents (hdims : x.dims = [n, c, h, w]) :
    concatExtents 1 ((phases.map fun start => Interpreter.phase x start.1 start.2).map (·.dims)) =
      some [n, 4 * c, h / 2, w / 2] := by
  have hsum : c + (c + (c + c)) = 4 * c := by ring
  simp [phases, Interpreter.phase, Tensor.slice, Tensor.tabulate, Tensor.ofFn, Tensor.extent, hdims,
    concatExtents, agreeExcept, hsum]

/-- **An element of the stacked phases.** -/
theorem get_stacked (hdims : x.dims = [n, c, h, w]) {start : Nat × Nat}
    {b p k j i : Nat} (hb : b < n)
    (hstart : phases[p]? = some start) (hk : k < c) (hj : j < h / 2) (hi : i < w / 2) :
    (stacked n c h w x).get [b, p * c + k, j, i] =
      x.get [b, k, 2 * j + start.1, 2 * i + start.2] := by
  have hp : p < 4 := (List.getElem?_eq_some_iff.mp hstart).1
  have hextent : ∀ part ∈ phases.map fun start => Interpreter.phase x start.1 start.2,
      part.extent 1 = c := by
    simp [phases, Interpreter.phase, Tensor.slice, Tensor.tabulate, Tensor.ofFn,
      Tensor.extent, hdims]
  have hinside : Inside [n, 4 * c, h / 2, w / 2] [b, p * c + k, j, i] :=
    inside_cons.mpr ⟨hb, inside_three.mpr ⟨place_lt hp hk, hj, hi⟩⟩
  have hpart : (phases.map fun start => Interpreter.phase x start.1 start.2)[p]? =
      some (Interpreter.phase x start.1 start.2) := by
    rw [List.getElem?_map, hstart, Option.map_some]
  have hphase : Interpreter.phase x start.1 start.2 =
      x.slice [0, 0, start.1, start.2] [n, c, h / 2, w / 2] [1, 1, 2, 2] := by
    simp [Interpreter.phase, Tensor.extent, hdims]
  calc (stacked n c h w x).get [b, p * c + k, j, i]
      = Tensor.pick 1 [b, p * c + k, j, i] (p * c + k)
          (phases.map fun start => Interpreter.phase x start.1 start.2) :=
            Tensor.get_tabulate hinside
    _ = (Interpreter.phase x start.1 start.2).get [b, k, j, i] :=
      Tensor.pick_of_extent hextent hpart hk
    _ = x.get [0 + b * 1, 0 + k * 1, start.1 + j * 2, start.2 + i * 2] := by
      rw [hphase]
      exact Tensor.get_slice (inside_cons.mpr ⟨hb, inside_three.mpr ⟨hk, hj, hi⟩⟩)
    _ = x.get [b, k, 2 * j + start.1, 2 * i + start.2] := by
      rw [Nat.zero_add, Nat.zero_add, Nat.mul_one, Nat.mul_one, Nat.add_comm start.1,
        Nat.add_comm start.2, Nat.mul_comm j, Nat.mul_comm i]

theorem stacked_moved (hdims : x.dims = [n, c, h, w]) (hc : 0 < c) (hh : 2 ∣ h) (hw : 2 ∣ w) :
    Tensor.Moved (phaseSource c) x (stacked n c h w x) where
  images := by rw [hdims]; rfl
  bijective := by
    rw [hdims]
    exact phaseSource_bijective hc hh hw
  element b ks hks := by
    obtain ⟨hb, hks⟩ := inside_cons.mp hks
    obtain ⟨k, j, i, rfl, hk, hj, hi⟩ := Inside.exists_three hks
    have hp : k / c < 4 := Nat.div_lt_of_lt_mul (by rwa [Nat.mul_comm])
    have hstart : ∀ p < 4, phases[p]? = some (p % 2, p / 2) := by decide
    have hmoved := get_stacked hdims hb (hstart _ hp) (Nat.mod_lt k hc) hj hi
    rwa [Nat.div_add_mod'] at hmoved

theorem reorg3d_goesOn {vs : List Tensor} (hd : d.Valued feeds vs) (hx : vs[input]? = some x)
    (hdims : x.dims = [n, c, h, w]) (hh : 2 ∣ h) (hw : 2 ∣ w) (block : Nat) :
    GoesOn feeds d vs (reorg3d input block) fun t vs' => vs'[t]? = some (stacked n c h w x) := by
  obtain ⟨hn, hc, hh', hw'⟩ := forall_mem_extents.mp (hdims ▸ extents_pos hd hx)
  have hvolume : volume [n, 4 * c, h / 2, w / 2] = volume x.dims := by
    obtain ⟨h, rfl⟩ := hh
    obtain ⟨w, rfl⟩ := hw
    rw [hdims, Nat.mul_div_cancel_left _ Nat.two_pos, Nat.mul_div_cancel_left _ Nat.two_pos]
    simp only [volume]
    ring
  refine .after_nchw (s := ⟨n, c, h, w⟩) hd hx hdims (.after_lift (a := ()) ?_ ?_)
  · simp [Nat.mod_eq_zero_of_dvd hh, Nat.mod_eq_zero_of_dvd hw]
  refine .bind (.mapM hd fun start hstart d' vs' hd' hfront =>
    phase_goesOn hd' (getElem?_of_front hfront hx) hdims
    hh hw hstart) fun parts d' vs' hd' _ hparts => ?_
  exact concat_goesOn hd' hparts (stacked_extents hdims)
    (forall_mem_extents.mpr ⟨hn, by omega, by omega, by omega⟩) (hvolume.trans_lt (volume_lt hd hx))

/-- An odd extent is refused before anything is recorded. -/
theorem reorg3d_refused (hinput : nchw input d = .ok ⟨n, c, h, w⟩ d) (hodd : ¬ (2 ∣ h ∧ 2 ∣ w))
    (block : Nat) :
    reorg3d input block d = .error
      (.note s!"block {block}: reorg3d needs even spatial dims (got {h}x{w})") d := by
  have hrefused : ensure (decide (h % 2 = 0) && decide (w % 2 = 0))
      s!"block {block}: reorg3d needs even spatial dims (got {h}x{w})" =
        .error (.note s!"block {block}: reorg3d needs even spatial dims (got {h}x{w})") := by
    rw [ensure, if_neg]
    simpa [Nat.dvd_iff_mod_eq_zero] using hodd
  simp only [reorg3d, bind, EStateM.bind, hinput, lift, hrefused]

/-- **Phases become channels.** For even extents the layer is built, and what its nodes compute are
the phases: phase `p`, with the rows and columns from its start on, makes channels `p * c` to
`(p + 1) * c`. Nothing is lost and nothing is repeated within an image. For an odd extent the layer
is refused, and no node is added. -/
theorem reorg3d_moves (hg : d.graph.Reachable) (hx : d.graph.Finds feeds input x)
    (hdims : x.dims = [n, c, h, w]) (block : Nat) :
    (2 ∣ h → 2 ∣ w → ∃ t d' y, reorg3d input block d = .ok t d' ∧ d'.graph.Finds feeds t y ∧
      y.dims = [n, 4 * c, h / 2, w / 2] ∧
      (∀ p row column, [(0, 0), (1, 0), (0, 1), (1, 1)][p]? = some (row, column) →
        ∀ b < n, ∀ k < c, ∀ j < h / 2, ∀ i < w / 2,
          y.get [b, p * c + k, j, i] = x.get [b, k, 2 * j + row, 2 * i + column]) ∧
      Tensor.Moved (phaseSource c) x y ∧ ∀ b < n,
        ((y.member b).data.toList).Perm (x.member b).data.toList) ∧
    (¬ (2 ∣ h ∧ 2 ∣ w) → reorg3d input block d =
      .error (.note s!"block {block}: reorg3d needs even spatial dims (got {h}x{w})") d) := by
  obtain ⟨vs, hd, hvalue⟩ := valued_of_finds hg hx
  obtain ⟨-, hc, -, -⟩ := forall_mem_extents.mp (hdims ▸ extents_pos hd hvalue)
  refine ⟨fun hh hw => ?_, fun hodd => reorg3d_refused (nchw_eq hd hvalue hdims) hodd block⟩
  obtain ⟨t, d', hbuilt, hfinds⟩ := (reorg3d_goesOn hd hvalue hdims hh hw block).finds
  have hmoved := stacked_moved hdims hc hh hw
  exact ⟨t, d', _, hbuilt, hfinds, rfl, fun p row column hstart b hb k hk j hj i hi =>
    get_stacked hdims hb hstart hk hj hi, hmoved, fun b hb => hmoved.perm hdims hb⟩

/-- Four channels of two rows become sixteen. -/
theorem reorg3d_moves_fourChannels :
    Draft.fourChannels.graph.Reachable ∧
      Draft.fourChannels.graph.Finds [("data", .ofFn [1, 4, 2, 2] .ofNat)] 0
        (.ofFn [1, 4, 2, 2] .ofNat) ∧
      ∃ t d' y, reorg3d 0 3 .fourChannels = .ok t d' ∧
        d'.graph.Finds [("data", .ofFn [1, 4, 2, 2] .ofNat)] t y ∧ y.dims = [1, 16, 1, 1] ∧
        Tensor.Moved (phaseSource 4) (.ofFn [1, 4, 2, 2] .ofNat) y := by
  obtain ⟨hg, hx⟩ := Draft.fourChannels_finds .ofNat
  obtain ⟨t, d', y, hbuilt, hfinds, hdims, -, hmoved, -⟩ :=
    (reorg3d_moves hg hx rfl 3).1 (by decide) (by decide)
  exact ⟨hg, hx, t, d', y, hbuilt, hfinds, hdims, hmoved⟩

/-! ## Steps within a block -/

variable {oc s : Nat}

/-- Where the elements come from when steps within a block are the slower part of the channel. -/
def reorgSource (oc s : Nat) : List Nat → List Nat
  | [k, j, i] => [k % oc, j * s + k / oc / s, i * s + k / oc % s]
  | ks => ks

/-- All positions are steps within a block, each of one block. -/
theorem reorgSource_bijective (hoc : 0 < oc) (hs : 0 < s) (h w : Nat) :
    Set.BijOn (reorgSource oc s) {ks | Inside [s * s * oc, h, w] ks}
    {ks | Inside [oc, h * s, w * s] ks} := by
  refine ⟨fun ks hks => ?_, fun ks hks ks' hks' heq => ?_, fun ks hks => ?_⟩
  · obtain ⟨k, j, i, rfl, hk, hj, hi⟩ := Inside.exists_three hks
    have hstep : k / oc < s * s := Nat.div_lt_of_lt_mul (by rwa [Nat.mul_comm])
    exact inside_three.mpr ⟨Nat.mod_lt k hoc, place_lt hj (Nat.div_lt_of_lt_mul hstep),
      place_lt hi (Nat.mod_lt _ hs)⟩
  · obtain ⟨k, j, i, rfl, hk, -, -⟩ := Inside.exists_three hks
    obtain ⟨k', j', i', rfl, hk', -, -⟩ := Inside.exists_three hks'
    simp only [reorgSource, List.cons.injEq, and_true] at heq
    obtain ⟨hchannel, hrow, hcolumn⟩ := heq
    have hstep : ∀ k < s * s * oc, k / oc / s < s := fun k hk =>
      Nat.div_lt_of_lt_mul (Nat.div_lt_of_lt_mul (by rwa [Nat.mul_comm]))
    -- the block and the step on each axis are found again from the position
    obtain ⟨hdiv, hmod⟩ := place_div_mod j (hstep k hk)
    rw [hrow] at hdiv hmod
    obtain ⟨hdiv', hmod'⟩ := place_div_mod j' (hstep k' hk')
    obtain ⟨hcdiv, hcmod⟩ := place_div_mod i (Nat.mod_lt (k / oc) hs)
    rw [hcolumn] at hcdiv hcmod
    obtain ⟨hcdiv', hcmod'⟩ := place_div_mod i' (Nat.mod_lt (k' / oc) hs)
    have hsame : k / oc = k' / oc := by
      rw [← Nat.div_add_mod (k / oc) s, ← Nat.div_add_mod (k' / oc) s, hmod.symm.trans hmod',
        hcmod.symm.trans hcmod']
    have hk : k = k' := by rw [← Nat.div_add_mod k oc, ← Nat.div_add_mod k' oc, hsame, hchannel]
    rw [hk, hdiv.symm.trans hdiv', hcdiv.symm.trans hcdiv']
  · obtain ⟨k, j, i, rfl, hk, hj, hi⟩ := Inside.exists_three hks
    obtain ⟨hdiv, hmod⟩ := place_div_mod (j % s * s + i % s) hk
    obtain ⟨hsdiv, hsmod⟩ := place_div_mod (j % s) (Nat.mod_lt i hs)
    refine ⟨[(j % s * s + i % s) * oc + k, j / s, i / s], inside_three.mpr ⟨?_, ?_, ?_⟩, ?_⟩
    · exact place_lt (place_lt (Nat.mod_lt j hs) (Nat.mod_lt i hs)) hk
    · exact Nat.div_lt_of_lt_mul (by rwa [Nat.mul_comm])
    · exact Nat.div_lt_of_lt_mul (by rwa [Nat.mul_comm])
    · rw [reorgSource, hdiv, hmod, hsdiv, hsmod, Nat.div_add_mod', Nat.div_add_mod']

/-- The data with the steps within a block as the slowest channels. -/
def blocked (n oc h w s : Nat) (x : Tensor) : Tensor :=
  (x.reshape [n, oc, h, s, w, s]).transpose [0, 3, 5, 1, 2, 4]

/-- **An element of the data**, read with as many channels as the operand has. -/
theorem get_blocked {b k j i : Nat} (hb : b < n) (hk : k < s * s * oc) (hj : j < h) (hi : i < w) :
    ((blocked n oc h w s x).reshape [n, s * s * oc, h, w]).get [b, k, j, i] =
      (x.reshape [n, oc, h * s, w * s]).get
        [b, k % oc, j * s + k / oc / s, i * s + k / oc % s] := by
  have hoc : 0 < oc := Nat.pos_of_ne_zero fun hzero => by simp [hzero] at hk
  have hs : 0 < s := Nat.pos_of_ne_zero fun hzero => by simp [hzero] at hk
  have hrow : k / oc / s < s := Nat.div_lt_of_lt_mul (Nat.div_lt_of_lt_mul (by rwa [Nat.mul_comm]))
  have hcolumn : k / oc % s < s := Nat.mod_lt _ hs
  have hchannel : k % oc < oc := Nat.mod_lt _ hoc
  have hinside : Inside [n, s, s, oc, h, w] [b, k / oc / s, k / oc % s, k % oc, j, i] :=
    inside_cons.mpr ⟨hb, inside_cons.mpr
      ⟨hrow, inside_cons.mpr ⟨hcolumn, inside_three.mpr ⟨hchannel, hj, hi⟩⟩⟩⟩
  have hplace : ravel [n, s * s * oc, h, w] [b, k, j, i] =
      ravel [n, s, s, oc, h, w] [b, k / oc / s, k / oc % s, k % oc, j, i] := by
    refine ravel_cons_congr (by simp only [volume]; ring) ?_ n b
    rw [← ravel_merge hcolumn, ← ravel_merge hchannel, Nat.div_add_mod', Nat.div_add_mod']
  have hplace' : ravel [n, oc, h, s, w, s] [b, k % oc, j, k / oc / s, i, k / oc % s] =
      ravel [n, oc, h * s, w * s] [b, k % oc, j * s + k / oc / s, i * s + k / oc % s] := by
    have hwide : ravel [w, s] [i, k / oc % s] = ravel [w * s] [i * s + k / oc % s] :=
      (ravel_merge hcolumn w i [] []).symm
    refine ravel_cons_congr (by simp only [volume]; ring)
      (ravel_cons_congr (by simp only [volume]; ring) ?_ _ _) _ _
    rw [← ravel_merge hrow]
    exact ravel_cons_congr (by simp only [volume]; ring) hwide _ _
  calc ((blocked n oc h w s x).reshape [n, s * s * oc, h, w]).get [b, k, j, i]
      = ((blocked n oc h w s x).reshape [n, s, s, oc, h, w]).get
        [b, k / oc / s, k / oc % s, k % oc, j, i] :=
        Tensor.get_reshape_congr hplace
    _ = (blocked n oc h w s x).get [b, k / oc / s, k / oc % s, k % oc, j, i] :=
        congrArg (Tensor.get · [b, k / oc / s, k / oc % s, k % oc, j, i])
          (Tensor.reshape_self (blocked n oc h w s x))
    _ = (x.reshape [n, oc, h, s, w, s]).get [b, k % oc, j, k / oc / s, i, k / oc % s] :=
      Tensor.get_transpose hinside
    _ = _ := Tensor.get_reshape_congr hplace'

theorem blocked_moved (hoc : 0 < oc) (hs : 0 < s) :
    Tensor.Moved (reorgSource oc s) (x.reshape [n, oc, h * s, w * s])
      ((blocked n oc h w s x).reshape [n, s * s * oc, h, w]) where
  images := rfl
  bijective := reorgSource_bijective hoc hs h w
  element b ks hks := by
    obtain ⟨hb, hks⟩ := inside_cons.mp hks
    obtain ⟨k, j, i, rfl, hk, hj, hi⟩ := Inside.exists_three hks
    exact get_blocked hb hk hj hi

/-- All that the data of an image is read as has as many elements. -/
theorem blocked_volumes {h w : Nat} (hs : 0 < s) (hh : s ∣ h) (hw : s ∣ w) (oc : Nat) :
    volume [oc, h, s, w, s] = volume [s * s * oc, h, w] ∧ volume [s, s, oc, h, w] = volume
      [s * s * oc, h, w] ∧
      volume [oc, h * s, w * s] = volume [s * s * oc, h, w] ∧
      volume [s * s * oc * s * s, h / s, w / s] = volume [s * s * oc, h, w] := by
  obtain ⟨h, rfl⟩ := hh
  obtain ⟨w, rfl⟩ := hw
  rw [Nat.mul_div_cancel_left h hs, Nat.mul_div_cancel_left w hs]
  refine ⟨?_, ?_, ?_, ?_⟩ <;> simp only [volume] <;> ring

/-- The products are counted when the largest of them, which is an extent of the result,
is a word. -/
theorem reorg_products (hs : 0 < s) (hoc : 0 < oc) (hroom : s * s * oc * s * s < Word.modulus) :
    Word.mul s s = .ok (s * s) ∧ Word.product (s * s * oc) [s, s] = .ok (s * s * oc * s * s) := by
  have hlarger : s * s ≤ s * s * oc * s * s :=
    calc s * s ≤ s * s * oc := Nat.le_mul_of_pos_right _ hoc
      _ ≤ s * s * oc * s := Nat.le_mul_of_pos_right _ hs
      _ ≤ s * s * oc * s * s := Nat.le_mul_of_pos_right _ hs
  exact ⟨Word.mul_of_lt (hlarger.trans_lt hroom), Word.product_of_lt (by simp [hs]) hroom⟩

/-- The data is viewed, moved and viewed again. -/
theorem reorg_goesOn {vs : List Tensor} (hd : d.Valued feeds vs) (hx : vs[input]? = some x)
    (hdims : x.dims = [n, s * s * oc, h, w]) (hh : s ∣ h) (hw : s ∣ w) (block : Nat) :
    GoesOn feeds d vs (reorg input s block) fun t vs' =>
      vs'[t]? = some ((blocked n oc h w s x).reshape [n, s * s * oc * s * s, h / s, w / s]) := by
  obtain ⟨hn, hc, hh', hw'⟩ := forall_mem_extents.mp (hdims ▸ extents_pos hd hx)
  have hs : 0 < s := Nat.pos_of_ne_zero fun hzero => by simp [hzero] at hc
  have hoc : 0 < oc := Nat.pos_of_mul_pos_left hc
  obtain ⟨hviewed, hmoved, -, houtput⟩ := blocked_volumes hs hh hw oc
  have hpositive : ∀ e ∈ [n, s * s * oc * s * s, h / s, w / s], 0 < e :=
    forall_mem_extents.mpr ⟨hn, Nat.mul_pos (Nat.mul_pos hc hs) hs,
      Nat.div_pos (Nat.le_of_dvd hh' hh) hs, Nat.div_pos (Nat.le_of_dvd hw' hw) hs⟩
  have hroom : s * s * oc * s * s < Word.modulus := by
    refine (le_volume hpositive (s * s * oc * s * s) (by simp)).trans_lt (Word.lt_modulus ?_)
    have hsmall := volume_lt hd hx
    rwa [hdims, volume, ← houtput] at hsmall
  obtain ⟨harea, hchannels⟩ := reorg_products hs hoc hroom
  refine .after_nchw (s := ⟨n, s * s * oc, h, w⟩) hd hx hdims
    (.after_lift harea (.after_lift (a := true) ?_ (.after_lift (a := ()) ?_ ?_)))
  · rw [if_neg (Nat.mul_pos hs hs).ne', Nat.mul_mod_right]
    rfl
  · simp [Nat.mod_eq_zero_of_dvd hh, Nat.mod_eq_zero_of_dvd hw]
  rw [Nat.mul_div_cancel_left oc (Nat.mul_pos hs hs)]
  refine .bind (reshape_goesOn hd hx (List.cons_ne_nil _ _) ?_ (hdims ▸ congrArg (n * ·) hviewed))
    fun viewed d₁ vs₁ hd₁ _ hread => ?_
  · simp [hn, hoc, hh', hs, hw']
  refine .bind (transpose_goesOn hd₁ hread rfl rfl ?_
    (congrArg (n * ·) (hmoved.trans hviewed.symm)))
    fun moved d₂ vs₂ hd₂ _ hblocked => .after_lift hchannels ?_
  · simp [Tensor.extent, Tensor.reshape, Tensor.ofFn, hn, hoc, hh', hs, hw']
  exact reshape_goesOn hd₂ hblocked (List.cons_ne_nil _ _) hpositive
    (congrArg (n * ·) (houtput.trans hmoved.symm))

/-- **Blocks of positions become channels.** Where the stride divides both extents, and its square
the channels, the layer is built. The data of what its nodes compute, read with as many channels as
the operand has, is that of the operand, read with the channels divided by the square and the
extents multiplied by the stride; the steps within a block are the slower part of the channel.
Nothing is lost and nothing is repeated within an image. -/
theorem reorg_moves (hg : d.graph.Reachable) (hx : d.graph.Finds feeds input x)
    (hdims : x.dims = [n, c, h, w]) (hc : s * s ∣ c) (hh : s ∣ h) (hw : s ∣ w) (block : Nat) :
    ∃ t d' y, reorg input s block d = .ok t d' ∧ d'.graph.Finds feeds t y ∧
      y.dims = [n, c * s * s, h / s, w / s] ∧
      (∃ read written, x.view [n, c / (s * s), h * s, w * s] = some read ∧ y.view [n, c, h, w] =
        some written ∧
        (∀ b < n, ∀ k < c, ∀ j < h, ∀ i < w,
          let o := k / (c / (s * s))
          written.get [b, k, j, i] =
            read.get [b, k % (c / (s * s)), j * s + o / s, i * s + o % s]) ∧
        Tensor.Moved (reorgSource (c / (s * s)) s) read written) ∧
      ∀ b < n, ((y.member b).data.toList).Perm (x.member b).data.toList := by
  obtain ⟨vs, hd, hvalue⟩ := valued_of_finds hg hx
  obtain ⟨oc, rfl⟩ := hc
  obtain ⟨-, hc, -, -⟩ := forall_mem_extents.mp (hdims ▸ extents_pos hd hvalue)
  have hs : 0 < s := Nat.pos_of_ne_zero fun hzero => by simp [hzero] at hc
  obtain ⟨-, hblocked, hwide, houtput⟩ := blocked_volumes hs hh hw oc
  obtain ⟨t, d', hbuilt, hfinds⟩ := (reorg_goesOn hd hvalue hdims hh hw block).finds
  rw [Nat.mul_div_cancel_left oc (Nat.mul_pos hs hs)]
  have hmoved := blocked_moved (x := x) (n := n) (h := h) (w := w) (Nat.pos_of_mul_pos_left hc) hs
  have hwritten : ((blocked n oc h w s x).reshape [n, s * s * oc * s * s, h / s, w / s]).reshape
      [n, s * s * oc, h, w] =
      (blocked n oc h w s x).reshape [n, s * s * oc, h, w] :=
        Tensor.reshape_reshape (congrArg (n * ·) houtput)
  refine ⟨t, d', _, hbuilt, hfinds, rfl, ⟨_, _, Tensor.view_eq_some.mpr ⟨?_, rfl⟩,
    Tensor.view_eq_some.mpr ⟨congrArg (n * ·) houtput.symm, rfl⟩, ?_⟩, fun b hb => ?_⟩
  · rw [hdims]
    exact congrArg (n * ·) hwide
  · rw [hwritten]
    exact ⟨fun b hb k hk j hj i hi => get_blocked hb hk hj hi, hmoved⟩
  · have hperm := hmoved.perm (n := n) rfl hb
    rwa [← hwritten, Tensor.member_data_reshape rfl hb houtput.symm,
      Tensor.member_data_reshape hdims hb hwide] at hperm

/-- Four channels are read as one of four rows, and become sixteen. -/
theorem reorg_moves_fourChannels :
    Draft.fourChannels.graph.Reachable ∧
      Draft.fourChannels.graph.Finds [("data", .ofFn [1, 4, 2, 2] .ofNat)] 0
        (.ofFn [1, 4, 2, 2] .ofNat) ∧
      (2 * 2 ∣ 4 ∧ 2 ∣ 2) ∧
      ∃ t d' y, reorg 0 2 3 .fourChannels = .ok t d' ∧
        d'.graph.Finds [("data", .ofFn [1, 4, 2, 2] .ofNat)] t y ∧ y.dims = [1, 16, 1, 1] := by
  obtain ⟨hg, hx⟩ := Draft.fourChannels_finds .ofNat
  obtain ⟨t, d', y, hbuilt, hfinds, hdims, -, -⟩ :=
    reorg_moves hg hx rfl (s := 2) (by decide) (by decide) (by decide) 3
  exact ⟨hg, hx, by decide, t, d', y, hbuilt, hfinds, hdims⟩

end Emit

end GridNet
