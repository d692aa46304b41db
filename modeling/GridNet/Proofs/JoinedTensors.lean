import GridNet.Proofs.GroupedKernels
import GridNet.Proofs.NodeValues
import Mathlib.Algebra.BigOperators.Ring.List

/-!
# Tensors laid end to end

Tensors that agree on all axes but one can be laid end to end along this axis. Each of them is found
again in the result, at the place where those in front of it end, and every place of the axis
belongs to one of them. The other way round, a tensor that is cut along an axis is what its parts
make when they are laid end to end.

* `Tensor.portion`, `Tensor.offset` — a part of a tensor along an axis, and where the parts begin.
* `Tensor.LaidOut` — tensors side by side inside another one.
* `Tensor.laidOut_of_join`, `Tensor.LaidOut.join` — laying end to end makes the tensor in which all
  operands are laid out, and no other one.
* `Tensor.join_cut` — equal parts of a tensor make it again.
-/

namespace GridNet

/-! ## One axis -/

/-- Coordinates with another one on an axis whose extent is another one. -/
theorem Inside.set {dims ks : List Nat} (h : Inside dims ks) (axis : Nat) {n k : Nat} (hk : k < n) :
    Inside (dims.set axis n) (ks.set axis k) := by
  induction h generalizing axis with
  | nil => exact .nil
  | cons hfirst hrest ih =>
    cases axis with
    | zero => exact .cons hk hrest
    | succ axis => exact .cons hfirst (ih axis)

/-- The coordinate on an axis. -/
theorem Inside.coordinate {dims ks : List Nat} (h : Inside dims ks) {axis n : Nat}
    (hn : dims[axis]? = some n) :
    ∃ k, ks[axis]? = some k ∧ k < n := by
  induction h generalizing axis with
  | nil => simp at hn
  | @cons k d ks dims hfirst _ ih =>
    cases axis with
    | zero => exact ⟨k, rfl, Option.some.inj hn ▸ hfirst⟩
    | succ axis => exact ih hn

/-- Extents that agree on all axes but one are the same with a new extent on this one. -/
theorem set_eq_of_agreeExcept {axis : Nat} {a b : List Nat}
    (h : agreeExcept axis a b = true) (n : Nat) :
    a.set axis n = b.set axis n := by
  simp only [agreeExcept, Bool.and_eq_true, decide_eq_true_eq, List.all_eq_true, List.mem_range,
    Bool.or_eq_true] at h
  obtain ⟨hlength, hagree⟩ := h
  refine List.ext_getElem? fun i => ?_
  simp only [List.getElem?_set, hlength]
  split
  · rfl
  · next hi =>
    by_cases hlt : i < a.length
    · exact (hagree i hlt).resolve_left (Ne.symm hi)
    · rw [List.getElem?_eq_none (by omega), List.getElem?_eq_none (by omega)]

theorem agreeExcept_set_left {axis n : Nat} {dims : List Nat} :
    agreeExcept axis (dims.set axis n) dims = true := by
  simp only [agreeExcept, List.length_set, decide_true, Bool.true_and, List.all_eq_true,
    Bool.or_eq_true, decide_eq_true_eq]
  intro i _
  by_cases h : i = axis
  · exact .inl h
  · exact .inr (List.getElem?_set_ne (Ne.symm h))

theorem set_of_getElem? {l : List Nat} {i n : Nat} (h : l[i]? = some n) : l.set i n = l := by
  obtain ⟨hi, rfl⟩ := List.getElem?_eq_some_iff.mp h
  exact List.set_getElem_self hi

/-- The extents of the whole: on the axis the sum, on the others those of each operand. -/
theorem concatExtents_eq_some {axis : Nat} {named : List (List Nat)} {whole : List Nat}
    (h : concatExtents axis named = some whole) :
    axis < whole.length ∧ whole[axis]? = some (named.map fun dims => (dims[axis]?).getD 0).sum ∧
      ∀ dims ∈ named, dims = whole.set axis ((dims[axis]?).getD 0) := by
  cases named with
  | nil => cases h
  | cons first rest =>
    rw [concatExtents] at h
    split at h
    · next hagree =>
      simp only [Bool.and_eq_true, decide_eq_true_eq, List.all_eq_true] at hagree
      obtain ⟨haxis, hothers⟩ := hagree
      obtain rfl := (Option.some.inj h).symm
      rw [← List.sum_eq_foldr]
      refine ⟨by simpa using haxis, List.getElem?_set_self haxis, fun dims hdims => ?_⟩
      rw [List.set_set]
      rcases List.mem_cons.mp hdims with rfl | hdims
      · rw [List.getElem?_eq_getElem haxis, Option.getD_some, List.set_getElem_self]
      · rw [← set_eq_of_agreeExcept (hothers dims hdims)]
        have hlength : dims.length = first.length := by
          have := hothers dims hdims
          simp only [agreeExcept, Bool.and_eq_true, decide_eq_true_eq] at this
          exact this.1
        rw [List.getElem?_eq_getElem (hlength ▸ haxis), Option.getD_some, List.set_getElem_self]
    · cases h

/-- Extents that differ only on the axis can be laid end to end. -/
theorem concatExtents_of_set {axis : Nat} {whole : List Nat} {named : List (List Nat)}
    (haxis : axis < whole.length)
    (hne : named ≠ []) (hnamed : ∀ dims ∈ named, dims = whole.set axis ((dims[axis]?).getD 0)) :
    concatExtents axis named =
      some (whole.set axis (named.map fun dims => (dims[axis]?).getD 0).sum) := by
  cases named with
  | nil => exact absurd rfl hne
  | cons first rest =>
    obtain ⟨n, hfirst⟩ : ∃ n, first = whole.set axis n := ⟨_, hnamed first List.mem_cons_self⟩
    have hothers : rest.all (agreeExcept axis · first) = true := by
      refine List.all_eq_true.mpr fun dims hdims => ?_
      rw [hfirst, agreeExcept_set, hnamed dims (List.mem_cons_of_mem _ hdims)]
      exact agreeExcept_set_left
    rw [concatExtents, hothers, ← List.sum_eq_foldr]
    rw [hfirst, List.length_set, decide_eq_true haxis, Bool.true_and, if_pos rfl, List.set_set]

theorem volume_set {dims : List Nat} {axis n : Nat} (haxis : axis < dims.length) :
    volume (dims.set axis n) = n * volume (dims.set axis 1) := by
  induction dims generalizing axis with
  | nil => simp at haxis
  | cons d rest ih =>
    cases axis with
    | zero => simp [volume]
    | succ axis =>
      rw [List.set_cons_succ, List.set_cons_succ, volume, volume, ih (Nat.lt_of_succ_lt_succ haxis),
        Nat.mul_left_comm]

namespace Tensor

variable {axis : Nat} {xs : List Tensor} {x y : Tensor} {j k : Nat} {ks : List Nat}

/-! ## Parts -/

/-- The **portion** of a tensor that begins at `first` and has the extent `size` on an axis. -/
def portion (axis first size : Nat) (t : Tensor) : Tensor :=
  tabulate (t.dims.set axis size) fun ks => t.get (ks.set axis (first + (ks[axis]?).getD 0))

@[simp] theorem portion_dims (axis first size : Nat) (t : Tensor) :
    (t.portion axis first size).dims = t.dims.set axis size := rfl

theorem get_portion {first size : Nat} {t : Tensor} (h : Inside (t.dims.set axis size) ks) :
    (t.portion axis first size).get ks = t.get (ks.set axis (first + (ks[axis]?).getD 0)) :=
      get_tabulate h

theorem getElem?_extent {t : Tensor} (haxis : axis < t.dims.length) :
    t.dims[axis]? = some (t.extent axis) := by
  rw [extent, List.getElem?_eq_getElem haxis, Option.getD_some]

theorem extent_portion {first size : Nat} {t : Tensor} (haxis : axis < t.dims.length) :
    (t.portion axis first size).extent axis = size := by
  rw [extent, portion_dims, List.getElem?_set_self haxis, Option.getD_some]

/-- **Where a tensor begins** among those that lie end to end: the sum of the extents in
front of it. -/
def offset (axis : Nat) (xs : List Tensor) (j : Nat) : Nat := ((xs.take j).map (·.extent axis)).sum

theorem offset_zero (axis : Nat) (xs : List Tensor) : offset axis xs 0 = 0 := rfl

theorem offset_succ (hx : xs[j]? = some x) :
    offset axis xs (j + 1) = offset axis xs j + x.extent axis := by
  rw [offset, List.take_add_one, hx, List.map_append, List.sum_append]
  simp [offset]

theorem offset_of_length_le (h : xs.length ≤ j) : offset axis xs j = offset axis xs xs.length := by
  rw [offset, offset, List.take_of_length_le h, List.take_length]

theorem offset_length (axis : Nat) (xs : List Tensor) :
    offset axis xs xs.length = (xs.map (·.extent axis)).sum := by
  rw [offset, List.take_length]

theorem offset_mono (axis : Nat) (xs : List Tensor) : Monotone (offset axis xs) := by
  refine monotone_nat_of_le_succ fun j => ?_
  cases hx : xs[j]? with
  | some x => exact offset_succ hx ▸ Nat.le_add_right _ _
  | none =>
    have hlength := List.getElem?_eq_none_iff.mp hx
    rw [offset_of_length_le hlength, offset_of_length_le (hlength.trans (Nat.le_succ j))]

/-- A place of the axis belongs to **exactly one** of the tensors. -/
theorem existsUnique_offset {i : Nat} (h : i < offset axis xs xs.length) :
    ∃! j, offset axis xs j ≤ i ∧ i < offset axis xs (j + 1) := by
  have hexists : ∃ j, i < offset axis xs (j + 1) :=
    ⟨xs.length, h.trans_le (offset_mono axis xs (Nat.le_succ _))⟩
  refine ⟨Nat.find hexists, ⟨?_, Nat.find_spec hexists⟩, fun j ⟨hle, hlt⟩ => ?_⟩
  · cases hfirst : Nat.find hexists with
    | zero => exact Nat.zero_le i
    | succ j => exact Nat.le_of_not_lt (Nat.find_min hexists (hfirst ▸ Nat.lt_succ_self j))
  · -- one of two different tensors ends before the other one begins
    rcases Nat.lt_trichotomy j (Nat.find hexists) with hless | heq | hmore
    · exact absurd hlt (Nat.find_min hexists hless)
    · exact heq
    · have hend : offset axis xs (Nat.find hexists + 1) ≤ offset axis xs j :=
        offset_mono axis xs hmore
      exact absurd (Nat.find_spec hexists) (Nat.not_lt.mpr (hend.trans hle))

/-- The tensors `xs` are **laid out** along an axis of `y`, one behind the other. -/
structure LaidOut (axis : Nat) (xs : List Tensor) (y : Tensor) : Prop where
  /-- there is nothing behind the last one -/
  extent : y.extent axis = (xs.map (·.extent axis)).sum
  /-- each of them is the portion from the end of those in front of it on -/
  portions : ∀ j x, xs[j]? = some x → y.portion axis (offset axis xs j) (x.extent axis) = x
  /-- each place of the axis belongs to exactly one of them -/
  covered : ∀ i < y.extent axis, ∃! j, offset axis xs j ≤ i ∧ i < offset axis xs (j + 1)

/-! ## Laying end to end -/

/-- An element of tensors that lie end to end. -/
theorem pick_offset (hx : xs[j]? = some x) (hk : k < x.extent axis) :
    pick axis ks (offset axis xs j + k) xs = x.get (ks.set axis k) := by
  induction xs generalizing j with
  | nil => simp at hx
  | cons first rest ih =>
    rw [pick]
    cases j with
    | zero =>
      obtain rfl := Option.some.inj hx
      rw [offset_zero, Nat.zero_add, if_pos hk]
    | succ j =>
      have hfront : offset axis (first :: rest) (j + 1) = first.extent axis + offset axis rest j :=
        rfl
      rw [hfront, if_neg (by omega), Nat.add_assoc, Nat.add_sub_cancel_left]
      exact ih hx

/-- What is made by laying end to end: all operands are laid out in it. -/
theorem laidOut_of_join (h : join axis xs = some y) : axis < y.dims.length ∧ y.LaidOut axis xs := by
  obtain ⟨whole, hwhole, rfl⟩ := Option.map_eq_some_iff.mp h
  obtain ⟨haxis, hsum, hdims⟩ := concatExtents_eq_some hwhole
  have htotal : whole[axis]? = some (xs.map (·.extent axis)).sum := by
    rw [hsum, List.map_map]
    rfl
  have hextent : (concat axis whole xs).extent axis = (xs.map (·.extent axis)).sum := by
    rw [extent, concat, tabulate, ofFn, htotal, Option.getD_some]
  refine ⟨haxis, hextent, fun j x hx => ?_, fun i hi =>
    existsUnique_offset (by rwa [offset_length, ← hextent])⟩
  have hsame : whole.set axis (x.extent axis) = x.dims :=
    (hdims _ (List.mem_map.mpr ⟨x, List.mem_of_getElem? hx, rfl⟩)).symm
  refine ext_get hsame fun ks hks => ?_
  obtain ⟨k, hk, hlt⟩ := hks.coordinate (List.getElem?_set_self haxis)
  obtain ⟨hks', rfl⟩ := List.getElem?_eq_some_iff.mp hk
  -- the place lies in the operand, and so inside the whole
  have hroom : offset axis xs j + ks[axis] < (xs.map (·.extent axis)).sum := by
    have hend : offset axis xs (j + 1) ≤ offset axis xs xs.length :=
      offset_mono axis xs (List.getElem?_eq_some_iff.mp hx).1
    rw [offset_succ hx, offset_length] at hend
    omega
  have hinside : Inside whole (ks.set axis (offset axis xs j + ks[axis])) := by
    have hset : Inside ((whole.set axis (x.extent axis)).set axis (xs.map (·.extent axis)).sum)
        (ks.set axis (offset axis xs j + ks[axis])) := Inside.set hks axis hroom
    rwa [List.set_set, set_of_getElem? htotal] at hset
  rw [get_portion hks, hk, Option.getD_some, concat, get_tabulate hinside,
    List.getElem?_set_self hks',
    Option.getD_some, pick_offset hx hlt, List.set_set, List.set_getElem_self]

/-- The tensor in which all operands are laid out is the one that is made. -/
theorem LaidOut.join (h : y.LaidOut axis xs) (hne : xs ≠ []) (haxis : axis < y.dims.length) :
    Tensor.join axis xs = some y := by
  have hdims : ∀ dims ∈ xs.map (·.dims), dims = y.dims.set axis ((dims[axis]?).getD 0) := by
    intro dims hmem
    obtain ⟨x, hx, rfl⟩ := List.mem_map.mp hmem
    obtain ⟨j, hj⟩ := List.mem_iff_getElem?.mp hx
    exact (congrArg Tensor.dims (h.portions j x hj)).symm
  have htotal : y.dims[axis]? = some (xs.map (·.extent axis)).sum := by
    rw [getElem?_extent haxis, h.extent]
  have hwhole : concatExtents axis (xs.map (·.dims)) = some y.dims := by
    have hset := concatExtents_of_set haxis (by simpa using hne) hdims
    rw [List.map_map] at hset
    exact hset.trans (congrArg some (set_of_getElem? htotal))
  rw [Tensor.join, hwhole, Option.map_some]
  refine congrArg some (ext_get (t := concat axis y.dims xs) rfl fun ks hks => ?_)
  have hks : Inside y.dims ks := hks
  obtain ⟨i, hi, hlt⟩ := hks.coordinate (getElem?_extent haxis)
  obtain ⟨hks', rfl⟩ := List.getElem?_eq_some_iff.mp hi
  -- the operand that the place belongs to
  obtain ⟨j, ⟨hle, hend⟩, -⟩ := h.covered _ hlt
  obtain ⟨x, hx⟩ : ∃ x, xs[j]? = some x := by
    refine Option.ne_none_iff_exists'.mp fun hnone => ?_
    have hlength := List.getElem?_eq_none_iff.mp hnone
    rw [offset_of_length_le (hlength.trans (Nat.le_succ j)), ← offset_of_length_le hlength] at hend
    omega
  rw [offset_succ hx] at hend
  have hk : ks[axis] - offset axis xs j < x.extent axis := by omega
  have hplace : ks[axis] = offset axis xs j + (ks[axis] - offset axis xs j) :=
    (Nat.add_sub_cancel' hle).symm
  have hinside : Inside (y.dims.set axis (x.extent axis))
      (ks.set axis (ks[axis] - offset axis xs j)) :=
    Inside.set hks axis hk
  calc (concat axis y.dims xs).get ks =
        pick axis ks (offset axis xs j + (ks[axis] - offset axis xs j)) xs := by
        rw [concat, get_tabulate hks, hi, Option.getD_some, ← hplace]
    _ = x.get (ks.set axis (ks[axis] - offset axis xs j)) := pick_offset hx hk
    _ = (y.portion axis (offset axis xs j) (x.extent axis)).get
      (ks.set axis (ks[axis] - offset axis xs j)) := by
        rw [h.portions j x hx]
    _ = y.get ks := by
        rw [get_portion hinside, List.getElem?_set_self hks', Option.getD_some,
          List.set_set, ← hplace, List.set_getElem_self]

/-- The elements of all operands together are those of the whole. -/
theorem volume_join (h : Tensor.join axis xs = some y) :
    volume y.dims = (xs.map fun x => volume x.dims).sum := by
  obtain ⟨haxis, hlaid⟩ := laidOut_of_join h
  have hpart : ∀ x ∈ xs, volume x.dims = x.extent axis * volume (y.dims.set axis 1) := by
    intro x hx
    obtain ⟨j, hj⟩ := List.mem_iff_getElem?.mp hx
    rw [← volume_set haxis, ← portion_dims axis (offset axis xs j), hlaid.portions j x hj]
  rw [List.map_congr_left hpart, List.sum_map_mul_right, ← hlaid.extent, ← volume_set haxis,
    set_of_getElem? (getElem?_extent haxis)]

/-! ## Equal parts -/

/-- The portion that leaves nothing out. -/
theorem portion_whole (haxis : axis < y.dims.length) : y.portion axis 0 (y.extent axis) = y := by
  have hdims : y.dims.set axis (y.extent axis) = y.dims := set_of_getElem? (getElem?_extent haxis)
  refine ext_get hdims fun ks hks => ?_
  obtain ⟨k, hk, -⟩ := hks.coordinate (List.getElem?_set_self haxis)
  rw [get_portion hks, Nat.zero_add, hk, Option.getD_some, set_of_getElem? hk]

/-- The equal parts into which a tensor is cut along an axis. -/
def cut (axis count : Nat) (y : Tensor) : List Tensor :=
  (List.range count).map fun j => y.portion axis (j * (y.extent axis / count))
    (y.extent axis / count)

theorem getElem?_cut {count : Nat} (hx : (y.cut axis count)[j]? = some x) :
    j < count ∧ x = y.portion axis (j * (y.extent axis / count)) (y.extent axis / count) := by
  rw [cut, List.getElem?_map] at hx
  obtain ⟨i, hi, rfl⟩ := Option.map_eq_some_iff.mp hx
  obtain ⟨hlt, rfl⟩ := List.getElem?_eq_some_iff.mp hi
  rw [List.length_range] at hlt
  rw [List.getElem_range]
  exact ⟨hlt, rfl⟩

theorem extents_cut {count : Nat} (haxis : axis < y.dims.length) :
    (y.cut axis count).map (·.extent axis) = List.replicate count (y.extent axis / count) := by
  rw [cut, List.map_map, List.eq_replicate_iff]
  refine ⟨by simp, fun n hn => ?_⟩
  obtain ⟨j, -, rfl⟩ := List.mem_map.mp hn
  exact extent_portion haxis

theorem offset_cut {count : Nat} (haxis : axis < y.dims.length) (hj : j ≤ count) :
    offset axis (y.cut axis count) j = j * (y.extent axis / count) := by
  rw [offset, List.map_take, extents_cut haxis, List.take_replicate, Nat.min_eq_left hj,
    List.sum_replicate_nat]

/-- The parts of a tensor lie in it one behind the other. -/
theorem laidOut_cut {count : Nat} (haxis : axis < y.dims.length) (hdvd : count ∣ y.extent axis) :
    y.LaidOut axis (y.cut axis count) := by
  have htotal : y.extent axis = ((y.cut axis count).map (·.extent axis)).sum := by
    rw [extents_cut haxis, List.sum_replicate_nat, Nat.mul_div_cancel' hdvd]
  refine ⟨htotal, fun j x hx => ?_, fun i hi =>
    existsUnique_offset (by rwa [offset_length, ← htotal])⟩
  obtain ⟨hj, rfl⟩ := getElem?_cut hx
  rw [offset_cut haxis hj.le, extent_portion haxis]

/-- **Equal parts** of a tensor, laid end to end, make it again. -/
theorem join_cut {count : Nat} (haxis : axis < y.dims.length) (hcount : 0 < count)
    (hdvd : count ∣ y.extent axis) :
    Tensor.join axis (y.cut axis count) = some y := by
  refine (laidOut_cut haxis hdvd).join (fun hnone => ?_) haxis
  have hlength := congrArg List.length hnone
  rw [cut, List.length_map, List.length_range, List.length_nil] at hlength
  exact hcount.ne' hlength

/-- One part of the channels, as it is kept by a route. -/
theorem channelPart_eq_portion {n c height width groups : Nat}
    (hy : y.dims = [n, c, height, width]) (j : Nat) :
    Interpreter.channelPart ⟨groups, j⟩ y = y.portion 1 (j * (c / groups)) (c / groups) := by
  have hdims := channelPart_dims hy groups j
  refine ext_get (by rw [hdims, portion_dims, hy]; rfl) fun ks hks => ?_
  rw [hdims] at hks
  obtain ⟨b, rest, hb, hrest, rfl⟩ := List.forall₂_cons_right_iff.mp hks
  obtain ⟨p, v, u, rfl, hp, hv, hu⟩ := Inside.exists_three hrest
  rw [get_channelPart hy hb hp hv hu, get_portion (by rw [hy]; exact hks)]
  rfl

end Tensor

end GridNet
