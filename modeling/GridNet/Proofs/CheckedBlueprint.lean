import GridNet.Cfg.Blueprint
import GridNet.Proofs.DecodeSoundness

/-!
# What reading a description has checked

A blueprint that has been read from blocks can be built without running into some faults that
nothing checks again: a route keeps a part of its channels that exists, every box of a head has an
anchor, and all heads have the classes of the network.

* `LayerKind.Checked`, `Head.Checked` — the facts about one block.
* `Blueprint.checked_of_ofBlocks` — they hold of every blueprint that has been read.
-/

namespace GridNet

/-- A route keeps a part of its channels that exists. -/
def LayerKind.Checked : LayerKind → Prop
  | route _ _ (some g) => g.part < g.groups
  | _ => True

/-- Every box has an anchor. -/
def Head.Checked (h : Head) : Prop := ∀ slot < h.boxes, (h.anchor slot).isSome

/-- A **checked blueprint**. -/
structure Blueprint.Checked (b : Blueprint) : Prop where
  layers : ∀ l ∈ b.layers, l.kind.Checked
  anchors : ∀ h ∈ b.heads, h.Checked
  classes : ∀ h ∈ b.heads, h.classes = b.classes

namespace Blueprint

/-- What has been checked about a block. -/
def Reading.Checked : Reading → Prop
  | layer kind => kind.Checked
  | head h _ => h.Checked

variable {s : Section}

/-- An anchor that is within the list has both of its numbers there. -/
theorem anchor_isSome {h : Head} {slot i : Nat} (hindex : h.anchorIndex slot = some i)
    (hi : i < h.anchors.length / 2) : (h.anchor slot).isSome := by
  have hwidth : 2 * i < h.anchors.length := by omega
  have hheight : 2 * i + 1 < h.anchors.length := by omega
  simp [Head.anchor, hindex, hwidth, hheight]

/-- The boxes of a head are counted by its mask, if there is one. -/
theorem boxes_of_mask {α : Type} {mask : List Nat} {counted : Outcome Nat} {k : Nat → Outcome α}
    {a : α} (h : (if mask.isEmpty = true then counted >>= k else pure mask.length >>= k) = .ok a) :
    ∃ boxes, (mask.isEmpty = false → boxes = mask.length) ∧ k boxes = .ok a := by
  split at h
  · next hempty =>
    obtain ⟨boxes, -, h⟩ := Outcome.bind_eq_ok.mp h
    exact ⟨boxes, fun hmask => absurd (hempty.symm.trans hmask) Bool.true_eq_false.mp, h⟩
  · exact ⟨mask.length, fun _ => rfl, h⟩

/-- **What a head that is read consists of**: an anchor for each box, picked by the mask if there is
one, and no extents of a grid yet. -/
theorem readHead_eq_ok {kind : HeadKind} {index : Nat} {h : Head}
    (hread : readHead s kind index = .ok h) :
    h.kind = kind ∧ { h with gridWidth := 0, gridHeight := 0 } = h ∧
      h.boxes ≤ h.anchors.length / 2 ∧
      (h.mask.isEmpty = false → h.boxes = h.mask.length) ∧
      ∀ anchor ∈ h.mask, anchor < h.anchors.length / 2 := by
  unfold readHead at hread
  obtain ⟨classes, -, hread⟩ := Outcome.bind_eq_ok.mp hread
  obtain ⟨anchors, -, hread⟩ := Outcome.bind_eq_ok.mp hread
  dsimp only at hread
  split at hread
  · exact absurd hread Outcome.throw_bind_ne_ok
  obtain ⟨mask, -, hread⟩ := Outcome.bind_eq_ok.mp hread
  obtain ⟨boxes, hboxes, hread⟩ := boxes_of_mask hread
  split at hread
  · exact absurd hread Outcome.throw_bind_ne_ok
  next hmask =>
  split at hread
  · exact absurd hread Outcome.throw_bind_ne_ok
  next hpairs =>
  obtain ⟨centreScale, -, hread⟩ := Outcome.bind_eq_ok.mp hread
  obtain rfl := Outcome.pure_eq_ok.mp hread
  refine ⟨rfl, rfl, Nat.le_of_not_lt hpairs, hboxes, fun anchor hanchor => ?_⟩
  simpa using List.find?_eq_none.mp hmask anchor hanchor

theorem readHead_checked {kind : HeadKind} {index : Nat} {h : Head}
    (hread : readHead s kind index = .ok h) : h.Checked := by
  obtain ⟨-, -, hpairs, hboxes, hmask⟩ := readHead_eq_ok hread
  intro slot hslot
  rcases hempty : h.mask.isEmpty with _ | _
  · -- the mask has an entry for every box, and no entry lies outside
    have hlt : slot < h.mask.length := hboxes hempty ▸ hslot
    exact anchor_isSome (i := h.mask[slot]) (by simp [Head.anchorIndex, hempty, hlt])
      (hmask _ (List.getElem_mem hlt))
  · exact anchor_isSome (i := slot) (by simp [Head.anchorIndex, hempty]) (hslot.trans_le hpairs)

theorem readRoute_checked {kind : LayerKind} (h : readRoute s = .ok kind) : kind.Checked := by
  unfold readRoute at h
  obtain ⟨sources, -, h⟩ := Outcome.bind_eq_ok.mp h
  dsimp only at h
  split at h
  · exact absurd h Outcome.throw_bind_ne_ok
  obtain ⟨groups, -, h⟩ := Outcome.bind_eq_ok.mp h
  obtain ⟨part, -, h⟩ := Outcome.bind_eq_ok.mp h
  split at h
  · exact absurd h Outcome.throw_bind_ne_ok
  next hpart =>
  obtain ⟨axis, -, h⟩ := Outcome.bind_eq_ok.mp h
  obtain rfl := Outcome.pure_eq_ok.mp h
  split
  · exact Nat.lt_of_not_le hpart
  · trivial

/-- **One block** is checked when it is read. -/
theorem readLayer_checked {index : Nat} {r : Reading} (h : readLayer s index = .ok r) :
    r.Checked := by
  unfold readLayer at h
  split at h
  case h_11 =>
    obtain ⟨kind, hkind, rfl⟩ := Outcome.map_eq_ok.mp h
    exact readRoute_checked hkind
  case h_19 | h_20 =>
    obtain ⟨activated, -, h⟩ := Outcome.bind_eq_ok.mp h
    obtain ⟨head, hhead, h⟩ := Outcome.bind_eq_ok.mp h
    obtain rfl := Outcome.pure_eq_ok.mp h
    exact readHead_checked hhead
  case h_9 | h_10 | h_13 | h_14 =>
    obtain ⟨_, -, h⟩ := Outcome.bind_eq_ok.mp h
    obtain ⟨_, -, h⟩ := Outcome.bind_eq_ok.mp h
    obtain rfl := Outcome.pure_eq_ok.mp h
    trivial
  case h_15 | h_16 | h_17 | h_21 =>
    obtain rfl := Except.ok.inj h
    trivial
  case h_22 => cases h
  all_goals
    obtain ⟨_, -, rfl⟩ := Outcome.map_eq_ok.mp h
    trivial

theorem readLayers_checked {index : Nat} {blocks : List Block} {readings : List Reading}
    (h : readLayers index blocks = .ok readings) : ∀ r ∈ readings, r.Checked := by
  induction blocks generalizing index readings with
  | nil =>
    cases h
    exact fun _ hr => absurd hr List.not_mem_nil
  | cons block rest ih =>
    simp only [readLayers, Outcome.bind_eq_ok, Outcome.pure_eq_ok] at h
    obtain ⟨r, hr, others, hothers, rfl⟩ := h
    intro r' hr'
    rcases List.mem_cons.mp hr' with rfl | hr'
    · exact readLayer_checked hr
    · exact ih hothers r' hr'

theorem layersOf_checked {readings : List Reading} (h : ∀ r ∈ readings, r.Checked)
    (index place : Nat) : ∀ l ∈ layersOf index place readings, l.kind.Checked := by
  induction readings generalizing index place with
  | nil => exact fun _ hl => absurd hl List.not_mem_nil
  | cons r rest ih =>
    have hrest := ih fun r hr => h r (List.mem_cons_of_mem _ hr)
    intro l hl
    cases r with
    | layer kind =>
      rcases List.mem_cons.mp hl with rfl | hl
      · exact h _ List.mem_cons_self
      · exact hrest _ _ l hl
    | head head activated =>
      rcases List.mem_cons.mp hl with rfl | hl
      · trivial
      · exact hrest _ _ l hl

theorem headsOf_checked {readings : List Reading} (h : ∀ r ∈ readings, r.Checked) (block : Nat) :
    ∀ entry ∈ headsOf block readings, entry.1.Checked := by
  induction readings generalizing block with
  | nil => exact fun _ he => absurd he List.not_mem_nil
  | cons r rest ih =>
    have hrest := ih fun r hr => h r (List.mem_cons_of_mem _ hr)
    intro entry he
    cases r with
    | layer kind => exact hrest _ entry he
    | head head activated =>
      rcases List.mem_cons.mp he with rfl | he
      · exact h _ List.mem_cons_self
      · exact hrest _ entry he

/-- **What a description that is read consists of**: the network block, and a reading for each block
below it; all heads have the classes of the first. -/
theorem ofBlocks_eq_ok {blocks : List Block} {name : String} {b : Blueprint}
    (h : ofBlocks blocks name = .ok b) :
    ∃ first rest readings, blocks = first :: rest ∧ (first.kind = "net" ∨ first.kind = "network") ∧
      readInput ⟨first, 0⟩ = .ok b.input ∧ readLayers 0 rest = .ok readings ∧
      b.layers = layersOf 0 0 readings ∧ b.heads = (headsOf 1 readings).map (·.1) ∧
      ∀ head ∈ b.heads, head.classes = b.classes := by
  unfold ofBlocks at h
  cases blocks with
  | nil => cases h
  | cons first rest =>
    dsimp only at h
    split at h
    · exact absurd h Outcome.throw_bind_ne_ok
    next hfirst =>
    obtain ⟨input, hinput, h⟩ := Outcome.bind_eq_ok.mp h
    obtain ⟨readings, hreadings, h⟩ := Outcome.bind_eq_ok.mp h
    split at h
    · exact absurd h (by simp)
    next hclasses =>
    obtain rfl := Outcome.pure_eq_ok.mp h
    have hnet : first.kind = "net" ∨ first.kind = "network" := by
      by_contra hkind
      exact hfirst (by simpa using hkind)
    refine ⟨first, rest, readings, rfl, hnet, hinput, hreadings, rfl, rfl, fun head hhead => ?_⟩
    obtain ⟨entry, hentry, rfl⟩ := List.mem_map.mp hhead
    simpa using List.find?_eq_none.mp hclasses entry hentry

/-- **Every blueprint that has been read is checked.** -/
theorem checked_of_ofBlocks {blocks : List Block} {name : String} {b : Blueprint}
    (h : ofBlocks blocks name = .ok b) : b.Checked := by
  obtain ⟨first, rest, readings, -, -, -, hreadings, hlayers, hheads, hclasses⟩ := ofBlocks_eq_ok h
  have hchecked := readLayers_checked hreadings
  refine ⟨?_, fun head hhead => ?_, hclasses⟩
  · rw [hlayers]
    exact layersOf_checked hchecked 0 0
  · rw [hheads] at hhead
    obtain ⟨entry, hentry, rfl⟩ := List.mem_map.mp hhead
    exact headsOf_checked hchecked 1 entry hentry

end Blueprint

end GridNet
