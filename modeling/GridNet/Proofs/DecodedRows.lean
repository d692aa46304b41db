import GridNet.Proofs.BatchDecoding
import Mathlib.Algebra.Order.BigOperators.Group.List
import Mathlib.Data.List.Nodup
import Mathlib.Data.Set.Function

/-!
# The rows of a decode node

A decode node goes through its heads, the boxes of a head, the rows of cells and the cells of a row,
and writes a row of the output at each place that it comes to. In this order the places fill the
output from the first row to the last, so that each row is written once.

* `HeadDecoder.Place`, `HeadDecoder.places` — the places, as a list in the order of the loops.
* `HeadDecoder.map_rowOf_places` — they take the rows in order.
* `HeadDecoder.decodeHeads_eq`, `HeadDecoder.decodeBatch_eq` — the loops write one row at
  each place.
* `HeadDecoder.bijOn_rowOf` — each row belongs to one place.
* `HeadDecoder.decode_fills` — what stands in the results, row by row.
-/

namespace GridNet

/-- Counting in rows of `n` counts through. -/
theorem range_mul (m n : Nat) :
    ((List.range m).flatMap fun a => (List.range n).map fun b => a * n + b) =
      List.range (m * n) := by
  induction m with
  | zero => simp
  | succ m ih =>
    rw [List.range_succ, List.flatMap_append, ih, Nat.succ_mul, List.range_add,
      List.flatMap_singleton]

namespace HeadDecoder

variable {d : HeadDecoder}

/-! ## Places -/

/-- One **box of one cell** of one head. -/
structure Place where
  /-- the number of the head -/
  head : Nat
  /-- the number of the box -/
  slot : Nat
  /-- the row of the cell -/
  y : Nat
  /-- the column of the cell -/
  x : Nat
deriving DecidableEq

namespace Place

/-- The place is there: the head has this box and this cell. -/
def In (heads : List Head) (p : Place) : Prop :=
  ∃ h, heads[p.head]? = some h ∧ p.slot < h.boxes ∧ p.y < h.gridHeight ∧ p.x < h.gridWidth

/-- The row of the place among those of its head. -/
def rowIn (h : Head) (p : Place) : Nat :=
  p.slot * h.gridWidth * h.gridHeight + p.y * h.gridWidth + p.x

/-- **The row of a place** in the output: the rows of the heads in front come first. -/
def rowOf (heads : List Head) (p : Place) : Nat :=
  match heads[p.head]? with
  | some h => ((heads.take p.head).map Head.rows).sum + p.rowIn h
  | none => 0

end Place

/-- The places of one head, in the order in which they are decoded. -/
def placesOf (i : Nat) (h : Head) : List Place :=
  (List.range h.boxes).flatMap fun slot => (gridCells h).map fun (y, x) => ⟨i, slot, y, x⟩

/-- The places of some heads, the first of which has the given number. -/
def placesFrom (i : Nat) : List Head → List Place
  | [] => []
  | h :: rest => placesOf i h ++ placesFrom (i + 1) rest

/-- **All places** of a decode node. -/
def places (d : HeadDecoder) : List Place := placesFrom 0 d.heads

theorem mem_gridCells {h : Head} {y x : Nat} :
    (y, x) ∈ gridCells h ↔ y < h.gridHeight ∧ x < h.gridWidth := by
  simp [gridCells]

theorem mem_placesOf {i : Nat} {h : Head} {p : Place} :
    p ∈ placesOf i h ↔ p.head = i ∧ p.slot < h.boxes ∧ p.y < h.gridHeight ∧ p.x < h.gridWidth := by
  simp only [placesOf, List.mem_flatMap, List.mem_range, List.mem_map, Prod.exists, mem_gridCells]
  constructor
  · rintro ⟨slot, hslot, y, x, ⟨hy, hx⟩, rfl⟩
    exact ⟨rfl, hslot, hy, hx⟩
  · rintro ⟨rfl, hslot, hy, hx⟩
    exact ⟨p.slot, hslot, p.y, p.x, ⟨hy, hx⟩, rfl⟩

theorem mem_placesFrom {heads : List Head} {i : Nat} {p : Place} :
    p ∈ placesFrom i heads ↔
      ∃ k h, heads[k]? = some h ∧ p.head = i + k ∧ p.slot < h.boxes ∧ p.y < h.gridHeight ∧
        p.x < h.gridWidth := by
  induction heads generalizing i with
  | nil => simp [placesFrom]
  | cons first rest ih =>
    rw [placesFrom, List.mem_append, mem_placesOf, ih]
    constructor
    · rintro (⟨hhead, hin⟩ | ⟨k, h, hk, hhead, hin⟩)
      · exact ⟨0, first, rfl, hhead, hin⟩
      · exact ⟨k + 1, h, hk, by omega, hin⟩
    · rintro ⟨k, h, hk, hhead, hin⟩
      cases k with
      | zero =>
        obtain rfl := Option.some.inj hk
        exact .inl ⟨hhead, hin⟩
      | succ k => exact .inr ⟨k, h, hk, by omega, hin⟩

/-- The list has all places. -/
theorem mem_places {p : Place} : p ∈ d.places ↔ p.In d.heads := by
  rw [places, mem_placesFrom]
  constructor
  · rintro ⟨k, h, hk, hhead, hin⟩
    rw [Nat.zero_add] at hhead
    exact ⟨h, hhead ▸ hk, hin⟩
  · rintro ⟨h, hh, hin⟩
    exact ⟨p.head, h, hh, (Nat.zero_add _).symm, hin⟩

/-! ## Their order -/

theorem map_gridCells (h : Head) :
    (gridCells h).map (fun c => c.1 * h.gridWidth + c.2) =
      List.range (h.gridHeight * h.gridWidth) := by
  rw [gridCells, List.map_flatMap, ← range_mul]
  simp only [List.map_map]
  rfl

/-- The places of one head take its rows in order. -/
theorem map_rowIn_placesOf (i : Nat) (h : Head) :
    (placesOf i h).map (fun p => p.rowIn h) = List.range h.rows := by
  have hslot : ∀ slot, (gridCells h).map
        (fun c => slot * h.gridWidth * h.gridHeight + c.1 * h.gridWidth + c.2) =
      (List.range (h.gridHeight * h.gridWidth)).map
        fun b => slot * (h.gridHeight * h.gridWidth) + b := by
    intro slot
    rw [← map_gridCells, List.map_map]
    refine List.map_congr_left fun c _ => ?_
    simp only [Function.comp_apply]
    ring
  have hcount : h.rows = h.boxes * (h.gridHeight * h.gridWidth) := by
    rw [Head.rows]
    ring
  rw [hcount, ← range_mul, placesOf, List.map_flatMap]
  simp only [List.map_map, ← hslot]
  rfl

/-- A place of a head behind some others. -/
theorem rowOf_of_split {front rest : List Head} {h : Head} {p : Place}
    (hhead : p.head = front.length) :
    p.rowOf (front ++ h :: rest) = (front.map Head.rows).sum + p.rowIn h := by
  have hget : (front ++ h :: rest)[p.head]? = some h := by simp [hhead]
  rw [Place.rowOf, hget]
  dsimp only
  rw [hhead, List.take_left']
  rfl

/-- **The places take the rows in order**, by induction over the heads. -/
theorem map_rowOf_placesFrom {heads : List Head} (front rest : List Head)
    (hsplit : front ++ rest = heads) :
    (placesFrom front.length rest).map (Place.rowOf heads) =
      (List.range (rest.map Head.rows).sum).map ((front.map Head.rows).sum + ·) := by
  induction rest generalizing front with
  | nil => rfl
  | cons h rest ih =>
    subst hsplit
    have hfirst : (placesOf front.length h).map (Place.rowOf (front ++ h :: rest)) =
        (List.range h.rows).map ((front.map Head.rows).sum + ·) := by
      rw [← map_rowIn_placesOf front.length h, List.map_map]
      exact List.map_congr_left fun p hp => rowOf_of_split (mem_placesOf.mp hp).1
    have hothers := ih (front ++ [h]) (by simp)
    rw [List.length_append, List.length_singleton] at hothers
    rw [placesFrom, List.map_append, hfirst, hothers, List.map_cons, List.sum_cons, List.range_add]
    simp [Function.comp_def, Nat.add_assoc]

theorem rowsOf_eq_sum (heads : List Head) : rowsOf heads = (heads.map Head.rows).sum := rfl

theorem map_rowOf_places (hrows : rowsOf d.heads = d.rows) :
    d.places.map (Place.rowOf d.heads) = List.range d.rows := by
  have hall := map_rowOf_placesFrom [] d.heads rfl
  simpa [places, ← hrows, rowsOf_eq_sum] using hall

/-- **Each row belongs to one place.** -/
theorem bijOn_rowOf (hrows : rowsOf d.heads = d.rows) :
    Set.BijOn (Place.rowOf d.heads) {p | p.In d.heads} {row | row < d.rows} := by
  have hmap := map_rowOf_places hrows
  have hnodup : (d.places.map (Place.rowOf d.heads)).Nodup := hmap ▸ List.nodup_range
  refine ⟨fun p hp => ?_, fun p hp q hq heq => ?_, fun row hrow => ?_⟩
  · have hmem := List.mem_map_of_mem (f := Place.rowOf d.heads) (mem_places.mpr hp)
    rwa [hmap, List.mem_range] at hmem
  · exact List.inj_on_of_nodup_map hnodup (mem_places.mpr hp) (mem_places.mpr hq) heq
  · have hmem : row ∈ d.places.map (Place.rowOf d.heads) := by
      rw [hmap]
      exact List.mem_range.mpr hrow
    obtain ⟨p, hp, rfl⟩ := List.mem_map.mp hmem
    exact ⟨p, mem_places.mp hp, rfl⟩

/-! ## The loops -/

/-- What is decoded at a place, from the head and the tensor that have its number. -/
def rowAt (d : HeadDecoder) (pairs : List (Head × Tensor)) (b : Nat) (p : Place) : DecodedRow :=
  match pairs[p.head]? with
  | some (h, t) =>
    Cell.decode h.kind d.activated (d.frame h ((h.anchor p.slot).getD (.zero, .zero)) p.y p.x)
      (d.cell t b p.slot p.y p.x)
  | none => .zero

theorem write_append (base : Nat) (rows others : List (Nat × DecodedRow))
    (table : Array DecodedRow) :
    write base (rows ++ others) table = write base others (write base rows table) :=
      List.foldl_append

/-- Steps that write some rows each, one after the other. -/
theorem foldlM_write {α : Type} {f : Array DecodedRow → α → Outcome (Array DecodedRow)} {base : Nat}
    {g : α → List (Nat × DecodedRow)} {xs : List α}
    (h : ∀ x ∈ xs, ∀ table, f table x = .ok (write base (g x) table)) (table : Array DecodedRow) :
    xs.foldlM f table = .ok (write base (xs.flatMap g) table) := by
  induction xs generalizing table with
  | nil => rfl
  | cons x rest ih =>
    rw [List.foldlM_cons, h x List.mem_cons_self, Outcome.ok_bind, ih fun y hy =>
      h y (List.mem_cons_of_mem _ hy), List.flatMap_cons, write_append]

/-- Rows that are counted from another start. -/
theorem write_eq_write_zero (base : Nat) (rows : List (Nat × DecodedRow))
    (table : Array DecodedRow) :
    write base rows table = write 0 (rows.map fun r => (base + r.1, r.2)) table := by
  rw [write, write, List.foldl_map]
  simp only [Nat.zero_add]

/-- **A row that is written once** stands where it was written. -/
theorem getElem?_write_of_mem {rows : List (Nat × DecodedRow)} (hnodup : (rows.map (·.1)).Nodup)
    {table : Array DecodedRow} {i : Nat} {row : DecodedRow} (hmem : (i, row) ∈ rows)
    (hi : i < table.size) :
    (write 0 rows table)[i]? = some row := by
  induction rows generalizing table with
  | nil => exact absurd hmem List.not_mem_nil
  | cons r rest ih =>
    obtain ⟨hfresh, hrest⟩ := List.nodup_cons.mp hnodup
    rw [write, List.foldl_cons, ← write]
    rcases List.mem_cons.mp hmem with rfl | hmem
    · -- no later row is written here
      rw [getElem?_write_of_ne, Nat.zero_add, Array.getElem?_setIfInBounds_self_of_lt hi]
      intro r hr heq
      rw [Nat.zero_add] at heq
      exact hfresh (heq ▸ List.mem_map_of_mem (f := (·.1)) hr)
    · exact ih hrest hmem (by rwa [Array.size_setIfInBounds])

/-- **The boxes of one head** are written at its places. -/
theorem decodeSlots_eq {h : Head} {t : Tensor} {b base offset i : Nat}
    {pairs : List (Head × Tensor)} (hpair : pairs[i]? = some (h, t)) (hfinds : d.Finds h t)
    (hroom : base + offset + h.rows ≤ (b + 1) * d.rows) (table : Array DecodedRow) :
    (List.range h.boxes).foldlM
      (fun table slot => d.decodeSlot h t b (base + offset) slot table) table =
      .ok (write base ((placesOf i h).map fun p =>
        (offset + p.rowIn h, d.rowAt pairs b p)) table) := by
  rw [placesOf, List.map_flatMap]
  refine foldlM_write (fun slot hslot table => ?_) table
  have hlt : slot + 1 ≤ h.boxes := List.mem_range.mp hslot
  have hslots : (slot + 1) * (5 + d.classes) ≤ t.extent 1 :=
    (Nat.mul_le_mul_right _ hlt).trans hfinds.channels
  have hrows : base + offset + (slot + 1) * h.gridWidth * h.gridHeight ≤ (b + 1) * d.rows := by
    have hpart : (slot + 1) * h.gridWidth * h.gridHeight ≤ h.rows :=
      Nat.mul_le_mul_right _ (Nat.mul_le_mul_right _ hlt)
    omega
  obtain ⟨anchor, hanchor⟩ := Option.isSome_iff_exists.mp (hfinds.anchors slot hlt)
  refine decodeSlot_eq_ok.mpr ⟨anchor, hanchor, hslots, hrows, ?_⟩
  rw [write, List.map_map, List.foldl_map]
  simp [rowAt, hpair, hanchor, Place.rowIn, Nat.add_assoc]

/-- **The heads of one image** are written at all places, by induction over the heads. -/
theorem decodeHeads_eq {heads : List Head} {inputs : List Tensor} {b base : Nat}
    (hroom : base + (heads.map Head.rows).sum ≤ (b + 1) * d.rows)
    (hpairs : ∀ p ∈ heads.zip inputs, d.Finds p.1 p.2) (hlength : inputs.length = heads.length)
    (front rest : List Head) (hsplit : front ++ rest = heads) (table : Array DecodedRow) :
    d.decodeHeads b (base + (front.map Head.rows).sum)
    ((heads.zip inputs).drop front.length) table =
      .ok (write base ((placesFrom front.length rest).map
        fun p => (p.rowOf heads, d.rowAt (heads.zip inputs) b p)) table) := by
  induction rest generalizing front table with
  | nil =>
    have hdrop : (heads.zip inputs).drop front.length = [] := by
      rw [← hsplit, List.append_nil]
      simp
    rw [hdrop]
    rfl
  | cons h rest ih =>
    have hlt : front.length < heads.length := by simp [← hsplit]
    have hget : heads[front.length] = h := by simp [← hsplit]
    have hlt' : front.length < (heads.zip inputs).length := by simpa [hlength] using hlt
    have hfinds : d.Finds h inputs[front.length] := by
      simpa [hget] using hpairs _ (List.getElem_mem hlt')
    have hpair : (heads.zip inputs)[front.length]? = some (h, inputs[front.length]) := by
      rw [List.getElem?_eq_getElem hlt', List.getElem_zip, hget]
    have hsum : (heads.map Head.rows).sum =
        (front.map Head.rows).sum + (h.rows + (rest.map Head.rows).sum) := by
      rw [← hsplit, List.map_append, List.sum_append, List.map_cons, List.sum_cons]
    have hfits : base + (front.map Head.rows).sum + h.rows ≤ (b + 1) * d.rows := by omega
    have hslots := decodeSlots_eq hpair hfinds hfits table
    have hoffset : base + (front.map Head.rows).sum + h.rows =
        base + ((front ++ [h]).map Head.rows).sum := by
      simp [Nat.add_assoc]
    have hothers := ih (front ++ [h]) (by rw [← hsplit]; simp)
    have hfirst : (placesOf front.length h).map (fun p => ((front.map Head.rows).sum + p.rowIn h,
          d.rowAt (heads.zip inputs) b p)) =
        (placesOf front.length h).map fun p => (p.rowOf heads, d.rowAt (heads.zip inputs) b p) := by
      refine List.map_congr_left fun p hp => ?_
      rw [← hsplit, rowOf_of_split (mem_placesOf.mp hp).1]
    rw [List.drop_eq_getElem_cons hlt', List.getElem_zip, hget, decodeHeads,
      Word.add_of_lt hfinds.counted, Outcome.ok_bind, hslots, Outcome.ok_bind, hoffset]
    rw [List.length_append, List.length_singleton] at hothers
    rw [hothers, placesFrom, List.map_append, hfirst, write_append]

/-- The rows of all images, with their places in the table. -/
def batchRows (d : HeadDecoder) (inputs : List Tensor) (batch : Nat) : List (Nat × DecodedRow) :=
  (List.range batch).flatMap fun b =>
    d.places.map fun p => (b * d.rows + p.rowOf d.heads, d.rowAt (d.heads.zip inputs) b p)

/-- The rows of all images fill the table in order. -/
theorem map_fst_batchRows (hrows : rowsOf d.heads = d.rows) (inputs : List Tensor) (batch : Nat) :
    (d.batchRows inputs batch).map (·.1) = List.range (batch * d.rows) := by
  have himage : ∀ b, d.places.map (fun p => b * d.rows + p.rowOf d.heads) =
      (List.range d.rows).map fun row => b * d.rows + row := by
    intro b
    rw [← map_rowOf_places hrows, List.map_map]
    rfl
  rw [← range_mul, batchRows, List.map_flatMap]
  simp only [List.map_map, ← himage]
  rfl

/-- **All images** are written, each behind those in front of it. -/
theorem decodeBatch_eq {inputs : List Tensor} (batch : Nat) (hrows : rowsOf d.heads = d.rows)
    (hpairs : ∀ p ∈ d.heads.zip inputs, d.Finds p.1 p.2)
    (hlength : inputs.length = d.heads.length) :
    d.decodeBatch batch inputs =
      .ok (write 0 (d.batchRows inputs batch) (Array.replicate (batch * d.rows) .zero)) := by
  refine foldlM_write (fun b hb table => ?_) _
  have hroom : b * d.rows + (d.heads.map Head.rows).sum ≤ (b + 1) * d.rows := by
    rw [← hrows, rowsOf_eq_sum, Nat.succ_mul]
  have himage := decodeHeads_eq hroom hpairs hlength [] d.heads rfl table
  rw [write_eq_write_zero, List.map_map] at himage
  exact himage

end HeadDecoder

/-! ## The results -/

/-- An element of a tensor with three axes. -/
theorem Tensor.get_ofFn {n rows width b row k : Nat} {f : Nat → Scalar} (hb : b < n)
    (hrow : row < rows)
    (hk : k < width) : (ofFn [n, rows, width] f).get [b, row, k] =
      f ((b * rows + row) * width + k) := by
  have hravel : ravel [n, rows, width] [b, row, k] = some ((b * rows + row) * width + k) := by
    simp only [ravel, if_pos hb, if_pos hrow, if_pos hk, volume, Option.map_some, Nat.mul_one]
    congr 1
    ring
  have hplace : (b * rows + row) * width + k < volume [n, rows, width] := by
    have hin := place_lt (place_lt hb hrow) hk
    simpa [volume, Nat.mul_assoc] using hin
  have hdims : (ofFn [n, rows, width] f).dims = [n, rows, width] := rfl
  rw [get, hdims, hravel]
  exact item_ofFn hplace

/-- The three results **hold a row** of an image. -/
structure DecodedHeads.Holds (r : DecodedHeads) (b row : Nat) (decoded : DecodedRow) : Prop where
  box : ∀ k < 4, r.boxes.get [b, row, k] = HeadDecoder.boxPart decoded k
  score : r.scores.get [b, row, 0] = decoded.score
  label : r.classes.get [b, row, 0] = decoded.label

namespace HeadDecoder

variable {d : HeadDecoder} {inputs : List Tensor} {sources shapes : List Shape}

/-- What a decode node **fills** its results with: every row of every image belongs to one box of
one cell, and is decoded from it by the kind, the centre scale and the anchor of its head. -/
structure Fills (d : HeadDecoder) (inputs : List Tensor) (batch : Nat)
    (r : DecodedHeads) : Prop where
  images : ∀ t ∈ inputs, t.extent 0 = batch
  boxes : r.boxes.dims = [batch, d.rows, 4]
  scores : r.scores.dims = [batch, d.rows, 1]
  classes : r.classes.dims = [batch, d.rows, 1]
  tiled : Set.BijOn (Place.rowOf d.heads) {p | p.In d.heads} {row | row < d.rows}
  rows : ∀ b < batch, ∀ p : Place, p.In d.heads → ∃ h t anchor, d.heads[p.head]? = some h ∧
    inputs[p.head]? = some t ∧ h.anchor p.slot = some anchor ∧
    r.Holds b (p.rowOf d.heads)
      (Cell.decode h.kind d.activated (d.frame h anchor p.y p.x) (d.cell t b p.slot p.y p.x))

/-- A box of a cell is what its own channels say there. -/
theorem cell_congr {t t' : Tensor} {b slot y x : Nat}
    (h : ∀ k < 5 + d.classes, t.get [b, slot * (5 + d.classes) + k, y, x] =
      t'.get [b, slot * (5 + d.classes) + k, y, x]) :
        d.cell t b slot y x = d.cell t' b slot y x := by
  have hclasses : (List.range d.classes).map
      (fun c => t.get [b, slot * (5 + d.classes) + (5 + c), y, x]) =
      (List.range d.classes).map fun c => t'.get [b, slot * (5 + d.classes) + (5 + c), y, x] :=
    List.map_congr_left fun c hc => h (5 + c) (Nat.add_lt_add_left (List.mem_range.mp hc) 5)
  simp only [cell, h 0 (by omega), h 1 (by omega), h 2 (by omega), h 3 (by omega),
    h 4 (by omega), hclasses]

/-- **The table** has the decoded row of each place. -/
theorem getElem?_table (inputs : List Tensor) {batch : Nat}
    (hrows : rowsOf d.heads = d.rows) {b : Nat} (hb : b < batch) {p : Place} (hp : p.In d.heads) :
    (write 0 (d.batchRows inputs batch)
        (Array.replicate (batch * d.rows) .zero))[b * d.rows + p.rowOf d.heads]? =
      some (d.rowAt (d.heads.zip inputs) b p) := by
  have hrow : p.rowOf d.heads < d.rows := (bijOn_rowOf hrows).mapsTo hp
  have hnodup : ((d.batchRows inputs batch).map (·.1)).Nodup := by
    rw [map_fst_batchRows hrows]
    exact List.nodup_range
  refine getElem?_write_of_mem hnodup ?_ (by simpa using place_lt hb hrow)
  exact List.mem_flatMap.mpr
    ⟨b, List.mem_range.mpr hb, List.mem_map.mpr ⟨p, mem_places.mpr hp, rfl⟩⟩

/-- **Head tensors fill the results** when every head finds what it reads. -/
theorem exists_fills_of_pairs (hshapes : d.outputShapes sources = .ok shapes)
    (hinputs : List.Forall₂ (fun t s => t.dims = s.dims) inputs sources)
    (hpairs : ∀ p ∈ d.heads.zip inputs, d.Finds p.1 p.2) :
    ∃ r batch, d.decode inputs = .ok r ∧ d.Fills inputs batch r := by
  obtain ⟨hsources, hlength, hrows, batch, hfirst, -, -, hdims⟩ := accepted_dims hshapes hinputs
  have htable := decodeBatch_eq batch hrows hpairs hlength
  refine ⟨_, batch, by simp only [decode, hsources, Outcome.ok_bind, hshapes, hfirst, htable]; rfl,
    ?_, rfl, rfl, rfl, bijOn_rowOf hrows, fun b hb p hp => ?_⟩
  · intro t ht
    obtain ⟨i, hi, rfl⟩ := List.getElem_of_mem ht
    have hpair := hdims (d.heads[i], inputs[i])
      (List.mem_iff_getElem.mpr ⟨i, by simp [hi, ← hlength], by simp⟩)
    exact Tensor.extent_zero hpair
  · have hrow : p.rowOf d.heads < d.rows := (bijOn_rowOf hrows).mapsTo hp
    have hread := getElem?_table inputs hrows hb hp
    obtain ⟨h, hh, hslot, -, -⟩ := hp
    have hlt : p.head < inputs.length := hlength ▸ (List.getElem?_eq_some_iff.mp hh).1
    have hpair : (d.heads.zip inputs)[p.head]? = some (h, inputs[p.head]) :=
      List.getElem?_zip_eq_some.mpr ⟨hh, List.getElem?_eq_getElem hlt⟩
    obtain ⟨anchor, hanchor⟩ :=
      Option.isSome_iff_exists.mp ((hpairs _ (List.mem_of_getElem? hpair)).anchors p.slot hslot)
    have hdecoded : d.rowAt (d.heads.zip inputs) b p = Cell.decode h.kind d.activated
        (d.frame h anchor p.y p.x) (d.cell inputs[p.head] b p.slot p.y p.x) := by
      rw [rowAt, hpair]
      dsimp only
      rw [hanchor, Option.getD_some]
    refine ⟨h, inputs[p.head], anchor, hh, List.getElem?_eq_getElem hlt, hanchor, ?_⟩
    rw [← hdecoded]
    refine ⟨fun k hk => ?_, ?_, ?_⟩
    · rw [Tensor.get_ofFn hb hrow hk]
      have hplace := place_div_mod (b * d.rows + p.rowOf d.heads) hk
      rw [hplace.1, hplace.2, hread, Option.getD_some]
    · rw [Tensor.get_ofFn hb hrow Nat.one_pos, Nat.mul_one, Nat.add_zero, hread, Option.getD_some]
    · rw [Tensor.get_ofFn hb hrow Nat.one_pos, Nat.mul_one, Nat.add_zero, hread, Option.getD_some]

/-- **Accepted head tensors fill the results.** -/
theorem exists_fills (hshapes : d.outputShapes sources = .ok shapes)
    (hinputs : List.Forall₂ (fun t s => t.dims = s.dims) inputs sources)
    (hclasses : ∀ h ∈ d.heads, h.classes = d.classes)
    (hanchors : ∀ h ∈ d.heads, ∀ slot < h.boxes, (h.anchor slot).isSome) :
    ∃ r batch, d.decode inputs = .ok r ∧ d.Fills inputs batch r := by
  obtain ⟨-, -, -, batch, -, -, -, hdims⟩ := accepted_dims hshapes hinputs
  have hcountable := countable_of_outputShapes hshapes
  refine exists_fills_of_pairs hshapes hinputs fun p hp => ?_
  have hmem : p.1 ∈ d.heads := (List.of_mem_zip hp).1
  have hchannels : p.2.extent 1 = p.1.boxes * (5 + p.1.classes) := by
    simp only [Tensor.extent, hdims p hp]
    rfl
  exact ⟨hclasses p.1 hmem ▸ hcountable.classes p.1 hmem, hanchors p.1 hmem,
    by rw [hchannels, hclasses p.1 hmem]⟩

/-- **A decode node fills its results.** Accepted head tensors are decoded; each row is
that of one box of one cell, and other head tensors that agree in the values of this box
there have the same row. -/
theorem decode_fills (hshapes : d.outputShapes sources = .ok shapes)
    (hinputs : List.Forall₂ (fun t s => t.dims = s.dims) inputs sources)
    (hclasses : ∀ h ∈ d.heads, h.classes = d.classes)
    (hanchors : ∀ h ∈ d.heads, ∀ slot < h.boxes, (h.anchor slot).isSome) :
    ∃ r batch, d.decode inputs = .ok r ∧ d.Fills inputs batch r ∧
      ∀ inputs' r', List.Forall₂ (fun t t' => t'.dims = t.dims) inputs inputs' →
        d.decode inputs' = .ok r' →
        ∀ b < batch, ∀ p : Place, p.In d.heads → ∀ t t',
          inputs[p.head]? = some t → inputs'[p.head]? = some t' →
          (∀ k < 5 + d.classes, t.get [b, p.slot * (5 + d.classes) + k, p.y, p.x] =
            t'.get [b, p.slot * (5 + d.classes) + k, p.y, p.x]) →
          ∃ row, r.Holds b (p.rowOf d.heads) row ∧ r'.Holds b (p.rowOf d.heads) row := by
  obtain ⟨r, batch, hdecode, hfills⟩ := exists_fills hshapes hinputs hclasses hanchors
  refine ⟨r, batch, hdecode, hfills,
    fun inputs' r' hdims hdecode' b hb p hp t t' ht ht' hsame => ?_⟩
  have hinputs' : List.Forall₂ (fun t s => t.dims = s.dims) inputs' sources := by
    refine List.forall₂_iff_get.mpr
      ⟨hdims.length_eq.symm.trans hinputs.length_eq, fun i hi hs => ?_⟩
    have hi' : i < inputs.length := hdims.length_eq ▸ hi
    exact ((List.forall₂_iff_get.mp hdims).2 i hi' hi).trans
      ((List.forall₂_iff_get.mp hinputs).2 i hi' hs)
  obtain ⟨r'', batch', hdecode'', hfills'⟩ := exists_fills hshapes hinputs' hclasses hanchors
  obtain rfl := Except.ok.inj (hdecode'.symm.trans hdecode'')
  have hbatch : batch' = batch := by
    obtain ⟨hi, rfl⟩ := List.getElem?_eq_some_iff.mp ht
    obtain ⟨hi', rfl⟩ := List.getElem?_eq_some_iff.mp ht'
    have hextent : inputs'[p.head].extent 0 = inputs[p.head].extent 0 := by
      rw [Tensor.extent, Tensor.extent]
      exact congrArg (fun dims : List Nat => (dims[0]?).getD 0)
        ((List.forall₂_iff_get.mp hdims).2 p.head hi hi')
    rw [← hfills.images _ (List.getElem_mem hi), ← hfills'.images _ (List.getElem_mem hi'), hextent]
  obtain ⟨h, t₁, anchor, hh, ht₁, hanchor, hrow⟩ := hfills.rows b hb p hp
  obtain ⟨h', t₂, anchor', hh', ht₂, hanchor', hrow'⟩ := hfills'.rows b (hbatch ▸ hb) p hp
  obtain rfl := Option.some.inj (ht₁.symm.trans ht)
  obtain rfl := Option.some.inj (ht₂.symm.trans ht')
  obtain rfl := Option.some.inj (hh.symm.trans hh')
  obtain rfl := Option.some.inj (hanchor.symm.trans hanchor')
  refine ⟨_, hrow, ?_⟩
  rw [cell_congr hsame]
  exact hrow'

/-- Two heads of different kinds, with grids that are not square. -/
def unlikeHeads : HeadDecoder :=
  ofHeads 8 4 1 false
    [{ name := "yolo_0", kind := .yolo, gridWidth := 2, gridHeight := 1, boxes := 1,
       classes := 1, anchors := [.one, .two], mask := [], centreScale := .one },
     { name := "region_1", kind := .region, gridWidth := 1, gridHeight := 3, boxes := 2,
       classes := 1, anchors := [.one, .two, .half, .one], mask := [1, 0], centreScale := .one }]

/-- Tensors of their extents, for two images. -/
def unlikeInputs : List Tensor := [.zeros [2, 6, 1, 2], .zeros [2, 12, 3, 1]]

/-- They fill eight rows for each of the images. -/
theorem decode_fills_unlikeHeads :
    ∃ r batch, unlikeHeads.decode unlikeInputs = .ok r ∧
      unlikeHeads.Fills unlikeInputs batch r := by
  let sources : List Shape := [⟨[2, 6, 1, 2], by decide, by decide, by decide⟩,
    ⟨[2, 12, 3, 1], by decide, by decide, by decide⟩]
  let scores : Shape := ⟨[2, 8, 1], by decide, by decide, by decide⟩
  let shapes : List Shape := [⟨[2, 8, 4], by decide, by decide, by decide⟩, scores, scores]
  have hshapes : unlikeHeads.outputShapes sources = .ok shapes :=
    Outcome.toOption_eq_some.mp (by decide +kernel)
  have hinputs : List.Forall₂ (fun t s => t.dims = s.dims) unlikeInputs sources :=
    .cons rfl (.cons rfl .nil)
  obtain ⟨r, batch, hdecode, hfills, -⟩ :=
    decode_fills hshapes hinputs (by decide) (by decide)
  exact ⟨r, batch, hdecode, hfills⟩

end HeadDecoder

end GridNet
