import GridNet.Proofs.OperationSoundness
import GridNet.Proofs.TensorAlgebra
import GridNet.Proofs.WholeScalars

/-!
# Members of a batch

The first axis of a tensor counts the images of a batch. Every operation of a network
treats the images one by one: what it makes of a batch holds, in the place of an image,
what it makes of this image alone.

A tensor that comes from constants has a batch of one, whatever the batch of the network is, and
takes part with its only member in the place of all images.

* `Tensor.member` — one image of a batch, as a batch of one.
* `Tensor.single` — what stands for a tensor when the network runs on one image.
* `Tensor.single_get`, `Tensor.single_tabulate` — elements of it, and tables.
* `Tensor.broadcast_single` … `Tensor.convolve_single` — one lemma for each operation on tensors.
-/

namespace GridNet

theorem ravel_lt {dims coordinates : List Nat} {i : Nat} (h : ravel dims coordinates = some i) :
    i < volume dims := by
  induction dims generalizing coordinates i with
  | nil =>
    cases coordinates with
    | nil =>
      obtain rfl := Option.some.inj h
      exact Nat.one_pos
    | cons k ks => cases h
  | cons d dims ih =>
    cases coordinates with
    | nil => cases h
    | cons k ks =>
      rw [ravel] at h
      split at h
      · next hk =>
        obtain ⟨j, hj, rfl⟩ := Option.map_eq_some_iff.mp h
        have hlt := ih hj
        calc k * volume dims + j < (k + 1) * volume dims := by rw [Nat.succ_mul]; omega
          _ ≤ d * volume dims := Nat.mul_le_mul_right _ hk
      · cases h

/-- A place behind `a` whole rows. -/
theorem place_div_mod (a : Nat) {i v : Nat} (h : i < v) :
    (a * v + i) / v = a ∧ (a * v + i) % v = i := by
  rw [Nat.add_comm]
  exact ⟨by rw [Nat.add_mul_div_right _ _ (Nat.zero_lt_of_lt h), Nat.div_eq_of_lt h, Nat.zero_add],
    by rw [Nat.add_mul_mod_self_right, Nat.mod_eq_of_lt h]⟩

namespace Tensor

/-- **Member** `b` of a batch, as a batch of one. -/
def member (b : Nat) (t : Tensor) : Tensor :=
  .ofFn (1 :: t.dims.tail) fun i => t.item (b * volume t.dims.tail + i)

/-- What stands for a tensor when the network runs on **image `b` alone**: this member, or the only
one there is. -/
def single (b : Nat) (t : Tensor) : Tensor := t.member (b % t.extent 0)

@[simp] theorem single_dims (b : Nat) (t : Tensor) : (t.single b).dims = 1 :: t.dims.tail := rfl

@[simp] theorem extent_single (b axis : Nat) (t : Tensor) :
    (t.single b).extent (axis + 1) = t.extent (axis + 1) := by
  simp [extent]

theorem extent_zero {t : Tensor} {k : Nat} {rest : List Nat} (ht : t.dims = k :: rest) :
    t.extent 0 = k := by
  rw [extent, ht]
  rfl

section Members

variable {t : Tensor} {b k : Nat} {rest : List Nat} {f : Nat → Scalar}

theorem member_dims (ht : t.dims = k :: rest) (b : Nat) : (t.member b).dims = 1 :: rest := by
  rw [member, ht]
  rfl

theorem item_member (ht : t.dims = k :: rest) (b : Nat) {i : Nat} (hi : i < volume rest) :
    (t.member b).item i = t.item (b * volume rest + i) := by
  rw [member, ht, List.tail_cons, item_ofFn]
  rwa [volume, Nat.one_mul]

theorem item_single (ht : t.dims = k :: rest) {i : Nat} (hi : i < volume rest) :
    (t.single b).item i = t.item (b % k * volume rest + i) := by
  rw [single, extent_zero ht, item_member ht (b % k) hi]

/-- An element of the single tensor is one of the member. -/
theorem single_get (ht : t.dims = k :: rest) (hk : 0 < k) (ks : List Nat) :
    (t.single b).get (0 :: ks) = t.get (b % k :: ks) := by
  have hmember : b % k < k := Nat.mod_lt b hk
  unfold get
  rw [single_dims, ht, List.tail_cons, ravel, ravel, if_pos Nat.one_pos, if_pos hmember]
  cases hks : ravel rest ks with
  | none => rfl
  | some i =>
    have hi := item_single (b := b) ht (ravel_lt hks)
    simpa using hi

theorem member_ofFn (hb : b < k) :
    (ofFn (k :: rest) f).member b = ofFn (1 :: rest) fun i => f (b * volume rest + i) := by
  refine ofFn_congr fun i hi => item_ofFn ?_
  have hi : i < volume rest := by rwa [volume, Nat.one_mul] at hi
  calc b * volume rest + i < (b + 1) * volume rest := by rw [Nat.succ_mul]; omega
    _ ≤ volume (k :: rest) := Nat.mul_le_mul_right _ hb

theorem single_ofFn (hk : 0 < k) :
    (ofFn (k :: rest) f).single b = ofFn (1 :: rest) fun i => f (b % k * volume rest + i) := by
  have hdims : (ofFn (k :: rest) f).dims = k :: rest := rfl
  rw [single, extent_zero hdims, member_ofFn (Nat.mod_lt b hk)]

/-- A **table** of which the first coordinate only says which image is looked at. -/
theorem single_tabulate {f g : List Nat → Scalar} (hk : 0 < k)
    (h : ∀ ks, ks.length = rest.length → g (0 :: ks) = f (b % k :: ks)) :
    tabulate (1 :: rest) g = (tabulate (k :: rest) f).single b := by
  rw [tabulate, tabulate, single_ofFn hk]
  refine ofFn_congr fun i hi => ?_
  have hi : i < volume rest := by rwa [volume, Nat.one_mul] at hi
  obtain ⟨hdiv, hmod⟩ := place_div_mod (b % k) hi
  rw [unravel, unravel, Nat.div_eq_of_lt hi, Nat.mod_eq_of_lt hi, hdiv, hmod]
  exact h _ (length_unravel rest i)

end Members

/-! ## Operations on single tensors -/

section Operations

variable {t : Tensor} {b k : Nat} {rest : List Nat}

theorem map_single (f : Scalar → Scalar) (ht : t.dims = k :: rest) (hk : 0 < k) :
    (t.single b).map f = (t.map f).single b := by
  rw [map_eq_ofFn, map_eq_ofFn f t, ht, single_ofFn hk, single_dims, ht, List.tail_cons]
  refine ofFn_congr fun i hi => ?_
  rw [volume, Nat.one_mul] at hi
  rw [item_single ht hi]

theorem mapChannels_single (m : ChannelMap) (ht : t.dims = k :: rest) (hk : 0 < k)
    (hrest : rest ≠ []) : (t.single b).mapChannels m = (t.mapChannels m).single b := by
  obtain ⟨channels, plane, rfl⟩ := List.exists_cons_of_ne_nil hrest
  have hextent : t.extent 1 = channels := by simp [extent, ht]
  unfold mapChannels
  rw [extent_single, hextent, single_dims, ht, single_ofFn hk]
  refine ofFn_congr fun i hi => ?_
  dsimp only [List.tail_cons, List.drop_succ_cons, List.drop_zero] at hi ⊢
  rw [volume, Nat.one_mul] at hi
  rw [item_single ht hi]
  -- the images in front take up whole planes
  have hplane : 0 < volume plane := Nat.pos_of_ne_zero fun hzero => by simp [volume, hzero] at hi
  have hchannel : (b % k * volume (channels :: plane) + i) / volume plane % channels =
      i / volume plane % channels := by
    rw [volume, ← Nat.mul_assoc, Nat.add_comm, Nat.add_mul_div_right _ _ hplane,
      Nat.add_mul_mod_self_right]
  exact congrArg (m.apply · _) hchannel.symm

/-- Operands are repeated along the axis of images like along any other one. -/
theorem broadcast_single (f : Scalar → Scalar → Scalar) {u : Tensor} {j n : Nat}
    {others dims : List Nat} (ht : t.dims = k :: rest) (hk : 0 < k) (hu : u.dims = j :: others)
    (hj : 0 < j) (hn : broadcastExtent k j = some n) :
    broadcast f (1 :: dims) (t.single b) (u.single b) =
      (broadcast f (n :: dims) t u).single b := by
  have hpos : 0 < n ∧ (if k = 1 then 0 else b % n) = b % k ∧
      (if j = 1 then 0 else b % n) = b % j := by
    unfold broadcastExtent at hn
    split at hn
    · next heq =>
      obtain rfl := Option.some.inj hn
      subst heq
      refine ⟨hk, ?_⟩
      split
      · next hone => simp [hone, Nat.mod_one]
      · simp
    · split at hn
      · next hone =>
        obtain rfl := Option.some.inj hn
        refine ⟨hj, by simp [hone, Nat.mod_one], ?_⟩
        split
        · next hone => simp [hone, Nat.mod_one]
        · rfl
      · split at hn
        · next hne hone =>
          obtain rfl := Option.some.inj hn
          exact ⟨hk, if_neg hne, by simp [hone, Nat.mod_one]⟩
        · cases hn
  refine single_tabulate hpos.1 fun ks _ => ?_
  rw [single_dims, single_dims, ht, hu]
  simp only [clip, List.tail_cons, List.zipWith_cons_cons, if_true, hpos.2.1, hpos.2.2]
  rw [single_get ht hk, single_get hu hj]

theorem pick_single {axis : Nat} {parts : List Tensor} (hk : 0 < k)
    (hparts : ∀ p ∈ parts, ∃ rest, p.dims = k :: rest) (ks : List Nat) (i : Nat) :
    pick (axis + 1) (0 :: ks) i (parts.map (single b)) = pick (axis + 1) (b % k :: ks) i parts := by
  induction parts generalizing i with
  | nil => rfl
  | cons p others ih =>
    obtain ⟨rest, hp⟩ := hparts p List.mem_cons_self
    rw [List.map_cons, pick, pick, extent_single, List.set_cons_succ, List.set_cons_succ,
      single_get hp hk, ih fun q hq => hparts q (List.mem_cons_of_mem _ hq)]

/-- Tensors are laid end to end along an axis behind that of the images. -/
theorem concat_single {axis : Nat} {dims : List Nat} {parts : List Tensor} (hk : 0 < k)
    (hparts : ∀ p ∈ parts, ∃ rest, p.dims = k :: rest) :
    concat (axis + 1) (1 :: dims) (parts.map (single b)) =
      (concat (axis + 1) (k :: dims) parts).single b := by
  refine single_tabulate hk fun ks _ => ?_
  rw [List.getElem?_cons_succ, List.getElem?_cons_succ, pick_single hk hparts]

/-- A window that takes all images. -/
theorem slice_single {start size stride : List Nat} (ht : t.dims = k :: rest) (hk : 0 < k) :
    (t.single b).slice (0 :: start) (1 :: size) (1 :: stride) =
      (t.slice (0 :: start) (k :: size) (1 :: stride)).single b := by
  refine single_tabulate hk fun ks _ => ?_
  simp only [List.zipWith_cons_cons, Nat.mul_one, Nat.zero_add]
  exact single_get ht hk _

theorem reshape_single {dims : List Nat} (ht : t.dims = k :: rest) (hk : 0 < k)
    (hvolume : volume (k :: dims) = volume t.dims) :
    (t.single b).reshape (1 :: dims) = (t.reshape (k :: dims)).single b := by
  have hrest : volume dims = volume rest := by
    rw [ht, volume, volume] at hvolume
    exact Nat.eq_of_mul_eq_mul_left hk hvolume
  rw [reshape, reshape, single_ofFn hk]
  refine ofFn_congr fun i hi => ?_
  rw [volume, Nat.one_mul, hrest] at hi
  rw [item_single ht hi, hrest]

/-- An order of the axes that leaves the images where they are. -/
theorem transpose_single {order : List Nat} (ht : t.dims = k :: rest) (hk : 0 < k)
    (horder : ∀ axis ∈ order, axis ≠ 0) :
    (t.single b).transpose (0 :: order) = (t.transpose (0 :: order)).single b := by
  have hextents : ∀ u : Tensor, (∀ axis, u.extent (axis + 1) = t.extent (axis + 1)) →
      order.map u.extent = order.map t.extent := by
    intro u hu
    refine List.map_congr_left fun axis haxis => ?_
    obtain ⟨a, rfl⟩ := Nat.exists_eq_succ_of_ne_zero (horder axis haxis)
    exact hu a
  rw [transpose, transpose, List.map_cons, List.map_cons, extent_zero ht,
    hextents _ fun axis => extent_single b axis t,
    show (t.single b).extent 0 = 1 from rfl]
  refine single_tabulate hk fun ks _ => ?_
  -- the first coordinate is that of the images, and the others come from those of the rest
  have hcoordinates : ∀ j, (List.range (0 :: order).length).map (fun axis =>
      ((j :: ks)[(0 :: order).idxOf axis]?).getD 0) =
      j :: (List.range order.length).map fun axis => (ks[order.idxOf (axis + 1)]?).getD 0 := by
    intro j
    rw [List.length_cons, List.range_succ_eq_map, List.map_cons, List.map_map]
    refine congrArg₂ _ (by simp) (List.map_congr_left fun axis _ => ?_)
    simp [List.idxOf_cons]
  rw [hcoordinates, hcoordinates]
  exact single_get ht hk _

/-- A grid whose images are scaled by one. -/
theorem enlarge_single {scales : List Scalar} {dims : List Nat} (ht : t.dims = k :: rest)
    (hk : 0 < k) (hexact : k ≤ 0x1000000) :
    (t.single b).enlarge (.one :: scales) (1 :: dims) =
      (t.enlarge (.one :: scales) (k :: dims)).single b := by
  have hmember := sources_one (Nat.mod_lt b hk) hexact
  have honly : (sources .one 1 1)[0]? = some 0 := sources_one Nat.one_pos (by decide)
  unfold enlarge
  rw [single_dims, ht]
  refine single_tabulate hk fun ks _ => ?_
  simp only [List.tail_cons, List.zip_cons_cons, List.zipWith_cons_cons, hmember, honly,
    Option.getD_some]
  exact single_get ht hk _

end Operations

end Tensor

/-! ## Windows and kernels -/

theorem positionUnder_lt {stride padding extent o k i : Nat}
    (h : positionUnder stride padding extent o k = some i) : i < extent := by
  unfold positionUnder at h
  dsimp only at h
  split at h
  · next hin =>
    obtain rfl := Option.some.inj h
    exact hin.2
  · cases h

/-- Only positions of the image are under a window. -/
theorem Pooling.underWindow_congr {p : PoolWindow} {height width : Nat}
    {element element' : Nat → Nat → Scalar}
    (h : ∀ y < height, ∀ x < width, element y x = element' y x) (oy ox : Nat) :
    underWindow p height width element oy ox = underWindow p height width element' oy ox := by
  unfold underWindow
  refine List.flatMap_congr fun dy _ => ?_
  cases hy : positionUnder p.stride.rows p.before.rows height oy dy with
  | none => rfl
  | some y =>
    refine List.filterMap_congr fun dx _ => ?_
    cases hx : positionUnder p.stride.columns p.before.columns width ox dx with
    | none => rfl
    | some x => exact congrArg some (h y (positionUnder_lt hy) x (positionUnder_lt hx))

namespace Kernel

/-- Two images are the same wherever they have elements. -/
structure Image.Same (a b : Image) : Prop where
  channels : a.channels = b.channels
  height : a.height = b.height
  width : a.width = b.width
  element : ∀ c < b.channels, ∀ y < b.height, ∀ x < b.width, a.element c y x = b.element c y x

variable {k : Kernel} {fma : Scalar → Scalar → Scalar → Scalar} {a b : Image}

/-- The channels of a group are channels of the image. -/
theorem fits_channel {channels filter i : Nat} (hfits : k.fits channels = true)
    (hfilter : filter < k.filters) (hi : i < channels / k.groups) :
    filter / (k.filters / k.groups) * (channels / k.groups) + i < channels := by
  unfold fits at hfits
  simp only [Bool.and_eq_true, List.all_eq_true, List.mem_range, decide_eq_true_eq] at hfits
  exact ((hfits.2 filter hfilter).2 i hi).1

theorem convolvePlane_congr (hsame : a.Same b) (hfits : k.fits b.channels = true)
    {outHeight outWidth filter : Nat} (hfilter : filter < k.filters) :
    k.convolvePlane fma a outHeight outWidth filter =
      k.convolvePlane fma b outHeight outWidth filter := by
  unfold convolvePlane
  rw [hsame.channels]
  refine List.foldl_ext _ _ _ fun plane tap htap => ?_
  obtain ⟨i, ky, kx⟩ := tap
  have hi : i < b.channels / k.groups := by
    obtain ⟨j, hj, hcell⟩ := List.mem_flatMap.mp htap
    obtain ⟨cell, -, heq⟩ := List.mem_map.mp hcell
    obtain ⟨rfl, -⟩ := Prod.mk.inj heq
    exact List.mem_range.mp hj
  have hchannel := fits_channel hfits hfilter hi
  have hpixel := hsame.element _ hchannel
  dsimp only
  unfold addTap
  rw [hsame.height, hsame.width]
  refine Array.ext (by simp) fun p _ _ => ?_
  rw [Array.getElem_mapIdx, Array.getElem_mapIdx]
  cases hy : positionUnder k.stride k.padding b.height (p / outWidth) ky with
  | none => rfl
  | some y =>
    cases hx : positionUnder k.stride k.padding b.width (p % outWidth) kx with
    | none => rfl
    | some x => exact congrArg (fma · _ _) (hpixel y (positionUnder_lt hy) x (positionUnder_lt hx))

theorem deconvolvePlane_congr (hsame : a.Same b) (hfits : k.fits b.channels = true)
    {outHeight outWidth filter : Nat} (hfilter : filter < k.filters) :
    k.deconvolvePlane fma a outHeight outWidth filter =
      k.deconvolvePlane fma b outHeight outWidth filter := by
  unfold deconvolvePlane
  rw [hsame.channels, hsame.height, hsame.width]
  refine List.foldl_ext _ _ _ fun plane place hplace => ?_
  obtain ⟨i, y, x⟩ := place
  obtain ⟨j, hj, hrows⟩ := List.mem_flatMap.mp hplace
  obtain ⟨y', hy, hcolumns⟩ := List.mem_flatMap.mp hrows
  obtain ⟨x', hx, heq⟩ := List.mem_map.mp hcolumns
  obtain ⟨rfl, rfl, rfl⟩ : j = i ∧ y' = y ∧ x' = x := by simpa using heq
  dsimp only
  rw [hsame.element _ (fits_channel hfits hfilter (List.mem_range.mp hj)) _ (List.mem_range.mp hy) _
    (List.mem_range.mp hx)]

/-- The plane of a filter hangs on nothing but the elements of the image. -/
theorem plane_congr (hsame : a.Same b) (hfits : k.fits b.channels = true)
    {outHeight outWidth filter : Nat} (hfilter : filter < k.filters) :
    k.plane fma a outHeight outWidth filter = k.plane fma b outHeight outWidth filter := by
  unfold plane
  rw [convolvePlane_congr hsame hfits hfilter, deconvolvePlane_congr hsame hfits hfilter]

end Kernel

namespace Tensor

variable {t : Tensor} {b n c h w : Nat}

/-- A row and a column of a plane, and the place of their element. -/
theorem plane_lt {p y x : Nat} (hp : p < c) (hy : y < h) (hx : x < w) :
    (p * h + y) * w + x < volume [c, h, w] := by
  have hrow : p * h + y < c * h := place_lt hp hy
  calc (p * h + y) * w + x < c * h * w := place_lt hrow hx
    _ = volume [c, h, w] := by simp [volume, Nat.mul_assoc]

/-- The only image of the single tensor is the member. -/
theorem image_single (ht : t.dims = [n, c, h, w]) :
    ((t.single b).image 0).Same (t.image (b % n)) := by
  obtain ⟨hc, hh, hw⟩ : t.extent 1 = c ∧ t.extent 2 = h ∧ t.extent 3 = w := by simp [extent, ht]
  refine ⟨extent_single .., extent_single .., extent_single .., fun p hp y hy x hx => ?_⟩
  dsimp only [image] at hp hy hx ⊢
  rw [hc] at hp
  rw [hh] at hy
  rw [hw] at hx
  rw [extent_single, extent_single, extent_single, hc, hh, hw]
  rw [Nat.zero_mul, Nat.zero_add, item_single ht (plane_lt hp hy hx)]
  refine congrArg _ ?_
  simp only [volume]
  ring

/-- Planes of the images in front, whole ones. -/
theorem plane_behind {filters outHeight outWidth m i : Nat}
    (hi : i < volume [filters, outHeight, outWidth]) :
    i / (outHeight * outWidth) < filters ∧
      (m * volume [filters, outHeight, outWidth] + i) / (outHeight * outWidth) =
        m * filters + i / (outHeight * outWidth) ∧
      (m * volume [filters, outHeight, outWidth] + i) % (outHeight * outWidth) =
        i % (outHeight * outWidth) := by
  have hvolume : volume [filters, outHeight, outWidth] = filters * (outHeight * outWidth) := by
    simp [volume]
  rw [hvolume] at hi ⊢
  have hpos : 0 < outHeight * outWidth :=
    Nat.pos_of_ne_zero fun hzero => by simp [hzero] at hi
  refine ⟨Nat.div_lt_of_lt_mul (by rwa [Nat.mul_comm]), ?_, ?_⟩
  · rw [← Nat.mul_assoc, Nat.add_comm, Nat.add_mul_div_right _ _ hpos, Nat.add_comm]
  · rw [← Nat.mul_assoc, Nat.add_comm, Nat.add_mul_mod_self_right]

/-- **Convolutions** see one image at a time. -/
theorem convolve_single {fma : Scalar → Scalar → Scalar → Scalar} {k : Kernel}
    {outHeight outWidth : Nat} (ht : t.dims = [n, c, h, w]) (hn : 0 < n)
    (hfits : k.fits c = true) :
    (t.single b).convolve fma k outHeight outWidth =
      (t.convolve fma k outHeight outWidth).single b := by
  unfold convolve
  rw [extent_zero ht, show (t.single b).extent 0 = 1 from rfl, single_ofFn hn]
  refine ofFn_congr fun i hi => ?_
  rw [volume, Nat.one_mul] at hi
  obtain ⟨hfilter, hdiv, hmod⟩ := plane_behind (m := b % n) hi
  have hjob : b % n * k.filters + i / (outHeight * outWidth) < n * k.filters :=
    place_lt (Nat.mod_lt b hn) hfilter
  obtain ⟨himage, hplane⟩ := place_div_mod (b % n) hfilter
  rw [hdiv, hmod, Array.getElem?_ofFn, Array.getElem?_ofFn, dif_pos hjob,
    dif_pos (by rwa [Nat.one_mul])]
  dsimp only
  rw [himage, hplane, Nat.div_eq_of_lt hfilter, Nat.mod_eq_of_lt hfilter]
  have hchannels : (t.image (b % n)).channels = c := by simp [image, extent, ht]
  rw [Kernel.plane_congr (image_single ht) (hchannels ▸ hfits) hfilter]

/-- **Windows** are summarised plane by plane. -/
theorem pool_single {p : PoolWindow} {outHeight outWidth : Nat} (ht : t.dims = [n, c, h, w])
    (hn : 0 < n) :
    (t.single b).pool p outHeight outWidth = (t.pool p outHeight outWidth).single b := by
  obtain ⟨hc, hh, hw⟩ : t.extent 1 = c ∧ t.extent 2 = h ∧ t.extent 3 = w := by simp [extent, ht]
  unfold pool
  rw [extent_single, extent_single, extent_single, hc, hh, hw, extent_zero ht,
    show (t.single b).extent 0 = 1 from rfl, single_ofFn hn]
  refine ofFn_congr fun i hi => ?_
  rw [volume, Nat.one_mul] at hi
  obtain ⟨hplane, hdiv, -⟩ := plane_behind (m := b % n) hi
  have hvolume : volume [c, outHeight, outWidth] = c * outHeight * outWidth := by
    simp [volume, Nat.mul_assoc]
  have hwidth : 0 < outWidth := Nat.pos_of_ne_zero fun hzero => by simp [volume, hzero] at hi
  have hrow : (b % n * volume [c, outHeight, outWidth] + i) / outWidth % outHeight =
      i / outWidth % outHeight := by
    rw [hvolume, ← Nat.mul_assoc, ← Nat.mul_assoc, Nat.add_comm, Nat.add_mul_div_right _ _ hwidth,
      Nat.add_mul_mod_self_right]
  have hcolumn : (b % n * volume [c, outHeight, outWidth] + i) % outWidth = i % outWidth := by
    rw [hvolume, ← Nat.mul_assoc, Nat.add_comm, Nat.add_mul_mod_self_right]
  dsimp only
  rw [hdiv, hrow, hcolumn]
  refine congrArg _ (Pooling.underWindow_congr (fun y hy x hx => ?_) _ _)
  rw [item_single ht (plane_lt hplane hy hx)]
  refine congrArg _ ?_
  simp only [volume]
  ring

end Tensor
end GridNet
