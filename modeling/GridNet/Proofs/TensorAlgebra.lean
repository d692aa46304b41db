import GridNet.Proofs.Interpreter

/-!
# Equations between tensors

A layer is emitted as several nodes that together make one operator: a product with a gate, a window
that starts at the origin, an affine map that was folded before. The equations here say that these
chains make the same tensor as the operator.

* `ravel_unravel`, `Tensor.get_unravel` — a position and its coordinates.
* `Tensor.tabulate_get`, `Tensor.crop_self` — a tensor is the table of its elements.
* `Tensor.combine_map` — a tensor combined with a function of itself.
* `Tensor.mapChannels_normalizationOf` — a folded normalisation.
-/

namespace GridNet

/-! ## Positions and coordinates -/

theorem length_unravel (dims : List Nat) (i : Nat) : (unravel dims i).length = dims.length := by
  induction dims generalizing i with
  | nil => rfl
  | cons d rest ih => rw [unravel, List.length_cons, List.length_cons, ih]

/-- A position is found again from its coordinates. -/
theorem ravel_unravel {dims : List Nat} {i : Nat} (h : i < volume dims) :
    ravel dims (unravel dims i) = some i := by
  induction dims generalizing i with
  | nil =>
    rw [volume, Nat.lt_one_iff] at h
    rw [unravel, ravel, h]
  | cons d rest ih =>
    rw [volume] at h
    have hrest : 0 < volume rest := Nat.pos_of_ne_zero fun hzero => by simp [hzero] at h
    have hfirst : i / volume rest < d := Nat.div_lt_of_lt_mul (by rwa [Nat.mul_comm])
    rw [unravel, ravel, if_pos hfirst, ih (Nat.mod_lt i hrest), Option.map_some,
      Nat.div_add_mod']

namespace Tensor

/-- On an axis of extent 1 there is only one coordinate. -/
theorem clip_unravel {dims : List Nat} {i : Nat} (h : i < volume dims) :
    clip dims (unravel dims i) = unravel dims i := by
  induction dims generalizing i with
  | nil => rfl
  | cons d rest ih =>
    rw [volume] at h
    have hrest : 0 < volume rest := Nat.pos_of_ne_zero fun hzero => by simp [hzero] at h
    have hclip : clip rest (unravel rest (i % volume rest)) = unravel rest (i % volume rest) :=
      ih (Nat.mod_lt i hrest)
    unfold clip at hclip ⊢
    rw [unravel, List.zipWith_cons_cons, hclip]
    split
    · next hone =>
      rw [hone, Nat.one_mul] at h
      rw [Nat.div_eq_of_lt h]
    · rfl

/-! ## Tables -/

theorem ofFn_congr {dims : List Nat} {f g : Nat → Scalar} (h : ∀ i < volume dims, f i = g i) :
    ofFn dims f = ofFn dims g := by
  have hdata : (fun i : Fin (volume dims) => f i) = fun i : Fin (volume dims) => g i :=
    funext fun i => h i i.isLt
  rw [ofFn, ofFn]
  congr 2

theorem item_ofFn {dims : List Nat} {f : Nat → Scalar} {i : Nat} (h : i < volume dims) :
    (ofFn dims f).item i = f i := by
  simp [ofFn, item, h]

/-- A tensor is the table of its elements. -/
theorem ofFn_item (t : Tensor) : ofFn t.dims t.item = t := by
  obtain ⟨dims, data, hsize⟩ := t
  have hdata : (Array.ofFn fun i : Fin (volume dims) => (data[(i : Nat)]?).getD .zero) = data := by
    refine Array.ext (by simpa using hsize.symm) fun i hi hi' => ?_
    simp [hi']
  unfold ofFn item
  simp only [hdata]

theorem map_eq_ofFn (f : Scalar → Scalar) (t : Tensor) :
    t.map f = ofFn t.dims fun i => f (t.item i) := by
  rw [← ofFn_item (t.map f)]
  refine ofFn_congr fun i hi => ?_
  have hlt : i < t.data.size := t.size_eq ▸ hi
  simp [map, item, hlt]

theorem item_map {f : Scalar → Scalar} {t : Tensor} {i : Nat} (h : i < volume t.dims) :
    (t.map f).item i = f (t.item i) := by
  rw [map_eq_ofFn, item_ofFn h]

@[simp] theorem map_dims (f : Scalar → Scalar) (t : Tensor) : (t.map f).dims = t.dims := rfl

theorem map_map (f g : Scalar → Scalar) (t : Tensor) :
    (t.map f).map g = t.map fun x => g (f x) := by
  rw [map_eq_ofFn g, map_eq_ofFn fun x => g (f x)]
  exact ofFn_congr fun i hi => congrArg g (item_map hi)

theorem map_id (t : Tensor) : (t.map fun x => x) = t := by
  rw [map_eq_ofFn, ofFn_item]

/-- The element at the coordinates of a position. -/
theorem get_unravel {t : Tensor} {i : Nat} (h : i < volume t.dims) :
    t.get (unravel t.dims i) = t.item i := by
  unfold get
  rw [ravel_unravel h]

theorem tabulate_get (t : Tensor) : tabulate t.dims t.get = t := by
  conv_rhs => rw [← ofFn_item t]
  exact ofFn_congr fun i hi => get_unravel hi

/-! ## Chains of nodes -/

theorem broadcastDims_self (dims : List Nat) : broadcastDims dims dims = some dims := by
  induction dims with
  | nil => rfl
  | cons d rest ih =>
    rw [broadcastDims, ih, broadcastExtent, if_pos rfl]
    rfl

/-- **A tensor combined with a function of itself** is a function of the tensor. -/
theorem combine_map (c : Combination) (f : Scalar → Scalar) (t : Tensor) :
    combine c t (t.map f) = some (t.map fun x => c.apply x (f x)) := by
  rw [combine, map_dims, broadcastDims_self, Option.map_some, map_eq_ofFn fun x => c.apply x (f x),
    broadcast, tabulate]
  refine congrArg some (ofFn_congr fun i hi => ?_)
  have hmap : (t.map f).get (unravel t.dims i) = (t.map f).item i := get_unravel hi
  rw [map_dims, clip_unravel hi, get_unravel hi, hmap, item_map hi]

theorem withinExtents_iff {dims outer : List Nat} :
    withinExtents dims outer = true ↔ List.Forall₂ (· ≤ ·) dims outer := by
  induction dims generalizing outer with
  | nil => cases outer <;> simp [withinExtents]
  | cons d dims ih => cases outer <;> simp [withinExtents, ih]

theorem crop_self (t : Tensor) : t.crop t.dims = some t := by
  have hwithin : withinExtents t.dims t.dims = true :=
    withinExtents_iff.mpr (List.forall₂_same.mpr fun d _ => Nat.le_refl d)
  rw [crop, if_pos hwithin, tabulate_get]

theorem view_eq_some {dims : List Nat} {t v : Tensor} :
    t.view dims = some v ↔ volume dims = volume t.dims ∧ t.reshape dims = v := by
  unfold view
  split
  · next h => simp [h]
  · next h => simp [h]

/-- A window that starts at the origin and leaves nothing out is a corner. -/
theorem slice_origin {dims : List Nat} {n : Nat} (t : Tensor) (h : dims.length = n) :
    t.slice (List.replicate n 0) dims (List.replicate n 1) = tabulate dims t.get := by
  rw [slice, tabulate, tabulate]
  refine ofFn_congr fun i _ => ?_
  have hlength : (unravel dims i).length = n := (length_unravel dims i).trans h
  have hstep : List.zipWith (· * ·) (unravel dims i) (List.replicate n 1) = unravel dims i := by
    rw [← hlength]
    exact List.ext_getElem (by simp) fun j _ _ => by simp
  have hshift : List.zipWith (· + ·) (List.replicate n 0) (unravel dims i) = unravel dims i := by
    rw [← hlength]
    exact List.ext_getElem (by simp) fun j _ _ => by simp
  rw [hstep, hshift]

/-- The affine map of one channel, from its entries in the four lists. -/
theorem foldNormalization_apply {biases scales means variances : Array Scalar} {c : Nat}
    {bias scale mean variance : Scalar} (hbias : biases[c]? = some bias)
    (hscale : scales[c]? = some scale)
    (hmean : means[c]? = some mean) (hvariance : variances[c]? = some variance) (x : Scalar) :
    (foldNormalization biases scales means variances).apply c x =
      Scalar.fma x (foldChannel bias scale mean variance).2
        (foldChannel bias scale mean variance).1 := by
  have hone : Scalar.one.same .one = true := by decide
  have hzip : (((biases.zip scales).zip means).zip variances)[c]? =
      some (((bias, scale), mean), variance) := by
    simp only [Array.getElem?_zip_eq_some, hbias, hscale, hmean, hvariance, and_self]
  obtain ⟨hin, -⟩ := Array.getElem?_eq_some_iff.mp hzip
  rw [ChannelMap.apply, foldNormalization]
  simp only [Array.getElem?_map, hzip, Option.map_some, Option.getD_some, Array.getElem?_replicate,
    Array.size_map, if_pos hin, hone, if_true]

/-- The affine map of one channel, from the four lists that it was folded from. -/
theorem normalizationOf_apply {slice : Array Scalar} {channels c : Nat} (hc : c < channels)
    (hsize : 4 * channels ≤ slice.size) (x : Scalar) :
    let entry := fun list => (slice[list * channels + c]?).getD .zero
    let folded := foldChannel (entry 0) (entry 1) (entry 2) (entry 3)
    (normalizationOf slice channels).apply c x = Scalar.fma x folded.2 folded.1 := by
  intro entry folded
  have hread : ∀ first last list, first = list * channels →
      last = (list + 1) * channels → list < 4 →
      (slice.extract first last)[c]? = some (entry list) := by
    rintro first last list rfl rfl hlist
    have hend : (list + 1) * channels ≤ 4 * channels := Nat.mul_le_mul_right _ hlist
    rw [Nat.succ_mul] at hend ⊢
    have hin : list * channels + c < slice.size := by omega
    rw [Array.getElem?_extract_of_lt (by omega)]
    simp [entry, hin]
  exact foldNormalization_apply (hread 0 channels 0 (by omega) (by omega) (by decide))
    (hread channels (2 * channels) 1 (by omega) (by omega) (by decide))
    (hread (2 * channels) (3 * channels) 2 rfl rfl (by decide))
    (hread (3 * channels) (4 * channels) 3 rfl rfl (by decide)) x
/-- **A folded normalisation** is the normalisation with the lists that it was folded from. -/
theorem mapChannels_normalizationOf {slice : Array Scalar} {t : Tensor} {channels : Nat}
    (hchannels : t.extent 1 = channels) (hpos : 0 < channels) (hsize : 4 * channels ≤ slice.size) :
    t.mapChannels (normalizationOf slice channels) = t.normalize slice := by
  subst hchannels
  rw [mapChannels, normalize]
  refine ofFn_congr fun i _ => ?_
  rw [normalizationOf_apply (Nat.mod_lt _ hpos) hsize]

end Tensor

end GridNet
