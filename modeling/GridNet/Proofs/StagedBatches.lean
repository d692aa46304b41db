import GridNet.Proofs.FileReplies
import GridNet.Proofs.FittedPictures

/-!
# How a batch is put together

A picture of any size is cropped to the network's input, so that all pictures have the same number
of planes and pixels. Each is written into its slot of the staged batch, which is a row of such
slots, each with the numbers of one picture; where a slot is larger than a picture, there are zeros
behind them, since nothing has ever been written there.

* `Feeder.planesOf_size` — how many numbers a picture comes to.
* `InputVolume.Fits` — when a slot has just as many.
* `Feeder.fillSlot_row` — one slot of a row.
* `Feeder.Holds`, `Feeder.Holds.loadSlots` — the slots of a staged batch, filled one by one.
* `Feeder.Valid` — what holds of every feeder; `Feeder.nextBatch_cases` — what comes of
  asking one for a batch.
* `Feeder.quiet_nextBatch` — asking for a batch changes no file.
-/

namespace GridNet

/-! ## The numbers of a picture -/

namespace Picture

variable {p : Picture}

theorem planes_size (n : Normalization) :
    (p.planes n).data.size = p.mode.channels * p.size.height * p.size.width := by
  rw [(p.planes n).size_eq]
  simp [planes, Tensor.ofFn, volume, Nat.mul_assoc]

end Picture

/-- The numbers that a picture comes to when it is cropped to the input. Its sides have 32 bits. -/
def InputVolume.pictureSize (v : InputVolume) : Nat :=
  v.channels * (v.height % Word.modulus32) * (v.width % Word.modulus32)

/-- The sides of the input **fit** those of a picture, which have 32 bits. -/
structure InputVolume.Fits (v : InputVolume) : Prop where
  height : v.height < Word.modulus32
  width : v.width < Word.modulus32

/-- A slot has just the size of a picture. -/
theorem InputVolume.Fits.pictureSize_eq {v : InputVolume} (h : v.Fits) :
    v.pictureSize = v.size := by
  rw [pictureSize, Nat.mod_eq_of_lt h.height, Nat.mod_eq_of_lt h.width, size]

namespace Feeder

/-- **Every picture comes to the same number of numbers**, however large it is. -/
theorem planesOf_size {input : InputVolume} (hchannels : input.channels = 1 ∨ input.channels = 3)
    (n : Normalization) (p : Picture) : (planesOf input n p).data.size = input.pictureSize := by
  simp only [planesOf, Picture.inputPlanes]
  by_cases hgray : input.channels = 1
  · rw [if_pos hgray, Picture.planes_size, Picture.mode_toLuma, Picture.size_toLuma,
      Picture.size_centerCrop, InputVolume.pictureSize, hgray]
    rfl
  · rw [if_neg hgray, Picture.planes_size, Picture.mode_centerCrop, Picture.mode_toRgb,
      Picture.size_centerCrop, InputVolume.pictureSize, hchannels.resolve_left hgray]
    rfl

/-- The planes of the picture in a file are those of the picture that can be opened there. -/
theorem loadPlanes_answered {files : Files} {input : InputVolume} {n : Normalization}
    {path : String} {t : Tensor} :
    (loadPlanes input n path).answered files = .ok t ↔
      ∃ p, (FileAction.openPicture path).answered files = .ok p ∧ planesOf input n p = t := by
  simp [loadPlanes]

/-! ## One slot -/

/-- The numbers in a slot that a picture has been put into: what the slot has no room for is left
out, and zeros stand for what is missing. -/
def fitted (volume : Nat) (values : Array Scalar) : List Scalar :=
  values.toList.take volume ++ List.replicate (volume - values.size) .zero

@[simp] theorem length_fitted (volume : Nat) (values : Array Scalar) :
    (fitted volume values).length = volume := by
  simp only [fitted, List.length_append, List.length_take, List.length_replicate,
    Array.length_toList]
  omega

theorem fitted_of_size {volume : Nat} {values : Array Scalar} (h : values.size = volume) :
    fitted volume values = values.toList := by
  rw [fitted, h, Nat.sub_self, List.replicate_zero, List.append_nil, List.take_of_length_le]
  exact Nat.le_of_eq h

/-- The numbers in a row of slots. -/
def row (volume : Nat) (slots : List (Array Scalar)) : List Scalar := slots.flatMap (fitted volume)

theorem row_append (volume : Nat) (slots slots' : List (Array Scalar)) :
    row volume (slots ++ slots') = row volume slots ++ row volume slots' := List.flatMap_append

theorem length_row (volume : Nat) (slots : List (Array Scalar)) :
    (row volume slots).length = slots.length * volume := by
  simp [row, List.length_flatMap, Nat.mul_comm]

theorem row_of_sizes {volume : Nat} {slots : List (Array Scalar)}
    (h : ∀ v ∈ slots, v.size = volume) :
    row volume slots = slots.flatMap (·.toList) :=
  List.flatMap_congr fun v hv => fitted_of_size (h v hv)

section

variable {volume slot : Nat} {values batch batch' : Array Scalar}

theorem toList_overwrite {first : Nat} : (overwrite first values batch).toList =
    batch.toList.take first ++ values.toList ++ batch.toList.drop (first + values.size) := by
  simp [overwrite, List.take_of_length_le]

/-- A slot that can be counted and that the batch has is filled. -/
theorem fillSlot_of_room (hcounted : (slot + 1) * volume < Word.modulus)
    (hroom : (slot + 1) * volume ≤ batch.size) : fillSlot volume slot values batch =
      .ok (overwrite (slot * volume) (values.extract 0 volume) batch) := by
  have hnext : (slot + 1) * volume = slot * volume + volume := Nat.succ_mul slot volume
  have hfirst : Word.mul slot volume = .ok (slot * volume) := Word.mul_of_lt (by omega)
  have hstop : Word.mul (slot + 1) volume = .ok (slot * volume + volume) := by
    rw [Word.mul_of_lt hcounted, hnext]
  rw [hnext] at hroom
  simp [fillSlot, hfirst, hstop, demand, hroom]

/-- **Filling one slot of a row.** Behind a picture that does not fill its slot stand the zeros that
stood behind the last one. -/
theorem fillSlot_row {slots : List (Array Scalar)} (hrow : batch.toList = row volume slots)
    (hslot : slot < slots.length) (hsizes : ∀ v ∈ slots, v.size = values.size)
    (hcounted : slots.length * volume < Word.modulus) :
    ∃ batch', fillSlot volume slot values batch = .ok batch' ∧
      batch'.toList = row volume (slots.set slot values) := by
  have hend : (slot + 1) * volume ≤ slots.length * volume := Nat.mul_le_mul_right _ hslot
  have hsize : batch.size = slots.length * volume := by
    rw [← Array.length_toList, hrow, length_row]
  refine ⟨_, fillSlot_of_room (by omega) (by omega), ?_⟩
  rw [toList_overwrite, hrow]
  -- the row in front of the slot, the slot, and the row behind it
  obtain ⟨before, old, after, rfl, rfl⟩ : ∃ before old after, slots = before ++ old :: after ∧
      before.length = slot :=
    ⟨slots.take slot, slots[slot], slots.drop (slot + 1), by simp, by simp; omega⟩
  have hset : (before ++ old :: after).set before.length values = before ++ values :: after := by
    simp
  have hfront : (row volume before).length = before.length * volume := length_row volume before
  have hparts : ∀ v : Array Scalar, v.size = values.size → row volume (before ++ v :: after) =
      row volume before ++ (v.toList.take volume ++
        (List.replicate (volume - values.size) .zero ++ row volume after)) := by
    intro v hv
    rw [row_append, row, row, row, List.flatMap_cons, fitted, hv, List.append_assoc]
  have hold : old.size = values.size := hsizes old (by simp)
  have htake : (old.toList.take volume).length = (values.extract 0 volume).size := by
    simp [hold]
  have hvalues : (values.extract 0 volume).toList = values.toList.take volume := by simp
  calc (row volume (before ++ old :: after)).take (before.length * volume) ++
        (values.extract 0 volume).toList ++
        (row volume (before ++ old :: after)).drop
          (before.length * volume + (values.extract 0 volume).size)
      = row volume before ++ values.toList.take volume ++
          (List.replicate (volume - values.size) .zero ++ row volume after) := by
        rw [hparts old hold, ← hfront, ← htake, List.take_left, List.drop_length_add_append,
          List.drop_left, hvalues]
    _ = row volume ((before ++ old :: after).set before.length values) := by
        rw [hset, hparts values rfl, List.append_assoc]

end

/-! ## All slots -/

/-- The files show a picture at a path. -/
def Opens (files : Files) (path : String) (p : Picture) : Prop :=
  (FileAction.openPicture path).answered files = .ok p

/-- The numbers that a feeder makes of a picture. -/
def numbersOf (f : Feeder) (p : Picture) : Array Scalar := (planesOf f.input f.normalization p).data

/-- The staged batch is a **row of slots**, one for each picture of a batch. -/
structure Holds (f : Feeder) (slots : List (Array Scalar)) : Prop where
  staged : f.staged.toList = row f.input.size slots
  count : slots.length = f.batchSize
  sizes : ∀ v ∈ slots, v.size = f.input.pictureSize

/-- What holds of **every feeder**, whatever has been asked of it. The staged batch and the buffer
have the numbers of a batch, which have been counted. -/
structure Valid (f : Feeder) : Prop where
  positive : 0 < f.batchSize
  channels : f.input.channels = 1 ∨ f.input.channels = 3
  counted : batchVolume f.batchSize f.input < Word.modulus
  capacity : f.buffer.size = batchVolume f.batchSize f.input
  slots : ∃ slots, f.Holds slots

variable {f : Feeder} {files : Files} {slot : Nat} {path : String} {slots : List (Array Scalar)}

/-- A picture that cannot be opened leaves the staged batch as it is. -/
theorem loadSlot_closed (h : ∀ p, ¬ Opens files path p) :
    ∃ e, (loadSlot slot path).answered files f = (.error e, f) := by
  cases hplanes : (loadPlanes f.input f.normalization path).answered files with
  | ok t =>
    obtain ⟨p, hopens, -⟩ := loadPlanes_answered.mp hplanes
    exact absurd hopens (h p)
  | error e =>
    refine ⟨e, ?_⟩
    rw [loadSlot, Feeding.answered_bind_ok _ Feeding.answered_get, Feeding.answered_bind_error]
    rw [Feeding.answered_lift, hplanes]

section

variable {p : Picture} (hopens : Opens files path p)

include hopens

theorem loadSlot_opens : (loadSlot slot path).answered files f =
    (do
      let staged ← Feeding.lift
        (FileAction.lift (fillSlot f.input.size slot (f.numbersOf p) f.staged))
      set { f with staged } : Feeding Unit).answered files f := by
  have hplanes : (Feeding.lift (loadPlanes f.input f.normalization path)).answered files f =
      (.ok (planesOf f.input f.normalization p), f) := by
    rw [Feeding.answered_lift, loadPlanes_answered.mpr ⟨p, hopens, rfl⟩]
  rw [loadSlot, Feeding.answered_bind_ok _ Feeding.answered_get, Feeding.answered_bind_ok _ hplanes]
  rfl

theorem loadSlot_filled {staged : Array Scalar}
    (hfill : fillSlot f.input.size slot (f.numbersOf p) f.staged = .ok staged) :
    (loadSlot slot path).answered files f = (.ok (), { f with staged }) := by
  rw [loadSlot_opens hopens, hfill, Feeding.answered_bind_ok _ (Feeding.answered_lift _)]
  rfl

end

/-- A picture is put into its slot. -/
theorem Holds.loadSlot (hf : f.Holds slots)
    (hchannels : f.input.channels = 1 ∨ f.input.channels = 3)
    (hcounted : batchVolume f.batchSize f.input < Word.modulus) (hslot : slot < f.batchSize)
    {p : Picture} (hopens : Opens files path p) :
    ∃ staged, (Feeder.loadSlot slot path).answered files f = (.ok (), { f with staged }) ∧
      Holds { f with staged } (slots.set slot (f.numbersOf p)) := by
  have hsize : (f.numbersOf p).size = f.input.pictureSize := planesOf_size hchannels _ p
  obtain ⟨staged, hfill, hrow⟩ := fillSlot_row hf.staged (hf.count ▸ hslot)
    (fun v hv => (hf.sizes v hv).trans hsize.symm) (hf.count ▸ hcounted)
  refine ⟨staged, loadSlot_filled hopens hfill, hrow, ?_, fun v hv => ?_⟩
  · rw [List.length_set]
    exact hf.count
  · rcases List.mem_or_eq_of_mem_set hv with hold | rfl
    · exact hf.sizes v hold
    · exact hsize

/-- A list with an entry changed, and others behind it. -/
private theorem take_set_append {α : Type} {xs : List α} {k : Nat} (hk : k < xs.length)
    (x : α) (ys : List α) (n : Nat) :
    (xs.set k x).take (k + 1) ++ ys ++ (xs.set k x).drop (k + 1 + n) =
      xs.take k ++ x :: ys ++ xs.drop (k + (n + 1)) := by
  rw [List.drop_set_of_lt (by omega), List.take_succ_eq_append_getElem (by simpa using hk),
    List.take_set_of_le (Nat.le_refl k), List.getElem_set_self, Nat.add_assoc, Nat.add_comm 1]
  simp

/-- **The pictures of a batch** are put into their slots one by one, up to the first one
that cannot be opened. -/
theorem Holds.loadSlots (hchannels : f.input.channels = 1 ∨ f.input.channels = 3)
    (hcounted : batchVolume f.batchSize f.input < Word.modulus) (files : Files)
    (paths : List String) :
    ∀ (staged₀ : Array Scalar) (slots : List (Array Scalar)) (slot : Nat),
      Holds { f with staged := staged₀ } slots → slot + paths.length ≤ f.batchSize →
      (∃ pictures staged, List.Forall₂ (Opens files) paths pictures ∧
        (Feeder.loadSlots slot paths).answered files { f with staged := staged₀ } =
          (.ok (), { f with staged }) ∧
        Holds { f with staged }
          (slots.take slot ++ pictures.map f.numbersOf ++ slots.drop (slot + paths.length))) ∨
      ∃ e staged slots', (∃ path ∈ paths, ∀ p, ¬ Opens files path p) ∧
        (Feeder.loadSlots slot paths).answered files { f with staged := staged₀ } =
          (.error e, { f with staged }) ∧
        Holds { f with staged } slots' := by
  induction paths with
  | nil =>
    intro staged₀ slots slot hf _
    refine .inl ⟨[], staged₀, .nil, rfl, ?_⟩
    rw [List.map_nil, List.append_nil, List.length_nil, Nat.add_zero, List.take_append_drop]
    exact hf
  | cons path rest ih =>
    intro staged₀ slots slot hf hroom
    rw [List.length_cons] at hroom
    by_cases hopens : ∃ p, Opens files path p
    · obtain ⟨p, hopens⟩ := hopens
      have hslot : slot < f.batchSize := by omega
      obtain ⟨staged₁, hload, hf₁⟩ := hf.loadSlot hchannels hcounted hslot hopens
      rcases ih staged₁ _ (slot + 1) hf₁ (by omega)
        with ⟨pictures, staged, hpictures, hrest, hholds⟩ |
        ⟨e, staged, slots', ⟨missing, hmem, hmissing⟩, hrest, hholds⟩
      · refine .inl ⟨p :: pictures, staged, .cons hopens hpictures, ?_, ?_⟩
        · rw [Feeder.loadSlots, Feeding.answered_bind_ok _ hload]
          exact hrest
        · have hsplit := take_set_append (hf.count ▸ hslot) (f.numbersOf p)
            (pictures.map f.numbersOf) rest.length
          rw [List.map_cons, List.length_cons, ← hsplit]
          exact hholds
      · refine .inr ⟨e, staged, slots',
          ⟨missing, List.mem_cons_of_mem _ hmem, hmissing⟩, ?_, hholds⟩
        rw [Feeder.loadSlots, Feeding.answered_bind_ok _ hload]
        exact hrest
    · have hclosed : ∀ p, ¬ Opens files path p := fun p hp => hopens ⟨p, hp⟩
      obtain ⟨e, hload⟩ : ∃ e, (Feeder.loadSlot slot path).answered files
        { f with staged := staged₀ } =
          (.error e, { f with staged := staged₀ }) := loadSlot_closed hclosed
      refine .inr ⟨e, staged₀, slots, ⟨path, List.mem_cons_self, hclosed⟩, ?_, hf⟩
      rw [Feeder.loadSlots, Feeding.answered_bind_error _ hload]

/-! ## One batch -/

theorem nextPaths_eq_some {paths : List String} (h : f.nextPaths = some paths) :
    f.cacheFound = false ∧ f.position + f.batchSize ≤ f.images.length ∧
      paths = (f.images.drop f.position).take f.batchSize := by
  unfold nextPaths at h
  split at h
  · cases h
  · next hopen =>
    simp only [Bool.or_eq_true, decide_eq_true_eq, not_or, Bool.not_eq_true, Nat.not_lt] at hopen
    exact ⟨hopen.1, hopen.2, (Option.some.inj h).symm⟩

theorem nextPaths_eq_none :
    f.nextPaths = none ↔ f.cacheFound = true ∨ f.images.length < f.position + f.batchSize := by
  unfold nextPaths
  split
  · next hover => simpa using hover
  · next hopen => simpa using hopen

/-- What comes of **asking for a batch**. -/
inductive Batching (files : Files) (f : Feeder) (names : List String) :
    Outcome (Option (Array Scalar)) → Feeder → Prop
  /-- there is one input only -/
  | misnamed (text : String) (hnames : names.length ≠ 1) :
      Batching files f names (.error (.note text)) f
  /-- an earlier table was found, or too few pictures are left -/
  | finished (hnames : names.length = 1) (hpaths : f.nextPaths = none) :
      Batching files f names (.ok none) f
  /-- one of the pictures cannot be opened -/
  | failed {paths : List String} {e : Failure} {staged : Array Scalar} (hnames : names.length = 1)
      (hpaths : f.nextPaths = some paths) (hvalid : Valid { f with staged })
      (hcause : ∃ path ∈ paths, ∀ p, ¬ Opens files path p) :
      Batching files f names (.error e) { f with staged }
  /-- the numbers of the next pictures -/
  | handedOut {paths : List String} {pictures : List Picture} {batch : Array Scalar}
      (hnames : names.length = 1) (hpaths : f.nextPaths = some paths)
      (hopens : List.Forall₂ (Opens files) paths pictures)
      (hbatch : batch.toList = row f.input.size (pictures.map f.numbersOf))
      (hvalid : Valid { f with position := f.position + f.batchSize, staged := batch,
                               buffer := batch }) :
      Batching files f names (.ok (some batch))
        { f with position := f.position + f.batchSize, staged := batch, buffer := batch }

theorem handOut_answered (h : f.staged.size = f.buffer.size) :
    handOut.answered files f = (.ok f.staged,
      { f with position := f.position + f.batchSize, buffer := f.staged }) := by
  have hupload : upload f.buffer.size f.staged = .ok f.staged := by simp [upload, ensure, h]
  rw [handOut, Feeding.answered_bind_ok _ (Feeding.answered_modify _),
    Feeding.answered_bind_ok _ Feeding.answered_get]
  dsimp only
  rw [hupload, Feeding.answered_bind_ok _ (Feeding.answered_lift _)]
  rfl

/-- A row of slots has the numbers of a batch. -/
theorem Holds.size (h : f.Holds slots) : f.staged.size = batchVolume f.batchSize f.input := by
  rw [← Array.length_toList, h.staged, length_row, h.count, batchVolume]

/-- A feeder with another row of slots staged in the place of its own. -/
theorem Valid.restage (hf : f.Valid) {staged : Array Scalar}
    (hslots : Holds { f with staged } slots) :
    Valid { f with staged } where
  positive := hf.positive
  channels := hf.channels
  counted := hf.counted
  capacity := hf.capacity
  slots := ⟨slots, hslots⟩

/-- The staged batch has the numbers of a batch. -/
theorem Valid.size (hf : f.Valid) : f.staged.size = batchVolume f.batchSize f.input :=
  hf.slots.elim fun _ h => h.size

/-- A feeder that hands out the batch it has put together. -/
theorem Valid.handOut (hf : f.Valid) :
    Valid { f with position := f.position + f.batchSize, buffer := f.staged } where
  positive := hf.positive
  channels := hf.channels
  counted := hf.counted
  capacity := hf.size
  slots := hf.slots.imp fun _ h => ⟨h.staged, h.count, h.sizes⟩

section

variable {names : List String}

private theorem answered_checkNames (hnames : names.length = 1) :
    (Feeding.lift (FileAction.check (names.length = 1)
      s!"calibration feeds a single input binding, {names.length} requested")).answered files f =
        (.ok (), f) := by
  rw [Feeding.answered_lift, FileAction.answered_check]
  simp [ensure, hnames]

theorem nextBatch_finished (hnames : names.length = 1) (hpaths : f.nextPaths = none) :
    (nextBatch names).answered files f = (.ok none, f) := by
  rw [nextBatch, Feeding.answered_bind_ok _ (answered_checkNames hnames),
    Feeding.answered_bind_ok _ Feeding.answered_get, hpaths]
  rfl

theorem nextBatch_paths (hnames : names.length = 1) {paths : List String}
    (hpaths : f.nextPaths = some paths) :
    (nextBatch names).answered files f =
      (do loadSlots 0 paths; return some (← handOut) :
        Feeding (Option (Array Scalar))).answered files f := by
  rw [nextBatch, Feeding.answered_bind_ok _ (answered_checkNames hnames),
    Feeding.answered_bind_ok _ Feeding.answered_get, hpaths]

/-- The pictures of the next batch are put together, and the batch is handed out. -/
theorem batching_of_paths (hf : f.Valid) (hnames : names.length = 1) {paths : List String}
    (hpaths : f.nextPaths = some paths) :
    f.Batching files names ((nextBatch names).answered files f).1
      ((nextBatch names).answered files f).2 := by
  obtain ⟨-, hleft, hnext⟩ := nextPaths_eq_some hpaths
  have hlength : paths.length = f.batchSize := by
    rw [hnext, List.length_take, List.length_drop]
    omega
  rw [nextBatch_paths hnames hpaths]
  obtain ⟨slots, hslots⟩ := hf.slots
  have hroom : 0 + paths.length ≤ f.batchSize := by omega
  rcases hslots.loadSlots hf.channels hf.counted files paths f.staged slots 0 hroom with
    ⟨pictures, staged, hopens, hload, hholds⟩ | ⟨e, staged, slots', hmissing, hload, hholds⟩
  · have hall : slots.take 0 ++ pictures.map f.numbersOf ++ slots.drop (0 + paths.length) =
        pictures.map f.numbersOf := by
      rw [List.take_zero, List.nil_append, Nat.zero_add, hlength, ← hslots.count, List.drop_length,
        List.append_nil]
    rw [hall] at hholds
    have hvalid : Valid { f with staged } := hf.restage hholds
    have hout : handOut.answered files { f with staged } =
        (.ok staged, { f with position := f.position + f.batchSize, staged, buffer := staged }) :=
      handOut_answered (hvalid.size.trans hvalid.capacity.symm)
    rw [Feeding.answered_bind_ok _ hload, Feeding.answered_bind_ok _ hout]
    exact .handedOut hnames hpaths hopens hholds.staged hvalid.handOut
  · rw [Feeding.answered_bind_error _ hload]
    exact .failed hnames hpaths (hf.restage hholds) hmissing

/-- **Every request for a batch** comes to one of these. -/
theorem nextBatch_cases (hf : f.Valid) (files : Files) (names : List String) :
    f.Batching files names ((nextBatch names).answered files f).1
      ((nextBatch names).answered files f).2 := by
  by_cases hnames : names.length = 1
  · cases hpaths : f.nextPaths with
    | none =>
      rw [nextBatch_finished hnames hpaths]
      exact .finished hnames hpaths
    | some paths => exact batching_of_paths hf hnames hpaths
  · have hcheck : ensure (names.length = 1)
        s!"calibration feeds a single input binding, {names.length} requested" =
        .error (.note s!"calibration feeds a single input binding, {names.length} requested") := by
      simp [ensure, hnames]
    rw [nextBatch, FileAction.check, hcheck,
      Feeding.answered_bind_error _ (Feeding.answered_lift _)]
    exact .misnamed _ hnames

end

/-! ## The files -/

theorem quiet_loadSlots (paths : List String) : ∀ slot, (loadSlots slot paths).Quiet := by
  induction paths with
  | nil =>
    intro _
    exact Feeding.quiet_pure ()
  | cons path rest ih =>
    intro slot
    have hplanes : ∀ f : Feeder, (loadPlanes f.input f.normalization path).Quiet := fun f =>
      ((FileAction.quiet_openPicture path).bind fun _ => FileAction.quiet_lift _).within
    refine Feeding.Quiet.bind
      (Feeding.quiet_get.bind fun f => (Feeding.quiet_lift (hplanes f)).bind fun _ => ?_)
      fun _ => ih (slot + 1)
    exact (Feeding.quiet_lift (FileAction.quiet_lift _)).bind fun _ => Feeding.quiet_set _

/-- **Asking for a batch leaves all files as they are.** -/
theorem quiet_nextBatch (names : List String) : (nextBatch names).Quiet := by
  refine (Feeding.quiet_lift (FileAction.quiet_lift _)).bind fun _ =>
    Feeding.quiet_get.bind fun f => ?_
  have hout : handOut.Quiet :=
    (Feeding.quiet_modify _).bind fun _ => Feeding.quiet_get.bind fun _ =>
    (Feeding.quiet_lift (FileAction.quiet_lift _)).bind fun _ => (Feeding.quiet_set _).bind fun _ =>
      Feeding.quiet_pure _
  split
  · exact Feeding.quiet_pure none
  · exact (quiet_loadSlots _ 0).bind fun _ => hout.bind fun _ => Feeding.quiet_pure _

end Feeder

end GridNet
