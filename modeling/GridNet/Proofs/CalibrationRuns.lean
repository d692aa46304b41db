import GridNet.Calibration.Run
import GridNet.Proofs.FeederRuns
import GridNet.Proofs.PeakTables
import GridNet.Proofs.WrittenFiles

/-!
# A calibration is all or nothing

A calibration only looks at files and reads them, up to its last request, which writes the table.
Whatever fails before, and also that request itself, leaves all files as they were. When nothing
fails, all whole batches have run through the model, and the table says what was observed; the next
calibration that may use it takes it over.

* `Feeding.runOn`, `Feeding.Cautious` — steps on a store; steps that change no file when they fail.
* `calibrate_cautious` — a calibration is such a step.
* `Calibration.Scanned`, `Calibration.scanned_runBatches` — the batches so far, one batch
  more, and all of them.
* `Calibration.Measured`, `Calibration.measure_measured` — what a run of all batches comes to.
* `Calibration.AllOrNothing`, `calibrate_allOrNothing` — what becomes of a calibration.
-/

namespace GridNet

/-! ## Steps on a store -/

namespace Feeding

variable {α β : Type} {a : Feeding α} {f f' : Feeder} {s s' : Store}

/-- A step made on a store: its outcome, the feeder behind it, and the store behind it. -/
def runOn (a : Feeding α) (f : Feeder) (s : Store) : (Outcome α × Feeder) × Store :=
  FileProgram.run (a.run.run f) s

theorem runOn_get : (get : Feeding Feeder).runOn f s = ((.ok f, f), s) := rfl

private theorem runOn_bind (a : Feeding α) (g : α → Feeding β) : (a >>= g).runOn f s =
    FileProgram.run ((ExceptT.bindCont g (a.runOn f s).1.1).run (a.runOn f s).1.2)
    (a.runOn f s).2 :=
  FileProgram.run_andThen (a.run.run f) _ s

theorem runOn_bind_ok {x : α} (g : α → Feeding β) (h : a.runOn f s = ((.ok x, f'), s')) :
    (a >>= g).runOn f s = (g x).runOn f' s' := by
  rw [runOn_bind, h]
  rfl

theorem runOn_bind_error {e : Failure} (g : α → Feeding β)
    (h : a.runOn f s = ((.error e, f'), s')) :
    (a >>= g).runOn f s = ((.error e, f'), s') := by
  rw [runOn_bind, h]
  rfl

/-- Two steps that succeed. -/
theorem runOn_bind_eq_ok {g : α → Feeding β} {y : β} (h : (a >>= g).runOn f s = ((.ok y, f'), s')) :
    ∃ x f₁ s₁, a.runOn f s = ((.ok x, f₁), s₁) ∧ (g x).runOn f₁ s₁ = ((.ok y, f'), s') := by
  rcases hfirst : a.runOn f s with ⟨⟨x | e, f₁⟩, s₁⟩
  · rw [runOn_bind_error g hfirst] at h
    cases h
  · rw [runOn_bind_ok g hfirst] at h
    exact ⟨_, f₁, s₁, rfl, h⟩

theorem Quiet.runOn_eq (ha : a.Quiet) : a.runOn f s = (a.answered s.files f, s) := ha.run_eq f s

/-- A step that **changes no file when it fails**. -/
def Cautious (a : Feeding α) : Prop :=
  ∀ f s e f' s', a.runOn f s = ((.error e, f'), s') → s' = s

theorem Quiet.cautious (ha : a.Quiet) : a.Cautious := by
  intro f s e f' s' h
  rw [ha.runOn_eq] at h
  exact (congrArg Prod.snd h).symm

/-- What is done before may only look and read. -/
theorem Quiet.bind_cautious {g : α → Feeding β} (ha : a.Quiet) (hg : ∀ x, (g x).Cautious) :
    (a >>= g).Cautious := by
  intro f s e f' s' h
  rcases hfirst : a.runOn f s with ⟨⟨x | e₁, f₁⟩, s₁⟩
  · rw [runOn_bind_error g hfirst] at h
    cases h
    exact ha.cautious f s _ _ _ hfirst
  · rw [runOn_bind_ok g hfirst] at h
    rw [ha.runOn_eq] at hfirst
    obtain rfl := congrArg Prod.snd hfirst
    exact hg _ _ _ _ _ _ h

/-- What is done after may not fail. -/
theorem Cautious.bind_pure (ha : a.Cautious) (g : α → β) :
    (a >>= fun x => pure (g x)).Cautious := by
  intro f s e f' s' h
  rcases hfirst : a.runOn f s with ⟨⟨x | e₁, f₁⟩, s₁⟩
  · rw [runOn_bind_error _ hfirst] at h
    cases h
    exact ha f s _ _ _ hfirst
  · rw [runOn_bind_ok _ hfirst] at h
    cases h

end Feeding

/-! ## Requests to the cache -/

namespace Feeder

variable {f : Feeder} {s : Store} {bytes : ByteArray}

/-- Looking for a table leaves all files. -/
theorem quiet_readCache : readCache.Quiet := by
  refine Feeding.quiet_get.bind fun f => ?_
  have hbytes : ∀ text, ((FileAction.readBytes f.cachePath).within text).Quiet :=
    fun _ => (FileAction.quiet_readBytes f.cachePath).within
  split
  · exact Feeding.quiet_pure none
  · refine (Feeding.quiet_lift (FileAction.quiet_present f.cachePath)).bind fun there => ?_
    split
    · exact Feeding.quiet_pure none
    · exact (Feeding.quiet_lift (hbytes _)).bind fun bytes => (Feeding.quiet_set _).bind fun _ =>
        Feeding.quiet_pure (some bytes)

/-- **A table that can be read is found**, if it may be used. -/
theorem readCache_found (huse : f.useCache = true) (hread : s.read f.cachePath = .ok bytes) :
    readCache.answered s.files f = (.ok (some bytes), { f with cacheFound := true }) := by
  have hthere : (s.files (.look f.cachePath)).isSome = true :=
    Option.isSome_iff_exists.mpr ⟨_, Store.look_of_read hread⟩
  have hfile : s.files (.read f.cachePath) = .ok bytes := hread
  have hbytes := answered_readBytes f s.files s!"failed to read calibration cache {f.cachePath}"
  rw [hfile] at hbytes
  rw [readCache, Feeding.answered_bind_ok _ Feeding.answered_get, if_neg (by simp [huse]),
    Feeding.answered_bind_ok _ (answered_present f s.files), if_neg (by simp [hthere]),
    Feeding.answered_bind_ok _ hbytes]
  rfl

/-- Otherwise none is found, or reading it fails. -/
theorem readCache_missing (h : f.useCache = true → ∀ bytes, s.read f.cachePath ≠ .ok bytes)
    {r : Option ByteArray}
    {f' : Feeder} (hread : readCache.answered s.files f = (.ok r, f')) : r = none ∧ f' = f := by
  rw [readCache, Feeding.answered_bind_ok _ Feeding.answered_get] at hread
  by_cases huse : f.useCache = true
  · rw [if_neg (by simp [huse]), Feeding.answered_bind_ok _ (answered_present f s.files)] at hread
    split at hread
    · cases hread
      exact ⟨rfl, rfl⟩
    · have hbytes := answered_readBytes f s.files s!"failed to read calibration cache {f.cachePath}"
      cases hfile : s.files (.read f.cachePath) with
      | ok bytes => exact absurd hfile (h huse bytes)
      | error fault =>
        rw [hfile] at hbytes
        rw [Feeding.answered_bind_error _ hbytes] at hread
        cases hread
  · rw [if_pos (by simpa using huse)] at hread
    cases hread
    exact ⟨rfl, rfl⟩

/-- A table is written, or the store stays. -/
theorem writeCache_runOn (f : Feeder) (s : Store) (bytes : ByteArray) :
    (∃ after, s.write f.cachePath bytes = .ok after ∧ (writeCache bytes).runOn f s =
      ((.ok (), f), after)) ∨
      ∃ e, (writeCache bytes).runOn f s = ((.error e, f), s) := by
  have hrun : (writeCache bytes).runOn f s =
      ((inContext s!"failed to write calibration cache {f.cachePath}"
      ((s.change (s.write f.cachePath bytes)).1.mapError .ofSystem), f),
        (s.change (s.write f.cachePath bytes)).2) := rfl
  rw [hrun]
  cases s.write f.cachePath bytes with
  | ok after => exact .inl ⟨after, rfl, rfl⟩
  | error fault => exact .inr ⟨_, rfl⟩

/-- Writing a table changes no file when it fails. -/
theorem writeCache_cautious (bytes : ByteArray) : (writeCache bytes).Cautious := by
  intro f s e f' s' h
  rcases writeCache_runOn f s bytes with ⟨after, -, hrun⟩ | ⟨_, hrun⟩
  · rw [hrun] at h
    cases h
  · rw [hrun] at h
    cases h
    rfl

/-- A table that has been written is in the store. -/
theorem writeCache_eq_ok {f' : Feeder} {s' : Store} {u : Unit}
    (h : (writeCache bytes).runOn f s = ((.ok u, f'), s')) :
    f = f' ∧ s'.read f.cachePath = .ok bytes := by
  rcases writeCache_runOn f s bytes with ⟨after, hwrite, hrun⟩ | ⟨_, hrun⟩
  · rw [hrun] at h
    cases h
    exact ⟨rfl, Store.read_of_write hwrite⟩
  · rw [hrun] at h
    cases h

end Feeder

/-! ## The batches -/

namespace Calibration

variable {m : Model} {files : Files} {f₀ f f' : Feeder} {inputs : List Tensor}
  {ranges ranges' : Ranges}

/-- What a model has **observed** on some inputs. -/
def observed (m : Model) (inputs : List Tensor) : List Observation :=
  inputs.flatMap fun x => (m.run x).observations

theorem recordBatch_eq_ok {batch : Array Scalar} (h : recordBatch m ranges batch = .ok ranges') :
    ∃ x : Tensor, x.dims = m.inputDims ∧ x.data = batch ∧
      (∃ outputs, (m.run x).outputs = .ok outputs) ∧
      ranges' = (m.run x).observations.foldl Ranges.record ranges := by
  rw [recordBatch, Tensor.ofArray?] at h
  split at h
  · next x hx =>
    obtain ⟨hsize, hx⟩ := Option.dite_none_right_eq_some.mp hx
    obtain rfl := Option.some.inj hx
    obtain ⟨_, hinput, h⟩ := Outcome.bind_eq_ok.mp h
    obtain rfl := Outcome.pure_eq_ok.mp hinput
    obtain ⟨outputs, hrun, h⟩ := Outcome.bind_eq_ok.mp h
    exact ⟨_, rfl, rfl, ⟨outputs, hrun⟩, (Outcome.pure_eq_ok.mp h).symm⟩
  · exact absurd h (by simp)

/-- What **some batches** have come to: the feeder has handed them out in their turn, and the model
has run on each. -/
structure Scanned (m : Model) (files : Files) (f₀ : Feeder) (inputs : List Tensor)
    (f : Feeder) : Prop where
  fed : ∃ events, Feeder.Fed f₀ events f ∧ Feeder.batches events = inputs.map fun x =>
    (files, x.data)
  cachePath : f.cachePath = f₀.cachePath
  cacheFound : f.cacheFound = false
  runs : ∀ x ∈ inputs, x.dims = m.inputDims ∧ ∃ outputs, (m.run x).outputs = .ok outputs

theorem Scanned.start (hf : f.Valid) (hposition : f.position = 0) (hcache : f.cacheFound = false) :
    Scanned m files f [] f where
  fed := ⟨[], .start hf hposition hcache, rfl⟩
  cachePath := rfl
  cacheFound := hcache
  runs _ h := absurd h List.not_mem_nil

/-- **One batch more.** -/
theorem Scanned.step (h : Scanned m files f₀ inputs f) {x : Tensor} {f' : Feeder}
    (hbatch : (Feeder.nextBatch [inputName]).answered files f = (.ok (some x.data), f'))
    (hdims : x.dims = m.inputDims) (hrun : ∃ outputs, (m.run x).outputs = .ok outputs) :
    Scanned m files f₀ (inputs ++ [x]) f' := by
  obtain ⟨events, hfed, hbatches⟩ := h.fed
  have hask : f.ask files (.nextBatch [inputName]) = (.batch (.ok (some x.data)), f') := by
    rw [Feeder.ask, hbatch]
    rfl
  have heffect := Feeder.ask_effect hfed.valid files (.nextBatch [inputName])
  have hout : (f.event files (.nextBatch [inputName])).handedOut = some (files, x.data) := by
    rw [Feeder.event, hask]
    rfl
  rw [hask] at heffect
  have hkept : f'.cachePath = f.cachePath ∧ f'.cacheFound = f.cacheFound := by
    have hcases := Feeder.nextBatch_cases hfed.valid files [inputName]
    rw [hbatch] at hcases
    cases hcases
    exact ⟨rfl, rfl⟩
  refine ⟨⟨_, hfed.step heffect, ?_⟩, hkept.1.trans h.cachePath, hkept.2.trans h.cacheFound,
    fun y hy => ?_⟩
  · rw [Feeder.batches_concat_some hout, hbatches, List.map_append]
    rfl
  · rcases List.mem_append.mp hy with hy | hy
    · exact h.runs y hy
    · obtain rfl := List.mem_singleton.mp hy
      exact ⟨hdims, hrun⟩

/-- **All batches that are left**, by induction on how many there may be. -/
theorem scanned_runBatches (fuel : Nat) :
    ∀ {inputs f}, Scanned m files f₀ inputs f → f.left < fuel →
    ∀ {total ranges f'}, (runBatches m fuel inputs.length
      ((observed m inputs).foldl Ranges.record .empty)).answered
        files f = (.ok (total, ranges), f') →
      ∃ inputs', Scanned m files f₀ inputs' f' ∧ f'.nextPaths = none ∧ total = inputs'.length ∧
        ranges = (observed m inputs').foldl Ranges.record .empty := by
  induction fuel with
  | zero =>
    intro inputs f _ hleft
    omega
  | succ fuel ih =>
    intro inputs f hscanned hleft total ranges f' h
    obtain ⟨events, hfed, -⟩ := hscanned.fed
    have hcases := Feeder.nextBatch_cases hfed.valid files [inputName]
    rw [runBatches] at h
    rcases hbatch : (Feeder.nextBatch [inputName]).answered files f with ⟨e | ⟨_ | batch⟩, f₁⟩
    · rw [Feeding.answered_bind_error _ hbatch] at h
      cases h
    · -- there is no batch left
      rw [Feeding.answered_bind_ok _ hbatch] at h
      rw [hbatch] at hcases
      cases h
      cases hcases with
      | finished _ hpaths => exact ⟨inputs, hscanned, hpaths, rfl, rfl⟩
    · rw [Feeding.answered_bind_ok _ hbatch] at h
      dsimp only at h
      rcases hrecord : recordBatch m ((observed m inputs).foldl Ranges.record .empty) batch
        with e | ranges₁
      · rw [hrecord, Feeding.answered_bind_error _ (Feeding.answered_lift _)] at h
        cases h
      · rw [hrecord, Feeding.answered_bind_ok _ (Feeding.answered_lift _)] at h
        obtain ⟨x, hdims, rfl, hrun, rfl⟩ := recordBatch_eq_ok hrecord
        have hnext := hscanned.step hbatch hdims hrun
        have hleft₁ : f₁.left < fuel := by
          rw [hbatch] at hcases
          cases hcases with
          | handedOut _ hpaths =>
            have := Feeder.left_eq_succ hfed.valid hpaths x.data
            omega
        refine ih hnext hleft₁ (Eq.trans ?_ h)
        rw [List.length_append, List.length_singleton, observed, List.flatMap_append,
          List.flatMap_singleton, List.foldl_append]
        rfl

/-- As many batches have run as there are whole batches of pictures. -/
theorem Scanned.count (h : Scanned m files f₀ inputs f) (hnone : f.nextPaths = none) :
    inputs.length = f₀.images.length / f₀.batchSize := by
  obtain ⟨events, hfed, hbatches⟩ := h.fed
  have hfew := (Feeder.nextPaths_eq_none.mp hnone).resolve_left (by simp [h.cacheFound])
  have hwithin := hfed.within
  have hposition : f.position = inputs.length * f₀.batchSize := by
    rw [hfed.position, hbatches, List.length_map, Nat.mul_comm]
  rw [hfed.images, hfed.batchSize, hposition] at hfew
  rw [hposition] at hwithin
  refine (Nat.div_eq_of_lt_le hwithin ?_).symm
  rwa [Nat.succ_mul]

/-- Each of them was made of the pictures in its turn. -/
theorem Scanned.batchOf (h : Scanned m files f₀ inputs f) {k : Nat} {x : Tensor}
    (hx : inputs[k]? = some x) :
    ∃ pictures, f₀.BatchOf k files pictures x.data := by
  obtain ⟨events, hfed, hbatches⟩ := h.fed
  refine hfed.made k files x.data ?_
  rw [hbatches, List.getElem?_map, hx]
  rfl

/-- **All inputs together** observe the results of all nodes, and nothing else. -/
theorem observed_results {b : Blueprint} {weights : WeightBuffer}
    (hm : Model.compile b weights = .ok m)
    (hinputs : 0 < inputs.length) (hruns : ∀ x ∈ inputs, ∃ outputs, (m.run x).outputs = .ok outputs)
    (node : Node)
    (t : TensorId) : (∃ o ∈ observed m inputs, o.node = node ∧ o.id = t) ↔
      (node, t) ∈ m.graph.results := by
  constructor
  · rintro ⟨o, ho, hsame⟩
    obtain ⟨x, hx, ho⟩ := List.mem_flatMap.mp ho
    obtain ⟨outputs, hrun⟩ := hruns x hx
    exact (Model.observations_of_run hm hrun).mp ⟨o, ho, hsame⟩
  · -- the first input shows them all
    intro hresult
    obtain ⟨x, hx⟩ := List.exists_mem_of_length_pos hinputs
    obtain ⟨outputs, hrun⟩ := hruns x hx
    obtain ⟨o, ho, hsame⟩ := (Model.observations_of_run hm hrun).mpr hresult
    exact ⟨o, List.mem_flatMap.mpr ⟨x, hx, ho⟩, hsame⟩

/-! ## The whole run -/

theorem quiet_runBatches (m : Model) (fuel : Nat) :
    ∀ batches ranges, (runBatches m fuel batches ranges).Quiet := by
  induction fuel with
  | zero =>
    intro batches ranges
    exact Feeding.quiet_pure _
  | succ fuel ih =>
    intro batches ranges
    refine (Feeder.quiet_nextBatch [inputName]).bind fun batch => ?_
    cases batch with
    | none => exact Feeding.quiet_pure _
    | some batch => exact (Feeding.quiet_lift (FileAction.quiet_lift _)).bind fun _ => ih _ _

/-- **A measurement changes no file when it fails**: it writes at its very end. -/
theorem measure_cautious (m : Model) : (measure m).Cautious := by
  refine Feeding.quiet_get.bind_cautious fun f => ?_
  refine (Feeding.quiet_lift (FileAction.quiet_lift _)).bind_cautious fun _ => ?_
  refine (quiet_runBatches m _ 0 .empty).bind_cautious fun result => ?_
  refine (Feeding.quiet_lift (FileAction.quiet_lift _)).bind_cautious fun _ => ?_
  exact (Feeder.writeCache_cautious _).bind_pure _

/-- A check that holds, and nothing else, lets a step go on. -/
theorem check_runOn_eq_ok {condition : Bool} {text : String} {s s' : Store} {u : Unit}
    (h : (Feeding.lift (FileAction.check condition text)).runOn f s = ((.ok u, f'), s')) :
    condition = true ∧ f = f' ∧ s = s' := by
  have hquiet : (Feeding.lift (FileAction.check condition text)).Quiet :=
    Feeding.quiet_lift (FileAction.quiet_lift _)
  rw [hquiet.runOn_eq, Feeding.answered_lift, FileAction.answered_check] at h
  obtain ⟨hanswer, rfl⟩ := Prod.mk.inj h
  obtain ⟨hcheck, rfl⟩ := Prod.mk.inj hanswer
  exact ⟨Outcome.ensure_eq_ok.mp hcheck, rfl, rfl⟩

/-- What a measurement that succeeds **consists of**. -/
theorem measure_eq_ok {s s' : Store} {report : CalibrationReport}
    (h : (measure m).runOn f s = ((.ok report, f'), s')) :
    ∃ total ranges f₁, m.blueprint.input.batch = f.batchSize ∧
      (runBatches m (f.images.length + 1) 0 .empty).answered s.files f = (.ok (total, ranges), f₁) ∧
      0 < total ∧
      s'.read f₁.cachePath = .ok ranges.table.toUTF8 ∧
      report = { reusedCache := false, batches := total, tensors := ranges.size,
                 cacheBytes := ranges.table.toUTF8.size } := by
  rw [measure, Feeding.runOn_bind_ok _ Feeding.runOn_get] at h
  obtain ⟨_, f₁, s₁, hcheck, h⟩ := Feeding.runOn_bind_eq_ok h
  obtain ⟨hbatch, rfl, rfl⟩ := check_runOn_eq_ok hcheck
  obtain ⟨⟨total, ranges⟩, f₂, s₂, hbatches, h⟩ := Feeding.runOn_bind_eq_ok h
  rw [(quiet_runBatches m _ 0 .empty).runOn_eq] at hbatches
  obtain ⟨hanswer, rfl⟩ := Prod.mk.inj hbatches
  obtain ⟨_, f₃, s₃, hcheck, h⟩ := Feeding.runOn_bind_eq_ok h
  obtain ⟨henough, rfl, rfl⟩ := check_runOn_eq_ok hcheck
  obtain ⟨_, f₄, s₄, hwrite, h⟩ := Feeding.runOn_bind_eq_ok h
  obtain ⟨rfl, hread⟩ := Feeder.writeCache_eq_ok hwrite
  cases h
  exact ⟨total, ranges, _, of_decide_eq_true hbatch, hanswer, of_decide_eq_true henough, hread, rfl⟩

end Calibration

/-- **A calibration changes no file when it fails.** -/
theorem calibrate_cautious (m : Model) : (calibrate m).Cautious := by
  refine Feeder.quiet_readCache.bind_cautious fun found => ?_
  cases found with
  | none => exact Calibration.measure_cautious m
  | some bytes => exact (Feeding.quiet_pure _).cautious

namespace Calibration

/-- What a calibration that **has measured** comes to. -/
structure Measured (m : Model) (f : Feeder) (s : Store) (report : CalibrationReport)
    (s' : Store) : Prop where
  fresh : report.reusedCache = false
  batch : m.blueprint.input.batch = f.batchSize
  enough : f.batchSize ≤ f.images.length
  batches : report.batches = f.images.length / f.batchSize
  tensors : report.tensors = m.graph.measured.length
  /-- the lines of the table are in the order of the numbers -/
  ascending : m.graph.measured.Pairwise (·.2 < ·.2)
  /-- all whole batches of pictures have run through the model, and the table says what was
  observed; its length is reported -/
  table : ∃ inputs lines, inputs.length = report.batches ∧
    (∀ k x, inputs[k]? = some x → x.dims = m.inputDims ∧
      (∃ pictures, f.BatchOf k s.files pictures x.data) ∧
      ∃ outputs, (m.run x).outputs = .ok outputs) ∧
    List.Forall₂ (Ranges.TableLine (observed m inputs)) m.graph.measured lines ∧
    s'.read f.cachePath = .ok ("DarknetEntropyCalibration\n" ++ String.join lines).toUTF8 ∧
    report.cacheBytes = ("DarknetEntropyCalibration\n" ++ String.join lines).toUTF8.size

/-- **What a measurement comes to**, from a feeder that stands in front of its first picture. -/
theorem measure_measured {b : Blueprint} {weights : WeightBuffer} {s s' : Store}
    {report : CalibrationReport}
    (hm : Model.compile b weights = .ok m) (hf : f.Valid) (hposition : f.position = 0)
    (hcache : f.cacheFound = false)
    (h : (measure m).runOn f s = ((.ok report, f'), s')) : Measured m f s report s' := by
  obtain ⟨total, ranges, f₁, hbatch, hbatches, hpositive, hread, rfl⟩ := measure_eq_ok h
  have hleft : f.left < f.images.length + 1 := by
    have hwhole := Nat.div_le_self (f.images.length - f.position) f.batchSize
    rw [Feeder.left]
    omega
  obtain ⟨inputs, hscanned, hnone, rfl, rfl⟩ :=
    scanned_runBatches _ (Scanned.start hf hposition hcache) hleft hbatches
  have hcount := hscanned.count hnone
  have hwellFormed := (Model.compile_reachable hm).wellFormed
  obtain ⟨hsize, lines, hlines, htable⟩ :=
    (Ranges.covers_observed (observed m inputs)).table hwellFormed
    (observed_results hm hpositive fun x hx => (hscanned.runs x hx).2)
  rw [hscanned.cachePath, htable] at hread
  refine ⟨rfl, hbatch, ?_, hcount, hsize, hwellFormed.measured_ascending, inputs, lines, rfl,
    fun k x hx => ?_, hlines, hread, by rw [htable]⟩
  · rw [hcount] at hpositive
    exact (Nat.div_pos_iff.mp hpositive).2
  · obtain ⟨hdims, hrun⟩ := hscanned.runs x (List.mem_of_getElem? hx)
    exact ⟨hdims, hscanned.batchOf hx, hrun⟩

/-- The report of a calibration that has taken over a table. -/
def reuse (cacheBytes : Nat) : CalibrationReport :=
  { reusedCache := true, batches := 0, tensors := 0, cacheBytes }

/-- **All or nothing.** -/
structure AllOrNothing (m : Model) (f : Feeder) (s : Store) : Prop where
  /-- a table that may be used and is there is taken over, and no picture is fed -/
  reused : f.useCache = true → ∀ bytes, s.read f.cachePath = .ok bytes →
    (calibrate m).runOn f s = ((.ok (reuse bytes.size), { f with cacheFound := true }), s)
  /-- otherwise a success is a measurement; the next calibration that may use the table
  takes it over -/
  measured : (f.useCache = true → ∀ bytes, s.read f.cachePath ≠ .ok bytes) → ∀ report f' s',
    (calibrate m).runOn f s = ((.ok report, f'), s') → Measured m f s report s' ∧
      ∀ (m₂ : Model) (f₂ : Feeder), f₂.useCache = true → f₂.cachePath = f.cachePath →
        (calibrate m₂).runOn f₂ s' =
          ((.ok (reuse report.cacheBytes), { f₂ with cacheFound := true }), s')
  /-- a failure changes no file -/
  failed : ∀ e f' s', (calibrate m).runOn f s = ((.error e, f'), s') → s' = s

end Calibration

open Calibration

/-- **A table that is there is taken over.** -/
theorem calibrate_found {f : Feeder} {s : Store} {bytes : ByteArray} (m : Model)
    (huse : f.useCache = true) (hread : s.read f.cachePath = .ok bytes) :
    (calibrate m).runOn f s = ((.ok (reuse bytes.size), { f with cacheFound := true }), s) := by
  have hfound : Feeder.readCache.runOn f s =
      ((.ok (some bytes), { f with cacheFound := true }), s) := by
    rw [Feeder.quiet_readCache.runOn_eq, Feeder.readCache_found huse hread]
  rw [calibrate, Feeding.runOn_bind_ok _ hfound]
  rfl

/-- Where no table may be used or can be read, a calibration that succeeds is a measurement. -/
theorem measure_of_calibrate {m : Model} {f f' : Feeder} {s s' : Store} {report : CalibrationReport}
    (hmissing : f.useCache = true → ∀ bytes, s.read f.cachePath ≠ .ok bytes)
    (h : (calibrate m).runOn f s = ((.ok report, f'), s')) :
    (measure m).runOn f s = ((.ok report, f'), s') := by
  rw [calibrate] at h
  obtain ⟨found, f₁, s₁, hread, hrest⟩ := Feeding.runOn_bind_eq_ok h
  rw [Feeder.quiet_readCache.runOn_eq] at hread
  obtain ⟨hanswer, rfl⟩ := Prod.mk.inj hread
  obtain ⟨rfl, rfl⟩ := Feeder.readCache_missing hmissing hanswer
  exact hrest

/-- **A calibration is all or nothing**, for every compiled model and every feeder that has just
been made, whatever the files hold. -/
theorem calibrate_allOrNothing {b : Blueprint} {weights : WeightBuffer} {m : Model} {files : Files}
    {settings : CalibrationSettings} {input : InputVolume} {buffer : Array Scalar} {f : Feeder}
    (hm : Model.compile b weights = .ok m)
    (hf : (Feeder.ofBuffer settings input buffer).answered files = .ok f)
    (s : Store) : AllOrNothing m f s := by
  obtain ⟨images, rfl, hpositive, hchannels, hsize, hcounted⟩ := Feeder.ofBuffer_eq_start hf
  refine ⟨fun huse bytes => calibrate_found m huse, fun hmissing report f' s' h => ?_,
    calibrate_cautious m _ s⟩
  have hmeasured : Measured m _ s report s' :=
    measure_measured hm (Feeder.valid_start hpositive hchannels hsize hcounted) rfl rfl
      (measure_of_calibrate hmissing h)
  refine ⟨hmeasured, fun m₂ f₂ huse hpath => ?_⟩
  obtain ⟨inputs, lines, -, -, -, hread, hbytes⟩ := hmeasured.table
  rw [hbytes]
  exact calibrate_found m₂ huse (hpath ▸ hread)

/-- A network for batches of two gray pixels that adds its input to itself. -/
def doublingBlueprint : Blueprint where
  name := "doubling"
  input := { width := 1, height := 1, channels := 1, batch := 2 }
  layers := [⟨0, .dropout⟩, ⟨1, .shortcut (-1) .linear⟩]
  heads := []
  classes := 0
  activatedHeads := false

/-- Its table for white pixels, which are ones. -/
def doublingTable : String :=
  "DarknetEntropyCalibration\ninput_0: 3c010204\nelementwise_1: 3c810204\n"

theorem calibrate_allOrNothing_threePixels : ∃ m, Model.compile doublingBlueprint #[] = .ok m ∧
    (Feeder.ofBuffer Feeder.pixelSettings ⟨1, 1, 1⟩ (Array.replicate 2 .zero)).answered
      Feeder.pixelStore.files =
      .ok Feeder.threePixels ∧
    AllOrNothing m Feeder.threePixels Feeder.pixelStore ∧
    ∃ f' s', (calibrate m).runOn Feeder.threePixels Feeder.pixelStore =
      ((.ok ⟨false, 1, 2, 68⟩, f'), s') ∧
      s'.read Feeder.threePixels.cachePath = .ok doublingTable.toUTF8 := by
  have hmade : (Feeder.ofBuffer Feeder.pixelSettings ⟨1, 1, 1⟩ (Array.replicate 2 .zero)).answered
      Feeder.pixelStore.files = .ok Feeder.threePixels :=
        Outcome.toOption_eq_some.mp (by decide +kernel)
  have hevaluated : (Model.compile doublingBlueprint #[]).toOption.map (fun m =>
      (((calibrate m).runOn Feeder.threePixels Feeder.pixelStore).1.1.toOption,
        (((calibrate m).runOn Feeder.threePixels Feeder.pixelStore).2.read
          Feeder.threePixels.cachePath).toOption)) =
      some (some ⟨false, 1, 2, 68⟩, some doublingTable.toUTF8) := by
    decide +kernel
  obtain ⟨m, hm, hboth⟩ := Option.map_eq_some_iff.mp hevaluated
  obtain ⟨hreport, htable⟩ := Prod.mk.inj hboth
  have hcompiled := Outcome.toOption_eq_some.mp hm
  have hok := Outcome.toOption_eq_some.mp hreport
  exact ⟨m, hcompiled, hmade, calibrate_allOrNothing hcompiled hmade Feeder.pixelStore, _, _,
    Prod.ext (Prod.ext hok rfl) rfl, Outcome.toOption_eq_some.mp htable⟩

end GridNet
