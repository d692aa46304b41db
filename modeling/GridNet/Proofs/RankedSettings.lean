import GridNet.CommandLine.Overrides
import GridNet.Proofs.NumberTexts
import GridNet.Proofs.Outcomes
import GridNet.Proofs.TextCuts

/-!
# Flags over variables over files

A setting of calibration has up to three sources: a flag, a variable of the environment, and a
settings file. The first of them that says anything decides, and what the others say is then without
influence on the settings. The variables are read before the flags are looked at, though, so that a
size that cannot be read ends the call also where a flag gives another one.

* `Precedence` — the first of three sources that says anything.
* `Environment.AsksForList`, `Environment.AsksForSize`, `Environment.SizeAtFault` — what the two
  variables say.
* `CommandLine.CalibrateFlags.Settles` — what settings become.
* `CommandLine.CalibrateFlags.override_eq_ok_iff`,
  `CommandLine.CalibrateFlags.override_eq_error_iff` — the outcomes.
* `CommandLine.CalibrateFlags.override_ranked` — flags win over variables, apart from the
  faults of these.
-/

namespace GridNet

/-! ## Three sources -/

/-- The **first source that says anything** is the one that is followed: a flag, else the
environment, else a file. -/
inductive Precedence {α : Type} : (flag asked file chosen : Option α) → Prop
  | flag {x : α} {asked file : Option α} : Precedence (some x) asked file (some x)
  | environment {x : α} {file : Option α} : Precedence none (some x) file (some x)
  | file {chosen : Option α} : Precedence none none chosen chosen

theorem precedence_iff {α : Type} {flag asked file chosen : Option α} :
    Precedence flag asked file chosen ↔ chosen = flag.or (asked.or file) := by
  constructor
  · intro h
    cases h <;> rfl
  · rintro rfl
    rcases flag with _ | x
    · rcases asked with _ | y
      · exact .file
      · exact .environment
    · exact .flag

/-- Where no variable says anything, only a flag and a file are left. -/
theorem precedence_none_iff {α : Type} {flag file chosen : Option α} :
    Precedence flag none file chosen ↔ chosen = flag.or file := by
  rw [precedence_iff, Option.none_or]

/-! ## What variables say -/

namespace Environment

variable {e e' : Environment} {asked : Option String} {size : Option Nat} {x : Failure}

/-- The environments **differ in one variable at most**. -/
def AgreeBeside (e : Environment) (name : String) (e' : Environment) : Prop :=
  ∀ other, other ≠ name → e other = e' other

/-- The **list of pictures that is asked for**, without the blanks at its ends. What is altogether
blank asks for nothing. -/
inductive AsksForList (e : Environment) : Option String → Prop
  | unset (h : e imageListVariable = none) : AsksForList e none
  | blank {raw : String} (h : e imageListVariable = some raw) (hblank : Text.Blank raw.toList) :
      AsksForList e none
  | filled {raw : String} (h : e imageListVariable = some raw) (hfilled : ¬ Text.Blank raw.toList) :
      AsksForList e (some (Text.trim raw))

/-- The **size that is asked for**: a positive number in decimal digits, with blanks at
its ends or without. -/
inductive AsksForSize (e : Environment) : Option Nat → Prop
  | unset (h : e batchSizeVariable = none) : AsksForSize e none
  | given {raw : String} {n : Nat} (h : e batchSizeVariable = some raw)
      (hn : Text.IsDecimal (Text.trim raw) n) (hpos : 0 < n) : AsksForSize e (some n)

/-- The **fault of a size** that is none. -/
inductive SizeAtFault (e : Environment) : Failure → Prop
  | unreadable {raw : String} {fault : Text.IntegerFault} (h : e batchSizeVariable = some raw)
      (hfault : Text.readNat (Text.trim raw) = .error fault) :
      SizeAtFault e (.because [.note s!"{batchSizeVariable} is not an integer: '{raw}'",
        .integer fault])
  | zero {raw : String} (h : e batchSizeVariable = some raw)
      (hzero : Text.IsDecimal (Text.trim raw) 0) :
      SizeAtFault e (.note s!"{batchSizeVariable} must be positive")

/-- Whatever the variable holds, it asks for a list or for none. -/
theorem exists_asksForList (e : Environment) : ∃ asked, e.AsksForList asked := by
  cases h : e imageListVariable with
  | none => exact ⟨_, .unset h⟩
  | some raw =>
    by_cases hblank : Text.Blank raw.toList
    · exact ⟨_, .blank h hblank⟩
    · exact ⟨_, .filled h hblank⟩

theorem AsksForList.imageList?_eq (hasks : e.AsksForList asked) : e.imageList? = asked := by
  cases hasks with
  | unset h => simp [imageList?, h]
  | blank h hblank => simp [imageList?, h, Text.trim_eq_empty_iff, hblank]
  | filled h hfilled => simp [imageList?, h, Text.trim_eq_empty_iff, hfilled]

theorem imageList?_eq_iff : e.imageList? = asked ↔ e.AsksForList asked := by
  constructor
  · rintro rfl
    obtain ⟨asked, hasks⟩ := e.exists_asksForList
    rwa [hasks.imageList?_eq]
  · exact AsksForList.imageList?_eq

/-- Whatever the variable holds, it asks for a size or for none, or it is at fault. -/
theorem asksForSize_or_sizeAtFault (e : Environment) :
    (∃ size, e.AsksForSize size) ∨ ∃ x, e.SizeAtFault x := by
  cases h : e batchSizeVariable with
  | none => exact .inl ⟨_, .unset h⟩
  | some raw =>
    cases hread : Text.readNat (Text.trim raw) with
    | error fault => exact .inr ⟨_, .unreadable h hread⟩
    | ok n =>
      have hn := Text.readNat_eq_ok_iff.mp hread
      rcases Nat.eq_zero_or_pos n with rfl | hpos
      · exact .inr ⟨_, .zero h hn⟩
      · exact .inl ⟨_, .given h hn hpos⟩

theorem AsksForSize.batchSize?_eq (hasks : e.AsksForSize size) : e.batchSize? = .ok size := by
  cases hasks with
  | unset h => rw [batchSize?, h]
  | given h hn hpos =>
    rw [batchSize?, h]
    simp only [Text.readNat_eq_ok_iff.mpr hn]
    exact Outcome.bind_eq_ok.mpr ⟨_, rfl, by simp [ensure, hpos.ne', pure, Except.pure]⟩

theorem SizeAtFault.batchSize?_eq (hfault : e.SizeAtFault x) : e.batchSize? = .error x := by
  cases hfault with
  | unreadable h hread =>
    rw [batchSize?, h]
    simp only [hread]
    rfl
  | zero h hzero =>
    rw [batchSize?, h]
    simp only [Text.readNat_eq_ok_iff.mpr hzero]
    rfl

theorem batchSize?_eq_ok_iff : e.batchSize? = .ok size ↔ e.AsksForSize size := by
  refine ⟨fun hok => ?_, AsksForSize.batchSize?_eq⟩
  rcases e.asksForSize_or_sizeAtFault with ⟨asked, hasks⟩ | ⟨x, hfault⟩
  · rwa [← Except.ok.inj (hasks.batchSize?_eq.symm.trans hok)]
  · cases hfault.batchSize?_eq.symm.trans hok

theorem batchSize?_eq_error_iff : e.batchSize? = .error x ↔ e.SizeAtFault x := by
  refine ⟨fun herror => ?_, SizeAtFault.batchSize?_eq⟩
  rcases e.asksForSize_or_sizeAtFault with ⟨asked, hasks⟩ | ⟨y, hfault⟩
  · cases hasks.batchSize?_eq.symm.trans herror
  · rwa [← Except.error.inj (hfault.batchSize?_eq.symm.trans herror)]

/-- Nothing is wrong just with what asks for a size or for none. -/
theorem not_sizeAtFault_iff : (∀ x, ¬ e.SizeAtFault x) ↔ ∃ size, e.AsksForSize size := by
  constructor
  · intro hnone
    exact e.asksForSize_or_sizeAtFault.resolve_right fun ⟨x, hfault⟩ => hnone x hfault
  · rintro ⟨size, hasks⟩ x hfault
    cases hasks.batchSize?_eq.symm.trans hfault.batchSize?_eq

theorem not_sizeAtFault_of_unset (h : e batchSizeVariable = none) : ∀ x, ¬ e.SizeAtFault x :=
  not_sizeAtFault_iff.mpr ⟨none, .unset h⟩

theorem AgreeBeside.imageList?_eq (h : e.AgreeBeside batchSizeVariable e') :
    e.imageList? = e'.imageList? := by
  rw [imageList?, imageList?, h imageListVariable (by decide)]

theorem AgreeBeside.batchSize?_eq (h : e.AgreeBeside imageListVariable e') :
    e.batchSize? = e'.batchSize? := by
  rw [batchSize?, batchSize?, h batchSizeVariable (by decide)]

/-- An environment with two variables at most. -/
def ofValues (list size : Option String) : Environment := fun name =>
  if name = imageListVariable then list else if name = batchSizeVariable then size else none

theorem agreeBeside_list (list list' size : Option String) :
    (ofValues list size).AgreeBeside imageListVariable (ofValues list' size) := by
  intro other hother
  rw [ofValues, ofValues, if_neg hother, if_neg hother]

theorem agreeBeside_size (list size size' : Option String) :
    (ofValues list size).AgreeBeside batchSizeVariable (ofValues list size') := by
  intro other hother
  rw [ofValues, ofValues, if_neg hother, if_neg hother]

end Environment

namespace CommandLine

variable {e e' : Environment} {s after : Settings} {f : CalibrateFlags} {list : Option String}
  {asked given : Option Nat} {x : Failure}

/-! ## Outcomes -/

/-- **What settings become** under an environment and flags: each setting of the model and of
calibration is taken from the first source that says anything about it, and all else stays. -/
structure CalibrateFlags.Settles (f : CalibrateFlags) (e : Environment)
    (before after : Settings) : Prop where
  imageList : ∃ asked, e.AsksForList asked ∧
    Precedence f.images asked before.calibration.imageList after.calibration.imageList
  batchSize : ∃ asked, e.AsksForSize asked ∧
    Precedence f.model.batchSize asked (some before.calibration.batchSize)
    (some after.calibration.batchSize)
  /-- a size that is given is positive -/
  positive : ∀ n, f.model.batchSize = some n → 0 < n
  cachePath : Precedence f.cache none (some before.calibration.cachePath)
    (some after.calibration.cachePath)
  /-- a cache is used unless the file or a flag is against it -/
  useCache : after.calibration.useCache = true ↔ before.calibration.useCache = true ∧
    f.noCache = false
  scaleFactor : after.calibration.scaleFactor = before.calibration.scaleFactor
  offsets : after.calibration.offsets = before.calibration.offsets
  cfgPath : Precedence f.model.cfg none before.model.cfgPath after.model.cfgPath
  weightsPath : Precedence f.model.weights none before.model.weightsPath after.model.weightsPath
  /-- the size that is given is also that of the network's batch -/
  modelBatch : Precedence f.model.batchSize none before.model.batchSize after.model.batchSize
  detection : after.detection = before.detection
  telemetry : after.telemetry = before.telemetry

/-- The settings that three sources lead to, when both sizes have been read. -/
def CalibrateFlags.settled (f : CalibrateFlags) (list : Option String) (asked given : Option Nat)
    (s : Settings) :
    Settings :=
  { s with
    model := f.model.override s.model
    calibration := { s.calibration with
      imageList := f.images.or (list.or s.calibration.imageList)
      cachePath := f.cache.getD s.calibration.cachePath
      batchSize := given.getD (asked.getD s.calibration.batchSize)
      useCache := s.calibration.useCache && !f.noCache } }

theorem withEnvironment_eq (e : Environment) (c : CalibrationSettings) :
    withEnvironment e c = e.batchSize?.map fun asked =>
      { c with imageList := e.imageList?.or c.imageList, batchSize := asked.getD c.batchSize } := by
  rw [withEnvironment, CalibrationSettings.override]
  cases e.imageList? <;> rcases e.batchSize? with x | _ | n <;> rfl

namespace CalibrateFlags

/-- Both sizes are read before anything is settled, first that of the environment. -/
theorem override_eq (e : Environment) (f : CalibrateFlags) (s : Settings) :
    f.override e s = (do
      let asked ← e.batchSize?
      let given ← f.batchSize?
      return f.settled e.imageList? asked given s) := by
  rw [override, withEnvironment_eq]
  cases e.batchSize? <;> rfl

theorem batchSize?_eq_ok_iff :
    f.batchSize? = .ok given ↔ given = f.model.batchSize ∧ ∀ n,
    f.model.batchSize = some n → 0 < n := by
  cases h : f.model.batchSize with
  | none => simp [batchSize?, h, eq_comm]
  | some n =>
    rw [batchSize?, h]
    simp only [Outcome.bind_eq_ok, Outcome.ensure_eq_ok, Outcome.pure_eq_ok, decide_eq_true_eq,
      Option.some.injEq]
    constructor
    · rintro ⟨_, hpos, rfl⟩
      exact ⟨rfl, fun _ hm => hm ▸ hpos⟩
    · rintro ⟨rfl, hpos⟩
      exact ⟨(), hpos n rfl, rfl⟩

theorem batchSize?_eq_error_iff :
    f.batchSize? = .error x ↔ f.model.batchSize = some 0 ∧
      x = .note "--batch-size must be positive" := by
  cases h : f.model.batchSize with
  | none => simp [batchSize?, h]
  | some n =>
    rcases Nat.eq_zero_or_pos n with rfl | hpos
    · simp [batchSize?, h, ensure, eq_comm]
    · simp [batchSize?, h, ensure, hpos, hpos.ne']

theorem settles_settled (hlist : e.AsksForList list) (hsize : e.AsksForSize asked)
    (hpos : ∀ n, f.model.batchSize = some n → 0 < n) :
    f.Settles e s (f.settled list asked f.model.batchSize s) where
  imageList := ⟨list, hlist, precedence_iff.mpr rfl⟩
  batchSize := ⟨asked, hsize, precedence_iff.mpr (by rw [Option.or_some, Option.or_some]; rfl)⟩
  positive := hpos
  cachePath := precedence_none_iff.mpr (by rw [Option.or_some]; rfl)
  useCache := by simp [settled]
  scaleFactor := rfl
  offsets := rfl
  cfgPath := precedence_none_iff.mpr rfl
  weightsPath := precedence_none_iff.mpr rfl
  modelBatch := precedence_none_iff.mpr rfl
  detection := rfl
  telemetry := rfl

/-- There is only one way to settle all settings. -/
theorem Settles.eq_settled (h : f.Settles e s after) :
    ∃ asked, e.AsksForSize asked ∧ after = f.settled e.imageList? asked f.model.batchSize s := by
  obtain ⟨list, hlist, himages⟩ := h.imageList
  obtain ⟨asked, hsize, hbatch⟩ := h.batchSize
  have hcache := precedence_none_iff.mp h.cachePath
  rw [precedence_iff] at himages hbatch
  simp only [Option.or_some, Option.some.injEq] at hbatch hcache
  have huse : after.calibration.useCache = (s.calibration.useCache && !f.noCache) := by
    rw [Bool.eq_iff_iff, h.useCache]
    simp
  have hmodel : after.model = f.model.override s.model := by
    rw [ModelFlags.override, ← precedence_none_iff.mp h.cfgPath,
      ← precedence_none_iff.mp h.weightsPath, ← precedence_none_iff.mp h.modelBatch]
  refine ⟨asked, hsize, ?_⟩
  rw [hlist.imageList?_eq]
  rcases after with ⟨_, _, ⟨_, _, _, _, _, _⟩, _⟩
  simp only [settled, Settings.mk.injEq, CalibrationSettings.mk.injEq]
  exact ⟨hmodel, h.detection, ⟨himages, hcache, hbatch, h.scaleFactor, h.offsets,
    huse⟩, h.telemetry⟩

/-- **A call succeeds** just where the settings can be settled, and leads to these. -/
theorem override_eq_ok_iff : f.override e s = .ok after ↔ f.Settles e s after := by
  rw [override_eq]
  simp only [Outcome.bind_eq_ok, Outcome.pure_eq_ok, batchSize?_eq_ok_iff,
    Environment.batchSize?_eq_ok_iff]
  constructor
  · rintro ⟨asked, hsize, given, ⟨rfl, hpos⟩, rfl⟩
    exact settles_settled (Environment.imageList?_eq_iff.mp rfl) hsize hpos
  · intro h
    obtain ⟨asked, hsize, rfl⟩ := h.eq_settled
    exact ⟨asked, hsize, _, ⟨rfl, h.positive⟩, rfl⟩

/-- **A call fails** over the size in the environment, and else over the one that is given. -/
theorem override_eq_error_iff :
    f.override e s = .error x ↔
      e.SizeAtFault x ∨ (∃ size, e.AsksForSize size) ∧ f.model.batchSize = some 0 ∧
        x = .note "--batch-size must be positive" := by
  have hsettled : ∀ t : Settings, (pure t : Outcome Settings) ≠ .error x := fun _ => nofun
  rw [override_eq]
  simp only [Outcome.bind_eq_error, Environment.batchSize?_eq_ok_iff,
    Environment.batchSize?_eq_error_iff,
    batchSize?_eq_error_iff, hsettled, and_false, exists_false, or_false, exists_and_right]

/-! ## Overridden variables -/

/-- **A variable that names a list has no influence** where a flag names one. -/
theorem override_eq_of_images (hagree : e.AgreeBeside imageListVariable e')
    (hflag : f.images.isSome = true) :
    f.override e s = f.override e' s := by
  obtain ⟨path, hpath⟩ := Option.isSome_iff_exists.mp hflag
  have hsettled : ∀ asked given, f.settled e.imageList? asked given s =
      f.settled e'.imageList? asked given s := by
    intro asked given
    rw [settled, settled, hpath, Option.some_or, Option.some_or]
  simp only [override_eq, hagree.batchSize?_eq, hsettled]

/-- What is wrong with a variable is worded otherwise than what is wrong with a flag. -/
theorem not_sizeAtFault_flag : ¬ e.SizeAtFault (.note "--batch-size must be positive") := by
  generalize hx : Failure.note "--batch-size must be positive" = x
  intro hfault
  cases hfault with
  | unreadable => simp [Failure.note] at hx
  | zero => exact absurd hx (by decide)

theorem sizeAtFault_of_override_eq (h : f.override e s = f.override e' s)
    (hfault : e.SizeAtFault x) :
    e'.SizeAtFault x := by
  have hfails : f.override e' s = .error x := h ▸ override_eq_error_iff.mpr (.inl hfault)
  rcases override_eq_error_iff.mp hfails with hfault' | ⟨-, -, rfl⟩
  · exact hfault'
  · exact absurd hfault not_sizeAtFault_flag

/-- **A variable that holds a size has no influence** where a flag gives one, as long as nothing is
wrong with it or the same is. -/
theorem override_eq_iff_of_batchSize (hagree : e.AgreeBeside batchSizeVariable e')
    (hflag : f.model.batchSize.isSome = true) :
    f.override e s = f.override e' s ↔ ∀ x, e.SizeAtFault x ↔ e'.SizeAtFault x := by
  constructor
  · exact fun h x => ⟨sizeAtFault_of_override_eq h, sizeAtFault_of_override_eq h.symm⟩
  · intro hsame
    rcases e.asksForSize_or_sizeAtFault with ⟨size, hsize⟩ | ⟨x, hfault⟩
    · have hnone := Environment.not_sizeAtFault_iff.mpr ⟨size, hsize⟩
      obtain ⟨size', hsize'⟩ :=
        Environment.not_sizeAtFault_iff.mp fun x hfault => hnone x ((hsame x).mpr hfault)
      obtain ⟨n, hn⟩ := Option.isSome_iff_exists.mp hflag
      simp only [override_eq, hsize.batchSize?_eq, hsize'.batchSize?_eq, Outcome.ok_bind,
        hagree.imageList?_eq]
      cases hread : f.batchSize? with
      | error y => rfl
      | ok given =>
        -- the size that is given stands in front of both that are asked for
        obtain rfl : given = some n := (batchSize?_eq_ok_iff.mp hread).1.trans hn
        rfl
    · have hfault' := (hsame x).mp hfault
      rw [override_eq_error_iff.mpr (.inl hfault), override_eq_error_iff.mpr (.inl hfault')]

/-- **Flags over variables over files.** A call succeeds just where nothing is wrong with a size,
and then every setting comes from the first source that says anything. A variable in front of which
a flag stands has no influence on the outcome, be it a success or a failure, but for one thing: what
is wrong with a size in the environment is a failure also where a flag gives the size. -/
theorem override_ranked (f : CalibrateFlags) (s : Settings) :
    (∀ e after, f.override e s = .ok after ↔ f.Settles e s after) ∧
      (∀ e e' : Environment, e.AgreeBeside imageListVariable e' → f.images.isSome = true →
        f.override e s = f.override e' s) ∧
      ∀ e e' : Environment, e.AgreeBeside batchSizeVariable e' → f.model.batchSize.isSome = true →
        (f.override e s = f.override e' s ↔ ∀ x, e.SizeAtFault x ↔ e'.SizeAtFault x) :=
  ⟨fun _ _ => override_eq_ok_iff, fun _ _ => override_eq_of_images, fun _ _ =>
    override_eq_iff_of_batchSize⟩

/-- A list and a size. -/
def bothFlags : CalibrateFlags := { model := { batchSize := some 4 }, images := some "list.txt" }

/-- Another list beside a size that is none, and another size. With the latter the call succeeds. -/
theorem override_ranked_bothFlags :
    ((Environment.ofValues (some " other.txt ") (some "x")).AgreeBeside imageListVariable
        (Environment.ofValues none (some "x")) ∧
      bothFlags.images.isSome = true ∧
      bothFlags.override (Environment.ofValues (some " other.txt ") (some "x")) {} =
        bothFlags.override (Environment.ofValues none (some "x")) {}) ∧
    ((Environment.ofValues none (some " 2 ")).AgreeBeside batchSizeVariable
      (Environment.ofValues none none) ∧
      bothFlags.model.batchSize.isSome = true ∧
      bothFlags.override (Environment.ofValues none (some " 2 ")) {} =
        bothFlags.override (Environment.ofValues none none) {}) ∧
    ∃ after, bothFlags.override (Environment.ofValues none (some " 2 ")) {} = .ok after ∧
      after.calibration.imageList = some "list.txt" ∧ after.calibration.batchSize = 4 := by
  obtain ⟨hsettles, hlists, hsizes⟩ := override_ranked bothFlags {}
  have hlist := Environment.agreeBeside_list (some " other.txt ") none (some "x")
  have hsize := Environment.agreeBeside_size none (some " 2 ") none
  have htwo : (Environment.ofValues none (some " 2 ")).AsksForSize (some 2) :=
    .given rfl (Text.readNat_eq_ok_iff.mp rfl) (by decide)
  refine ⟨⟨hlist, rfl, hlists _ _ hlist rfl⟩,
    ⟨hsize, rfl, (hsizes _ _ hsize rfl).mpr fun x => ?_⟩, ?_⟩
  · exact iff_of_false (Environment.not_sizeAtFault_iff.mpr ⟨_, htwo⟩ x)
      (Environment.not_sizeAtFault_of_unset rfl x)
  · have hpos : ∀ n, bothFlags.model.batchSize = some n → 0 < n :=
      fun n hn => Option.some.inj hn ▸ by decide
    exact ⟨_, (hsettles _ _).mpr (settles_settled (.unset rfl) htwo hpos), rfl, rfl⟩

/-- **A size that cannot be read ends the call** although a flag gives another one. -/
theorem override_ne_unreadable :
    ¬ ∀ (e e' : Environment) (f : CalibrateFlags) (s : Settings),
    e.AgreeBeside batchSizeVariable e' →
        f.model.batchSize.isSome = true → f.override e s = f.override e' s := by
  intro hall
  have hagree := Environment.agreeBeside_size none (some "x") none
  have hfault : (Environment.ofValues none (some "x")).SizeAtFault _ := .unreadable rfl rfl
  have hsame := hall _ _ bothFlags {} hagree rfl
  exact Environment.not_sizeAtFault_of_unset rfl _ (sizeAtFault_of_override_eq hsame hfault)

end CalibrateFlags

end CommandLine

end GridNet
