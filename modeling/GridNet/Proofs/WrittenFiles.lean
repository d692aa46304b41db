import GridNet.Proofs.FileReplies

/-!
# What has been written is read again

A file is written at a place to which the path leads through directories only. These are
directories of the store behind the writing too, since the file takes the place of no
directory: the path leads to the file.

* `Store.write_eq_ok` — what a writing that succeeds consists of.
* `Store.KeepsDirectories` — a store in which all paths through directories lead to where they did.
* `Store.read_of_write` — what has been written is read again.
* `Store.look_of_read` — what is read is there.
-/

namespace GridNet

namespace Store

variable {s s' : Store} {path : String} {bytes : ByteArray} {place next : List String}
  {part : String}

/-! ## Entries -/

theorem entry?_put_self {e : StoreEntry} (hplace : place ≠ []) :
    entry? (s.put place e) place = some e := by
  simp [put, entry?, hplace]

theorem entry?_put_of_ne {e : StoreEntry} {other : List String} (h : other ≠ place) :
    entry? (s.put place e) other = s.entry? other := by
  by_cases hroot : other = []
  · simp [hroot, entry?]
  · have hother : (s.put place e).entries.find? (·.1 = other) = s.entries.find? (·.1 = other) := by
      simp only [put]
      rw [List.find?_cons_of_neg (by simpa using Ne.symm h), List.find?_filter]
      congr 1
      funext entry
      by_cases heq : entry.1 = other
      · simp [heq, h]
      · simp [heq]
    simp [hroot, entry?, hother]

/-- What the entry at a place has to be for a step to start there. -/
theorem enter_eq_ok {u : Unit} : s.enter place = .ok u ↔ s.entry? place = some .directory := by
  rw [enter]
  split <;> simp_all

/-! ## Paths through directories -/

/-- All directories of the first store are **directories of the second** one. -/
def KeepsDirectories (s s' : Store) : Prop :=
  ∀ place, s.entry? place = some .directory → s'.entry? place = some .directory

theorem step_eq_ok : s.step place part = .ok next ↔ s.entry? place = some .directory ∧
    (if part = "." then next = place else if part = ".." then next = place.dropLast
      else part.utf8ByteSize ≤ nameLimit ∧ next = place ++ [part]) := by
  simp only [step, Outcome.bind_eq_ok, enter_eq_ok, exists_and_left, exists_const]
  refine and_congr_right fun _ => ?_
  split
  · rw [Outcome.pure_eq_ok, eq_comm]
  · split
    · rw [Outcome.pure_eq_ok, eq_comm]
    · split
      · next hlong =>
          exact iff_of_false Outcome.throw_bind_ne_ok fun h => absurd hlong (Nat.not_lt.mpr h.1)
      · next hshort => rw [Outcome.pure_eq_ok, eq_comm, and_iff_right (Nat.le_of_not_lt hshort)]

theorem step_of_keeps (h : s.KeepsDirectories s') (hstep : s.step place part = .ok next) :
    s'.step place part = .ok next := by
  rw [step_eq_ok] at hstep ⊢
  exact ⟨h _ hstep.1, hstep.2⟩

theorem walk_of_keeps (h : s.KeepsDirectories s') (parts : List String) :
    ∀ place, s.walk place parts = .ok next → s'.walk place parts = .ok next := by
  induction parts with
  | nil =>
    intro place hwalk
    exact hwalk
  | cons part rest ih =>
    intro place hwalk
    obtain ⟨q, hstep, hrest⟩ := Outcome.bind_eq_ok.mp hwalk
    exact Outcome.bind_eq_ok.mpr ⟨q, step_of_keeps h hstep, ih q hrest⟩

/-- A last step. -/
theorem walk_concat (parts : List String) :
    ∀ place, s.walk place (parts ++ [part]) = .ok next ↔
      ∃ q, s.walk place parts = .ok q ∧ s.step q part = .ok next := by
  induction parts with
  | nil =>
    intro place
    simp [walk, Outcome.bind_eq_ok]
  | cons first rest ih =>
    intro place
    rw [List.cons_append, walk, Outcome.bind_eq_ok, walk]
    simp only [ih, Outcome.bind_eq_ok]
    constructor
    · rintro ⟨q, hfirst, r, hrest, hlast⟩
      exact ⟨r, ⟨q, hfirst, hrest⟩, hlast⟩
    · rintro ⟨r, ⟨q, hfirst, hrest⟩, hlast⟩
      exact ⟨q, hfirst, r, hrest, hlast⟩

/-! ## Writing and reading -/

/-- The directory that holds what a path names. -/
theorem locateName_eq_ok {holder : List String} {name : String}
    (h : s.locateName path = .ok (holder, some name)) :
    ∃ front, Path.steps path = front ++ [name] ∧ checkPath path = .ok () ∧
      s.walk (s.origin path) front = .ok holder ∧ name ≠ "." ∧ name ≠ ".." := by
  obtain ⟨_, hcheck, h⟩ := Outcome.bind_eq_ok.mp h
  split at h
  · cases Outcome.pure_eq_ok.mp h
  · next last hlast =>
    obtain ⟨q, hwalk, h⟩ := Outcome.bind_eq_ok.mp h
    obtain ⟨_, -, h⟩ := Outcome.bind_eq_ok.mp h
    obtain ⟨rfl, hname⟩ := Prod.mk.inj (Outcome.pure_eq_ok.mp h)
    split at hname
    · cases hname
    · next hdots =>
      obtain rfl := Option.some.inj hname
      obtain ⟨front, hsteps⟩ := List.getLast?_eq_some_iff.mp hlast
      rw [hsteps, List.dropLast_concat] at hwalk
      simp only [Bool.or_eq_true, decide_eq_true_eq, not_or] at hdots
      exact ⟨front, hsteps, hcheck, hwalk, hdots⟩

/-- **What a writing that succeeds consists of**: the path leads through directories to a name, at
which no directory stands. -/
theorem write_eq_ok (h : s.write path bytes = .ok s') :
    ∃ front name holder, Path.steps path = front ++ [name] ∧ checkPath path = .ok () ∧
      Path.hasTrailingSlash path = false ∧ s.walk (s.origin path) front = .ok holder ∧
      s.step holder name = .ok (holder ++ [name]) ∧ s.entry? (holder ++ [name]) ≠ some .directory ∧
      s' = s.put (holder ++ [name]) (.file bytes) := by
  obtain ⟨⟨holder, name⟩, hname, h⟩ := Outcome.bind_eq_ok.mp h
  cases name with
  | none => exact absurd h (by simp [throw, throwThe, MonadExceptOf.throw])
  | some name =>
    dsimp only at h
    split at h
    · exact absurd h Outcome.throw_bind_ne_ok
    next hslash =>
    obtain ⟨place, hstep, h⟩ := Outcome.bind_eq_ok.mp h
    split at h
    · exact absurd h Outcome.throw_bind_ne_ok
    next hentry =>
    obtain rfl := Outcome.pure_eq_ok.mp h
    obtain ⟨front, hsteps, hcheck, hwalk, hdot, hdots⟩ := locateName_eq_ok hname
    obtain rfl : place = holder ++ [name] := by
      have hplace := (step_eq_ok.mp hstep).2
      rw [if_neg hdot, if_neg hdots] at hplace
      exact hplace.2
    refine ⟨front, name, holder, hsteps, hcheck, by simpa using hslash, hwalk, hstep,
      fun hdirectory => ?_, rfl⟩
    rw [hdirectory] at hentry
    exact hentry rfl

/-- **What has been written is read again.** -/
theorem read_of_write (h : s.write path bytes = .ok s') : s'.read path = .ok bytes := by
  obtain ⟨front, name, holder, hsteps, hcheck, hslash, hwalk, hstep, hentry, rfl⟩ := write_eq_ok h
  have hkeeps : s.KeepsDirectories (s.put (holder ++ [name]) (.file bytes)) := by
    intro place hplace
    rw [entry?_put_of_ne]
    · exact hplace
    · rintro rfl
      exact hentry hplace
  have hfound : entry? (s.put (holder ++ [name]) (.file bytes)) (holder ++ [name]) =
      some (.file bytes) :=
    entry?_put_self (by simp)
  have hlocate : (s.put (holder ++ [name]) (.file bytes)).locate path = .ok (holder ++ [name]) := by
    refine Outcome.bind_eq_ok.mpr ⟨(), hcheck, Outcome.bind_eq_ok.mpr ⟨holder ++ [name], ?_, ?_⟩⟩
    · rw [hsteps]
      exact (walk_concat front _).mpr
        ⟨holder, walk_of_keeps hkeeps front _ hwalk, step_of_keeps hkeeps hstep⟩
    · rw [if_neg (by simp [hslash])]
      rfl
  have hfind : (s.put (holder ++ [name]) (.file bytes)).find path = .ok (.file bytes) :=
    Outcome.bind_eq_ok.mpr ⟨_, hlocate, by rw [hfound]; rfl⟩
  exact Outcome.bind_eq_ok.mpr ⟨_, hfind, rfl⟩

/-- What is read is there. -/
theorem look_of_read (h : s.read path = .ok bytes) : s.look path = some .file := by
  obtain ⟨entry, hfind, h⟩ := Outcome.bind_eq_ok.mp h
  cases entry with
  | directory => cases h
  | file => rw [look, hfind]

end Store

end GridNet
