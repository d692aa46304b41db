import GridNet.Calibration.Feeder
import GridNet.Files.Store
import GridNet.Proofs.Outcomes

/-!
# Programs and the replies to their requests

What a program over files comes to is settled by the replies to its requests. As long as nothing
changes the files, equal requests have equal replies, and a program is then a function of them.

* `Files` — the replies of a file system that nothing changes; `Store.files` are those of a store.
* `FileProgram.answered`, `FileAction.answered`, `Feeding.answered` — what programs come to.
* `FileProgram.Quiet` — a program that only looks at files and reads them;
  `FileProgram.Quiet.run_eq` — what it comes to on a store.
-/

namespace GridNet

/-- The **replies of a file system** that nothing changes. -/
abbrev Files := (r : FileRequest) → r.Reply

/-- The replies of a store. -/
def Store.files (s : Store) : Files := fun r => (s.answer r).1

variable {α β : Type} {files : Files}

/-! ## Programs -/

namespace FileProgram

/-- What a program comes to when its requests have these replies. -/
def answered (files : Files) : FileProgram α → α
  | done value => value
  | ask request next => (next (files request)).answered files

@[simp] theorem answered_bind (p : FileProgram α) (f : α → FileProgram β) :
    (p >>= f).answered files = (f (p.answered files)).answered files := by
  show (p.andThen f).answered files = _
  induction p with
  | done value => rfl
  | ask request next ih => exact ih (files request)

/-- A program that **leaves all files as they are**: it only looks at them and reads them. -/
inductive Quiet : FileProgram α → Prop
  | done (value : α) : Quiet (.done value)
  | read {path : String} {next} (h : ∀ reply, Quiet (next reply)) : Quiet (.ask (.read path) next)
  | look {path : String} {next} (h : ∀ reply, Quiet (next reply)) : Quiet (.ask (.look path) next)

theorem Quiet.bind {p : FileProgram α} {f : α → FileProgram β} (hp : p.Quiet)
    (hf : ∀ x, (f x).Quiet) :
    (p >>= f).Quiet := by
  induction hp with
  | done value => exact hf value
  | read _ ih => exact .read ih
  | look _ ih => exact .look ih

/-- On a store, such a program comes to what the replies of the store say, and the store stays. -/
theorem Quiet.run_eq {p : FileProgram α} (hp : p.Quiet) (s : Store) :
    p.run s = (p.answered s.files, s) := by
  induction hp with
  | done value => rfl
  | read _ ih => exact ih _
  | look _ ih => exact ih _

end FileProgram

/-! ## Actions -/

namespace FileAction

/-- The outcome of an action when its requests have these replies. -/
def answered (files : Files) (a : FileAction α) : Outcome α := FileProgram.answered files a.run

@[simp] theorem answered_pure (x : α) : (pure x : FileAction α).answered files = .ok x := rfl

@[simp] theorem answered_bind (a : FileAction α) (f : α → FileAction β) :
    (a >>= f).answered files = a.answered files >>= fun x => (f x).answered files := by
  show FileProgram.answered files (a.run >>= ExceptT.bindCont f) = _
  rw [FileProgram.answered_bind]
  show FileProgram.answered files (ExceptT.bindCont f (a.answered files)) = _
  cases a.answered files with
  | ok x => rfl
  | error e => rfl

@[simp] theorem answered_lift (r : Outcome α) : (lift r).answered files = r := rfl

@[simp] theorem answered_check (condition : Bool) (text : String) :
    (check condition text).answered files = ensure condition text := rfl

@[simp] theorem answered_within (text : String) (a : FileAction α) :
    (within text a).answered files = inContext text (a.answered files) :=
  FileProgram.answered_bind a.run _

/-- An action that leaves all files as they are. -/
def Quiet (a : FileAction α) : Prop := FileProgram.Quiet a.run

theorem quiet_lift (r : Outcome α) : (lift r).Quiet := .done r

theorem Quiet.bind {a : FileAction α} {f : α → FileAction β} (ha : a.Quiet)
    (hf : ∀ x, (f x).Quiet) :
    (a >>= f).Quiet := by
  refine FileProgram.Quiet.bind ha fun r => ?_
  cases r with
  | ok x => exact hf x
  | error e => exact .done _

theorem Quiet.within {text : String} {a : FileAction α} (ha : a.Quiet) :
    (FileAction.within text a).Quiet :=
  FileProgram.Quiet.bind ha fun _ => .done _

theorem quiet_readBytes (path : String) : (readBytes path).Quiet := .read fun _ => .done _

theorem quiet_present (path : String) : (present path).Quiet := .look fun _ => .done _

/-- Opening a picture leaves all files. -/
theorem quiet_openPicture (path : String) : (openPicture path).Quiet := by
  refine (quiet_present path).bind (fun there => ?_) |>.within
  split
  · exact (quiet_lift _).bind fun _ => (quiet_readBytes path).bind fun _ => quiet_lift _
  · exact (quiet_readBytes path).bind fun _ => quiet_lift _

end FileAction

/-! ## Steps of a feeder -/

namespace Feeding

variable {f f' : Feeder} {e : Failure}

/-- The outcome of a step and the feeder behind it, when its requests have these replies. -/
def answered (files : Files) (a : Feeding α) (f : Feeder) : Outcome α × Feeder :=
  FileProgram.answered files (a.run.run f)

@[simp] theorem answered_get : (get : Feeding Feeder).answered files f = (.ok f, f) := rfl

@[simp] theorem answered_modify (g : Feeder → Feeder) :
    (modify g : Feeding PUnit).answered files f = (.ok (), g f) := rfl

@[simp] theorem answered_lift (a : FileAction α) :
    (Feeding.lift a).answered files f = (a.answered files, f) :=
  FileProgram.answered_bind a.run _

private theorem answered_bind (a : Feeding α) (g : α → Feeding β) :
    (a >>= g).answered files f =
      FileProgram.answered files
        ((ExceptT.bindCont g (a.answered files f).1).run (a.answered files f).2) :=
  FileProgram.answered_bind (a.run.run f) _

theorem answered_bind_ok {a : Feeding α} {x : α} (g : α → Feeding β)
    (h : a.answered files f = (.ok x, f')) :
    (a >>= g).answered files f = (g x).answered files f' := by
  rw [answered_bind, h]
  rfl

theorem answered_bind_error {a : Feeding α} (g : α → Feeding β)
    (h : a.answered files f = (.error e, f')) :
    (a >>= g).answered files f = (.error e, f') := by
  rw [answered_bind, h]
  rfl

/-- A step that leaves all files as they are. -/
def Quiet (a : Feeding α) : Prop := ∀ f, FileProgram.Quiet (a.run.run f)

theorem Quiet.bind {a : Feeding α} {g : α → Feeding β} (ha : a.Quiet) (hg : ∀ x, (g x).Quiet) :
    (a >>= g).Quiet := by
  intro f
  refine FileProgram.Quiet.bind (ha f) fun r => ?_
  obtain ⟨x | e, f'⟩ := r
  · exact .done _
  · exact hg _ f'

theorem quiet_pure (x : α) : (pure x : Feeding α).Quiet := fun _ => .done _

theorem quiet_get : (get : Feeding Feeder).Quiet := fun _ => .done _

theorem quiet_set (f' : Feeder) : (set f' : Feeding PUnit).Quiet := fun _ => .done _

theorem quiet_modify (g : Feeder → Feeder) : (modify g : Feeding PUnit).Quiet := fun _ => .done _

theorem quiet_lift {a : FileAction α} (ha : a.Quiet) : (Feeding.lift a).Quiet :=
  fun _ => FileProgram.Quiet.bind ha fun _ => .done _

/-- On a store, such a step comes to what the replies of the store say, and the store stays. -/
theorem Quiet.run_eq {a : Feeding α} (ha : a.Quiet) (f : Feeder) (s : Store) :
    FileProgram.run (a.run.run f) s = (a.answered s.files f, s) := (ha f).run_eq s

end Feeding

end GridNet
