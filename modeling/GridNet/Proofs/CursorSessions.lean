import GridNet.Weights.Cursor
import Mathlib.Data.List.TakeDrop

/-!
# Cursors in use

One cursor is asked again and again, for a part of the weights or whether they are at their end, and
some of the calls fail. What it has handed out is the front of the weights all the time: it skips
nothing, it repeats nothing, and a call that fails might as well not have been made.

* `WeightCursor.take_of_le`, `WeightCursor.take_of_lt` — one part of the weights, handed
  out or refused.
* `CursorCall.answer`, `WeightCursor.serve` — calls as data, and the replies to calls one
  after the other.
* `WeightCursor.Passes` — the values between two places; `CursorCall.answer_passes`,
  `WeightCursor.serve_passes`: what one call passes, and what all calls together pass.
* `WeightCursor.sessions_read_on` — any calls, and one call more.
-/

namespace GridNet

namespace WeightCursor

variable {c c' c'' : WeightCursor} {count : Nat}

/-! ## Single calls -/

/-- As many weights as are left can be taken. -/
theorem take_of_le (h : count ≤ c.remaining) (block : Nat) :
    ∃ next : WeightCursor, next.weights = c.weights ∧ next.position = c.position + count ∧
      c.take count block = .ok (c.weights.extract c.position (c.position + count), next) := by
  have hend : c.position + count ≤ c.weights.size := by
    rw [← c.position_add_remaining]
    exact Nat.add_le_add_left h _
  exact ⟨{ c with position := c.position + count, position_le := hend }, rfl, rfl, dif_pos hend⟩

/-- More than that is refused. -/
theorem take_of_lt (h : c.remaining < count) (block : Nat) :
    c.take count block = .error
      (.ofDefect (.weightsExhausted block count c.position c.weights.size)) := by
  refine dif_neg fun hend => ?_
  rw [← c.position_add_remaining] at hend
  exact Nat.not_le.mpr h (Nat.le_of_add_le_add_left hend)

theorem finish_of_eq (h : c.position = c.weights.size) : c.finish = .ok () := if_pos h

theorem finish_of_ne (h : c.position ≠ c.weights.size) :
    c.finish = .error (.ofDefect (.weightsUnused c.position c.weights.size)) := if_neg h

/-! ## What is passed -/

/-- The cursor has **passed** some values: they stand between the place where it was and the place
where it is. -/
structure Passes (c : WeightCursor) (values : List Scalar) (c' : WeightCursor) : Prop where
  weights : c'.weights = c.weights
  le : c.position ≤ c'.position
  front : c.weights.toList.take c'.position = c.weights.toList.take c.position ++ values

theorem Passes.refl (c : WeightCursor) : c.Passes [] c :=
  ⟨rfl, Nat.le_refl _, (List.append_nil _).symm⟩

theorem Passes.trans {values values' : List Scalar} (h : c.Passes values c')
    (h' : c'.Passes values' c'') :
    c.Passes (values ++ values') c'' where
  weights := h'.weights.trans h.weights
  le := Nat.le_trans h.le h'.le
  front := by
    have hlater := h'.front
    rw [h.weights] at hlater
    rw [hlater, h.front, List.append_assoc]

/-- A cursor that moves by `count` passes the next values of this number. -/
theorem passes_next (hweights : c'.weights = c.weights)
    (hposition : c'.position = c.position + count) :
    c.Passes ((c.weights.toList.drop c.position).take count) c' where
  weights := hweights
  le := hposition ▸ Nat.le_add_right _ _
  front := by rw [hposition, List.take_add]

end WeightCursor

/-! ## Calls one after the other -/

/-- A **call of a cursor**. -/
inductive CursorCall
  /-- the next `count` values for a block, which are lent or copied -/
  | take (copied : Bool) (count block : Nat)
  | finish

namespace CursorCall

/-- The reply to a call, and the cursor that the call leaves. The end of the weights is confirmed
without any value. -/
def answer (c : WeightCursor) : CursorCall → Outcome (List Scalar) × WeightCursor
  | take _ count block =>
    match c.take count block with
    | .ok (values, next) => (.ok values.toList, next)
    | .error f => (.error f, c)
  | finish => (c.finish.map fun _ => [], c)

/-- The values that a reply hands out. -/
def handed : Outcome (List Scalar) → List Scalar
  | .ok values => values
  | .error _ => []

section

variable {c : WeightCursor} {count : Nat}

theorem answer_take_of_le (h : count ≤ c.remaining) (copied : Bool) (block : Nat) :
    ∃ next : WeightCursor, next.weights = c.weights ∧ next.position = c.position + count ∧
      (take copied count block).answer c =
        (.ok ((c.weights.toList.drop c.position).take count), next) := by
  obtain ⟨next, hweights, hposition, htake⟩ := WeightCursor.take_of_le h block
  refine ⟨next, hweights, hposition, ?_⟩
  simp only [answer, htake, Array.toList_extract, List.extract_eq_take_drop,
    Nat.add_sub_cancel_left]

theorem answer_take_of_lt (h : c.remaining < count) (copied : Bool) (block : Nat) :
    (take copied count block).answer c =
      (.error (.ofDefect (.weightsExhausted block count c.position c.weights.size)), c) := by
  simp only [answer, WeightCursor.take_of_lt h]

theorem answer_finish_of_eq (h : c.position = c.weights.size) : finish.answer c = (.ok [], c) := by
  rw [answer, WeightCursor.finish_of_eq h]
  rfl

theorem answer_finish_of_ne (h : c.position ≠ c.weights.size) :
    finish.answer c = (.error (.ofDefect (.weightsUnused c.position c.weights.size)), c) := by
  rw [answer, WeightCursor.finish_of_ne h]
  rfl

end

/-- **One call** passes what it hands out. -/
theorem answer_passes (c : WeightCursor) (call : CursorCall) :
    c.Passes (handed (call.answer c).1) (call.answer c).2 := by
  cases call with
  | take copied count block =>
    rcases Nat.lt_or_ge c.remaining count with hlt | hle
    · rw [answer_take_of_lt hlt]
      exact .refl c
    · obtain ⟨next, hweights, hposition, hanswer⟩ := answer_take_of_le hle copied block
      rw [hanswer]
      exact WeightCursor.passes_next hweights hposition
  | finish =>
    by_cases hend : c.position = c.weights.size
    · rw [answer_finish_of_eq hend]
      exact .refl c
    · rw [answer_finish_of_ne hend]
      exact .refl c

/-- A call that fails leaves the cursor where it is. -/
theorem answer_of_error {c : WeightCursor} {call : CursorCall} {f : Failure}
    (h : (call.answer c).1 = .error f) :
    call.answer c = (.error f, c) := by
  refine Prod.ext h ?_
  cases call with
  | take copied count block =>
    rcases Nat.lt_or_ge c.remaining count with hlt | hle
    · rw [answer_take_of_lt hlt]
    · -- enough weights are no failure
      obtain ⟨next, -, -, hanswer⟩ := answer_take_of_le hle copied block
      rw [hanswer] at h
      cases h
  | finish => rfl

end CursorCall

namespace WeightCursor

/-- The replies to some calls, and the cursor that is left behind them. -/
def serve (c : WeightCursor) : List CursorCall → List (Outcome (List Scalar)) × WeightCursor
  | [] => ([], c)
  | call :: rest =>
    let (reply, next) := call.answer c
    let (replies, last) := next.serve rest
    (reply :: replies, last)

/-- The cursor after a **session**: calls of one cursor, which stands in front of all
weights at first. -/
def after (weights : WeightBuffer) (calls : List CursorCall) : WeightCursor :=
  ((start weights).serve calls).2

/-- All values that a session has handed out, in order. -/
def handedOut (weights : WeightBuffer) (calls : List CursorCall) : List Scalar :=
  ((start weights).serve calls).1.flatMap CursorCall.handed

theorem serve_append (c : WeightCursor) (calls more : List CursorCall) :
    c.serve (calls ++ more) =
      ((c.serve calls).1 ++ ((c.serve calls).2.serve more).1,
        ((c.serve calls).2.serve more).2) := by
  induction calls generalizing c with
  | nil => rfl
  | cons call rest ih => simp only [List.cons_append, serve, ih]

/-- **All calls** together pass what they hand out, by induction over them. -/
theorem serve_passes (c : WeightCursor) (calls : List CursorCall) :
    c.Passes ((c.serve calls).1.flatMap CursorCall.handed) (c.serve calls).2 := by
  induction calls generalizing c with
  | nil => exact .refl c
  | cons call rest ih => exact (call.answer_passes c).trans (ih (call.answer c).2)

/-- **A call that fails** makes no difference to the calls behind it. -/
theorem serve_of_error {c : WeightCursor} {call : CursorCall} {f : Failure}
    (h : (call.answer c).1 = .error f)
    (more : List CursorCall) :
    c.serve (call :: more) = (.error f :: (c.serve more).1, (c.serve more).2) := by
  rw [serve, CursorCall.answer_of_error h]

/-- **Sessions read on.** After any calls, with any counts and however many of them have failed, the
cursor is still inside the weights, and all that has been handed out is what stands in front of it.
It never goes back. One call more hands out the next values, if there are enough, and says what is
missing otherwise; at the end, and only there, the weights are confirmed to be used up. Whatever
fails leaves the session as if it had not been asked. -/
theorem sessions_read_on (weights : WeightBuffer) (calls : List CursorCall) :
    let c := after weights calls
    c.weights = weights ∧ c.position ≤ weights.size ∧ c.position + c.remaining = weights.size ∧
      handedOut weights calls = weights.toList.take c.position ∧
      (∀ more, c.position ≤ (after weights (calls ++ more)).position) ∧
      (∀ copied count block,
        if count ≤ c.remaining then
          ∃ next : WeightCursor, next.weights = weights ∧ next.position = c.position + count ∧
            (CursorCall.take copied count block).answer c =
              (.ok ((weights.toList.drop c.position).take count), next)
        else
          (CursorCall.take copied count block).answer c =
            (.error (.ofDefect (.weightsExhausted block count c.position weights.size)), c)) ∧
      (if c.position = weights.size then CursorCall.finish.answer c = (.ok [], c)
        else ∃ f unused, CursorCall.finish.answer c = (.error f, c) ∧
          f = .ofDefect (.weightsUnused c.position weights.size) ∧
          c.position + unused = weights.size ∧
          f.message =
            s!"weights file has {unused} unused floats (consumed {c.position} of {weights.size})") ∧
      ∀ call f, (call.answer c).1 = .error f → ∀ more,
        after weights (calls ++ call :: more) = after weights (calls ++ more) ∧
          handedOut weights (calls ++ call :: more) = handedOut weights (calls ++ more) := by
  intro c
  have hpasses : (start weights).Passes (handedOut weights calls) c := serve_passes _ calls
  have hweights : c.weights = weights := hpasses.weights
  refine ⟨hweights, ?_, ?_, ?_, fun more => ?_, fun copied count block => ?_, ?_,
    fun call f hfails more => ?_⟩
  · exact hweights ▸ c.position_le
  · exact hweights ▸ c.position_add_remaining
  · exact hpasses.front.symm
  · rw [after, serve_append]
    exact (serve_passes c more).le
  · split
    · next hle =>
      obtain ⟨next, hnext, hposition, hanswer⟩ := CursorCall.answer_take_of_le hle copied block
      rw [hweights] at hnext hanswer
      exact ⟨next, hnext, hposition, hanswer⟩
    · next hlt => rw [CursorCall.answer_take_of_lt (Nat.not_le.mp hlt), hweights]
  · split
    · next hend => exact CursorCall.answer_finish_of_eq (hweights.symm ▸ hend)
    · next hend =>
      have hanswer := CursorCall.answer_finish_of_ne (c := c) (hweights.symm ▸ hend)
      rw [hweights] at hanswer
      refine ⟨_, c.remaining, hanswer, rfl, hweights ▸ c.position_add_remaining, ?_⟩
      rw [remaining, hweights]
      rfl
  · have hserved : ∀ more, (start weights).serve (calls ++ more) =
        (((start weights).serve calls).1 ++ (c.serve more).1, (c.serve more).2) :=
          serve_append _ calls
    simp only [after, handedOut, hserved, serve_of_error hfails, List.flatMap_append,
      List.flatMap_cons, CursorCall.handed, List.nil_append, and_self]

/-- Two of three weights, then two more, then the one that is left. -/
example (a b d : Scalar) :
    ((start #[a, b, d]).serve [.take false 2 1, .take false 2 4, .take true 1 4, .finish]).1 =
      [.ok [a, b], .error (.ofDefect (.weightsExhausted 4 2 2 3)), .ok [d], .ok []] := by rfl

end WeightCursor

end GridNet
