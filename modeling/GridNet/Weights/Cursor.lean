import GridNet.Weights.Buffer

/-!
# Reading weights in order

A cursor stands between the weights that layers have taken and those that are left. It only moves
forward, by exactly what was asked for, and stays where it is when too little is left.

* `WeightCursor.take` — the next values, or the defect that they are missing.
* `WeightCursor.finish` — the check that nothing is left.
-/

namespace GridNet

/-- A **place in the weights**. -/
structure WeightCursor where
  weights : WeightBuffer
  position : Nat
  /-- a cursor never stands behind the end -/
  position_le : position ≤ weights.size

namespace WeightCursor

/-- The cursor in front of all weights. -/
def start (weights : WeightBuffer) : WeightCursor := ⟨weights, 0, Nat.zero_le _⟩

/-- How many weights are left. -/
def remaining (c : WeightCursor) : Nat := c.weights.size - c.position

/-- Takes the next `count` values for the given block. -/
def take (c : WeightCursor) (count block : Nat) : Outcome (Array Scalar × WeightCursor) :=
  if h : c.position + count ≤ c.weights.size then
    .ok (c.weights.extract c.position (c.position + count), { c with
      position := c.position + count
      position_le := h })
  else .error (.ofDefect (.weightsExhausted block count c.position c.weights.size))

/-- Confirms that every value was taken. -/
def finish (c : WeightCursor) : Outcome Unit :=
  if c.position = c.weights.size then .ok ()
  else .error (.ofDefect (.weightsUnused c.position c.weights.size))

/-- What a cursor holds is what was taken and what is left. -/
theorem position_add_remaining (c : WeightCursor) :
    c.position + c.remaining = c.weights.size := Nat.add_sub_cancel' c.position_le

end WeightCursor

end GridNet
