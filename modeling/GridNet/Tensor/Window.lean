/-!
# Windows on padded axes

A window of a given size slides over an axis in steps of `stride`; `padding` positions that hold
nothing stand in front of the axis, and some more behind it.

* `windowCount` — how many places there are for the window.
* `positionUnder` — the position that one cell of the window covers at one place, if there is one.
-/

namespace GridNet

/-- The places for a window on an axis of the given padded extent; none if it does not fit. -/
def windowCount (padded window stride : Nat) : Option Nat :=
  if window ≤ padded then some ((padded - window) / stride + 1) else none

/-- The position of an axis of the given extent under cell `k` of the window at place `o`. -/
def positionUnder (stride padding extent o k : Nat) : Option Nat :=
  let i := o * stride + k
  if padding ≤ i ∧ i - padding < extent then some (i - padding) else none

end GridNet
