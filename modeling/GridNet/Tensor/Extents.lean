/-!
# Extents and row-major order

A list of extents spans a box of positions. Positions are numbered so that the last coordinate runs
fastest.

* `volume` — how many positions there are.
* `unravel`, `ravel` — from the number of a position to its coordinates and back.
-/

namespace GridNet

/-- The positions that a list of extents spans. -/
def volume : (dims : List Nat) → Nat
  | [] => 1
  | d :: rest => d * volume rest

/-- The coordinates of position `i`. -/
def unravel : (dims : List Nat) → (i : Nat) → List Nat
  | [], _ => []
  | _ :: rest, i => i / volume rest :: unravel rest (i % volume rest)

/-- The number of the position at the given coordinates, if they are inside. -/
def ravel : (dims coordinates : List Nat) → Option Nat
  | [], [] => some 0
  | d :: dims, k :: coordinates =>
    if k < d then (ravel dims coordinates).map (k * volume dims + ·) else none
  | _, _ => none

end GridNet
