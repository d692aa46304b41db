import GridNet.Scalar.Whole
import GridNet.Tensor.Basic
import GridNet.Word

/-!
# Rearranging and combining tensors

Operations that say, for each coordinate of the result, which element of an operand stands there.

* `Tensor.broadcast` — two operands, each repeated along the axes where it has extent 1.
* `Tensor.concat`, `Tensor.slice`, `Tensor.reshape`, `Tensor.transpose` — data moved,
  nothing computed.
* `Tensor.enlarge` — the nearest source element for each position of a larger or smaller grid.
-/

namespace GridNet

/-- The extent of a broadcast axis: equal extents stay, and an extent of 1 gives way to
the other. -/
def broadcastExtent (a b : Nat) : Option Nat :=
  if a = b then some a else if a = 1 then some b else if b = 1 then some a else none

/-- The extents of a broadcast. -/
def broadcastDims : (a b : List Nat) → Option (List Nat)
  | [], [] => some []
  | x :: xs, y :: ys => do
    let d ← broadcastExtent x y
    return d :: (← broadcastDims xs ys)
  | _, _ => none

/-- Extents agree everywhere but on one axis. -/
def agreeExcept (axis : Nat) (a b : List Nat) : Bool :=
  a.length = b.length &&
    (List.range a.length).all fun i => i = axis || a[i]? = b[i]?

/-- The extents of tensors laid end to end along an axis, if there is such an axis and they agree on
all others. -/
def concatExtents (axis : Nat) : List (List Nat) → Option (List Nat)
  | [] => none
  | first :: rest =>
    if axis < first.length && rest.all (agreeExcept axis · first) then
      some (first.set axis
        (((first :: rest).map fun dims => (dims[axis]?).getD 0).foldr (· + ·) 0))
    else none

/-- Every axis below `rank` occurs once, and nothing else does. -/
def isOrder (rank : Nat) : List Nat → (seen : List Nat) → Bool
  | [], _ => true
  | axis :: rest, seen => axis < rank && !seen.contains axis && isOrder rank rest (axis :: seen)

namespace Tensor

/-- Coordinates as an operand sees them: the only one there is on an axis of extent 1. -/
def clip (dims coordinates : List Nat) : List Nat :=
  List.zipWith (fun d k => if d = 1 then 0 else k) dims coordinates

/-- Two operands combined element by element over the extents of their broadcast. -/
def broadcast (f : Scalar → Scalar → Scalar) (dims : List Nat) (a b : Tensor) : Tensor :=
  tabulate dims fun k => f (a.get (clip a.dims k)) (b.get (clip b.dims k))

/-- The element at coordinate `k` of an axis along which tensors are laid end to end. -/
def pick (axis : Nat) (coordinates : List Nat) : (k : Nat) → List Tensor → Scalar
  | _, [] => .zero
  | k, t :: rest =>
    if k < t.extent axis then t.get (coordinates.set axis k)
    else pick axis coordinates (k - t.extent axis) rest

/-- Tensors laid end to end along an axis. -/
def concat (axis : Nat) (dims : List Nat) (parts : List Tensor) : Tensor :=
  tabulate dims fun k => pick axis k ((k[axis]?).getD 0) parts

/-- A window with a first position, an extent and a step for each axis. -/
def slice (start size stride : List Nat) (t : Tensor) : Tensor :=
  tabulate size fun k =>
    t.get (List.zipWith (· + ·) start (List.zipWith (· * ·) k stride))

/-- The same elements with other extents. -/
def reshape (dims : List Nat) (t : Tensor) : Tensor := ofFn dims t.item

/-- The axes in another order: axis `i` of the result is axis `order[i]` of the operand. -/
def transpose (order : List Nat) (t : Tensor) : Tensor :=
  tabulate (order.map t.extent) fun k =>
    t.get ((List.range order.length).map fun axis => (k[order.idxOf axis]?).getD 0)

/-- The source position of each position of an axis that is scaled by `scale`: the whole part of the
quotient, cut to the last position there is. -/
def sources (scale : Scalar) (extent size : Nat) : Array Nat :=
  Array.ofFn fun k : Fin size =>
    Nat.min (Scalar.toNatWithin (Word.modulus - 1) (Scalar.floor (Scalar.ofNat k / scale)))
      (extent - 1)

/-- A grid scaled by one factor for each axis, each position taking the nearest source element. -/
def enlarge (scales : List Scalar) (dims : List Nat) (t : Tensor) : Tensor :=
  let tables := List.zipWith (fun (scale, extent) size => sources scale extent size)
    (scales.zip t.dims) dims
  tabulate dims fun k => t.get (List.zipWith (fun table i => (table[i]?).getD 0) tables k)

end Tensor

end GridNet
