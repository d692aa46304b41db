import GridNet.Scalar.Basic
import GridNet.Tensor.Extents

/-!
# Tensors

A `Tensor` is a list of extents and as many scalars as these have positions, in row-major order: the
last coordinate runs fastest.

* `Tensor.ofFn`, `Tensor.tabulate` — a tensor from a function of the place, or of the coordinates.
* `Tensor.get` — the element at given coordinates; there is a zero outside.
-/

namespace GridNet

/-- A **tensor**. -/
structure Tensor where
  dims : List Nat
  /-- the elements, in row-major order -/
  data : Array Scalar
  size_eq : data.size = volume dims
deriving DecidableEq

namespace Tensor

/-- The tensor with `f i` at place `i`. -/
def ofFn (dims : List Nat) (f : Nat → Scalar) : Tensor :=
  ⟨dims, Array.ofFn fun i : Fin (volume dims) => f i, by simp⟩

/-- The tensor with `f k` at coordinates `k`. -/
def tabulate (dims : List Nat) (f : List Nat → Scalar) : Tensor :=
  ofFn dims fun i => f (unravel dims i)

/-- The tensor with the given elements, if their number is right. -/
def ofArray? (dims : List Nat) (data : Array Scalar) : Option Tensor :=
  if h : data.size = volume dims then some ⟨dims, data, h⟩ else none

/-- The tensor of zeros. -/
def zeros (dims : List Nat) : Tensor :=
  ⟨dims, Array.replicate (volume dims) .zero, Array.size_replicate⟩

/-- The element at place `i`, zero outside. -/
def item (t : Tensor) (i : Nat) : Scalar := (t.data[i]?).getD .zero

/-- The element at the given coordinates, zero outside. -/
def get (t : Tensor) (coordinates : List Nat) : Scalar :=
  match ravel t.dims coordinates with
  | some i => t.item i
  | none => .zero

/-- A function applied to each element. -/
def map (f : Scalar → Scalar) (t : Tensor) : Tensor :=
  ⟨t.dims, t.data.map f, by rw [Array.size_map, t.size_eq]⟩

/-- The number of images, rows, … along an axis; zero if there is no such axis. -/
def extent (t : Tensor) (axis : Nat) : Nat := (t.dims[axis]?).getD 0

end Tensor

end GridNet
