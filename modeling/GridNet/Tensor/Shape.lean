import GridNet.Failure
import GridNet.Tensor.Extents
import GridNet.Word

/-!
# Shapes

A `Shape` is a list of extents that a tensor can have: at least one of them, none of them zero, and
together fewer than `2 ^ 64` elements. A shape of four extents is a batch of images: images,
channels, rows, columns.

* `Shape.ofDims` — checks a list of extents; a failure names the first extent at fault.
* `Shape.nchw` — the four extents of a batch of images.
-/

namespace GridNet

/-- A list of sizes between brackets. -/
def dimsText (dims : List Nat) : String := "[" ++ ", ".intercalate (dims.map toString) ++ "]"

/-- The extents of a tensor. -/
structure Shape where
  /-- the extents, the outermost first -/
  dims : List Nat
  nonempty : dims ≠ []
  positive : ∀ d ∈ dims, 0 < d
  /-- the elements can be counted -/
  countable : volume dims < Word.modulus
deriving DecidableEq

namespace Shape

/-- The number of extents. -/
def rank (s : Shape) : Nat := s.dims.length

/-- The number of elements. -/
def elements (s : Shape) : Nat := volume s.dims

/-- Extents joined by crosses. -/
def text (s : Shape) : String := "x".intercalate (s.dims.map toString)

/-- What is wrong with extents from number `index` on, when those in front make `count` elements. -/
def faultFrom (dims : List Nat) : (index count : Nat) → List Nat → Option String
  | _, _, [] => none
  | index, count, d :: rest =>
    if d = 0 then
      some s!"dimension {index} must be greater than zero (got {dimsText dims})"
    else if Word.modulus ≤ count * d then
      some s!"tensor shape {dimsText dims} overflows at dimension {index}"
    else faultFrom dims (index + 1) (count * d) rest

/-- What is wrong with a list of extents. -/
def fault (dims : List Nat) : String :=
  if dims.isEmpty then "tensor shape must have at least one dimension"
  else (faultFrom dims 0 1 dims).getD ""

/-- The shape with the given extents. -/
def ofDims (dims : List Nat) : Outcome Shape :=
  if h : dims ≠ [] ∧ (∀ d ∈ dims, 0 < d) ∧ volume dims < Word.modulus then
    .ok ⟨dims, h.1, h.2.1, h.2.2⟩
  else .error (.note (fault dims))

/-- The extents of a batch of images. -/
structure Nchw where
  batch : Nat
  channels : Nat
  height : Nat
  width : Nat

/-- The four extents of a batch of images. -/
def nchw (s : Shape) : Outcome Nchw :=
  match s.dims with
  | [n, c, h, w] => .ok ⟨n, c, h, w⟩
  | other => .error (.note s!"expected an NCHW tensor (got {dimsText other})")

end Shape

end GridNet
