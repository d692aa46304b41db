import GridNet.Scalar.Whole
import GridNet.Tensor.Basic
import GridNet.Tensor.Window

/-!
# Pooling

Each element of the result summarises one window of a channel. Positions in the padding do not
count, neither for the largest element nor for the mean.

* `Pooling.underWindow` — the elements under a window, row by row.
* `Tensor.pool` — their maximum or their mean.
-/

namespace GridNet

/-- What is kept of a window. -/
inductive PoolKind
  | max
  | average
deriving DecidableEq

/-- The name of what is kept. -/
def PoolKind.name : PoolKind → String
  | max => "max"
  | average => "average"

/-- A number for the rows and one for the columns. -/
structure Pair where
  rows : Nat
  columns : Nat
deriving DecidableEq

/-- A pair as a list. -/
def Pair.toList (p : Pair) : List Nat := [p.rows, p.columns]

/-- A **pooling window** over the last two axes. -/
structure PoolWindow where
  kind : PoolKind
  window : Pair
  stride : Pair
  /-- padding above and to the left -/
  before : Pair
  /-- padding below and to the right -/
  after : Pair
deriving DecidableEq

namespace Pooling

/-- The elements under the window at row `oy` and column `ox`, in row-major order. -/
def underWindow (p : PoolWindow) (height width : Nat) (element : (y x : Nat) → Scalar)
    (oy ox : Nat) : List Scalar :=
  (List.range p.window.rows).flatMap fun dy =>
    match positionUnder p.stride.rows p.before.rows height oy dy with
    | none => []
    | some y =>
      (List.range p.window.columns).filterMap fun dx =>
        (positionUnder p.stride.columns p.before.columns width ox dx).map fun x => element y x

/-- The largest element; minus infinity if there is none. -/
def largest (xs : List Scalar) : Scalar := xs.foldl Scalar.max (.infinity true)

/-- The mean, summed in order; zero if there is no element. -/
def mean (xs : List Scalar) : Scalar :=
  if xs.isEmpty then .zero else xs.foldl (· + ·) .zero / Scalar.ofNat xs.length

/-- The summary of a window. -/
def summarize : PoolKind → List Scalar → Scalar
  | .max, xs => largest xs
  | .average, xs => mean xs

end Pooling

/-- A batch of images pooled to the given number of rows and columns. -/
def Tensor.pool (p : PoolWindow) (outHeight outWidth : Nat) (t : Tensor) : Tensor :=
  let height := t.extent 2
  let width := t.extent 3
  Tensor.ofFn [t.extent 0, t.extent 1, outHeight, outWidth] fun i =>
    let plane := i / (outHeight * outWidth)
    let element := fun y x => t.item ((plane * height + y) * width + x)
    Pooling.summarize p.kind
      (Pooling.underWindow p height width element (i / outWidth % outHeight) (i % outWidth))

end GridNet
