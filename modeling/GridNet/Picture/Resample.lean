import GridNet.Picture.Basic
import GridNet.Word

/-!
# Resampling pictures

A picture is brought to another extent one axis at a time, the rows of the grid first. Every
position of an axis is a weighted sum of the old positions around its centre; the weights come from
a kernel, which is stretched when the axis shrinks, and are divided by their sum.

* `AxisTap`, `taps` — the old positions and weights of one new position.
* `Picture.resample` — both axes; a picture that has the extent already is left alone.
-/

namespace GridNet

/-- The **kernel** of a change of resolution. -/
inductive ResampleFilter
  | nearest
  | triangle
  | catmullRom
deriving DecidableEq

namespace ResampleFilter

/-- How far from its centre a kernel reaches. -/
def support : ResampleFilter → Nat
  | nearest => 0
  | triangle => 1
  | catmullRom => 2

/-- The cubic that passes through its control points, in two pieces. -/
def catmullRomAt (x : Scalar) : Scalar :=
  let a := x.abs
  let a2 := a * a
  let a3 := a * a2
  if a.lt .one then
    ((Scalar.ofNat 9 * a3 + Scalar.ofInt (-15) * a2) + .ofNat 6) / .ofNat 6
  else if a.lt .two then
    (((Scalar.ofInt (-3) * a3 + Scalar.ofNat 15 * a2) + Scalar.ofInt (-24) * a) + .ofNat 12) /
      .ofNat 6
  else .zero

/-- The value of a kernel at a distance from its centre. -/
def value : ResampleFilter → Scalar → Scalar
  | nearest, _ => .one
  | triangle, x => if x.abs.lt .one then .one - x.abs else .zero
  | catmullRom, x => catmullRomAt x

end ResampleFilter

namespace Resample

/-- What one new position takes from an axis: the first old position, and a weight for it and for
each of those behind it. -/
structure AxisTaps where
  first : Nat
  weights : List Scalar

/-- The largest position on an axis. -/
def positionLimit : Nat := Word.modulus / 4

/-- A scalar rounded down, as a position from 0 to `last`. -/
def floorWithin (last : Nat) (x : Scalar) : Nat :=
  Nat.min (Scalar.toNatWithin positionLimit x.floor) last

/-- A scalar rounded up, as a position from `low` to `high`. -/
def ceilWithin (low high : Nat) (x : Scalar) : Nat :=
  Nat.max low (Nat.min (Scalar.toNatWithin positionLimit x.ceil) high)

/-- The taps of new position `o`, when an axis goes from `n` positions to `m`. -/
def taps (filter : ResampleFilter) (n m o : Nat) : AxisTaps :=
  let ratio := Scalar.ratio n m
  let stretch := ratio.max .one
  let reach := Scalar.ofNat filter.support * stretch
  let centre := (Scalar.ofNat o + .half) * ratio
  let first := floorWithin (n - 1) (centre - reach)
  let stop := ceilWithin (first + 1) n (centre + reach)
  let middle := centre - .half
  let raw := (List.range (stop - first)).map fun i =>
    filter.value ((Scalar.ofNat (first + i) - middle) / stretch)
  let sum := raw.foldl (· + ·) .zero
  { first, weights := raw.map (· / sum) }

/-- The weighted sum of the elements that the taps name. -/
def weigh (t : AxisTaps) (element : Nat → Scalar) : Scalar :=
  ((List.range t.weights.length).zip t.weights).foldl
    (fun sum (i, weight) => sum + element (t.first + i) * weight) .zero

/-- The taps of all new positions. -/
def tapTable (filter : ResampleFilter) (n m : Nat) : Array AxisTaps :=
  Array.ofFn fun o : Fin m => taps filter n m o

/-- The taps of one new position. -/
def tapsAt (table : Array AxisTaps) (o : Nat) : AxisTaps := (table[o]?).getD ⟨0, []⟩

/-- A scalar as a sample: cut to the range of samples and rounded to the nearest. -/
def toSample (depth : Depth) (x : Scalar) : UInt16 :=
  (Scalar.toNatWithin depth.limit
    (Scalar.nearest (x.clamp .zero (.ofNat depth.limit)))).toUInt16

end Resample

namespace Picture

open Resample

/-- The rows of a picture resampled, which changes its height; samples are kept as scalars, in the
order of a picture of the new height. -/
def resampleRows (filter : ResampleFilter) (height : Nat) (p : Picture) : Array Scalar :=
  let channels := p.mode.channels
  let table := tapTable filter p.size.height height
  Array.ofFn fun i : Fin (height * p.size.width * channels) =>
    let pixel := i / channels
    weigh (tapsAt table (pixel / p.size.width)) fun y =>
      .ofNat (p.sample (pixel % p.size.width) y (i % channels)).toNat

/-- The picture with the given extent. -/
def resample (filter : ResampleFilter) (size : Size) (p : Picture) : Picture :=
  if size = p.size then p
  else
    let channels := p.mode.channels
    let rows := p.resampleRows filter size.height
    let table := tapTable filter p.size.width size.width
    ofFn p.mode p.depth size fun x y c =>
      toSample p.depth (weigh (tapsAt table x) fun k =>
        (rows[(y * p.size.width + k) * channels + c]?).getD .zero)

end Picture

end GridNet
