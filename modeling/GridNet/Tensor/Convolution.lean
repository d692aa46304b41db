import GridNet.Tensor.Basic
import GridNet.Tensor.Window

/-!
# Convolution and deconvolution

Both work on one output plane at a time, which starts as the bias of its channel. A convolution goes
through its taps — an input channel of the group, a row and a column of the kernel — and lets each
tap add its share to every element of the plane. A deconvolution goes through the input elements and
lets each spread over the part of the plane under its kernel.

The arithmetic is one operation `fma input weight sum`, which is a parameter.

* `Kernel` — the geometry and the weights.
* `Kernel.convolvePlane`, `Kernel.deconvolvePlane` — one plane of the result.
* `Tensor.convolve` — all planes.
-/

namespace GridNet

/-- A square **kernel** with the geometry in which it is applied. -/
structure Kernel where
  /-- the kernel spreads input elements instead of gathering them -/
  transposed : Bool
  /-- output channels -/
  filters : Nat
  /-- rows and columns of the kernel -/
  size : Nat
  stride : Nat
  padding : Nat
  /-- groups of channels that do not see each other -/
  groups : Nat
  /-- row-major: filters, channels of a group, rows, columns; transposed: channels, filters of a
  group, rows, columns -/
  weights : Array Scalar
  /-- one start value for each filter -/
  bias : Option (Array Scalar)
deriving DecidableEq

namespace Kernel

/-- The extent behind a convolution. -/
def gatheredExtent (k : Kernel) (extent : Nat) : Option Nat :=
  windowCount (extent + 2 * k.padding) k.size k.stride

/-- The weight at a place. -/
def weight (k : Kernel) (i : Nat) : Scalar := (k.weights[i]?).getD .zero

/-- The start value of a filter's plane. -/
def start (k : Kernel) (filter : Nat) : Scalar :=
  match k.bias with
  | none => .zero
  | some bias => (bias[filter]?).getD .zero

/-- One image of a batch, as far as a kernel sees it. -/
structure Image where
  channels : Nat
  height : Nat
  width : Nat
  element : (c y x : Nat) → Scalar

/-- The rows and columns of a kernel, in row-major order. -/
def cells (k : Kernel) : List (Nat × Nat) :=
  (List.range k.size).flatMap fun ky => (List.range k.size).map fun kx => (ky, kx)

/-- The taps of a convolution: channels of the group, and for each the cells of the kernel. -/
def taps (k : Kernel) (groupChannels : Nat) : List (Nat × Nat × Nat) :=
  (List.range groupChannels).flatMap fun i => k.cells.map fun (ky, kx) => (i, ky, kx)

/-- The share of one tap added to every element of a plane. -/
def addTap (k : Kernel) (fma : Scalar → Scalar → Scalar → Scalar) (image : Image) (outWidth : Nat)
    (channel ky kx : Nat) (weight : Scalar) (plane : Array Scalar) : Array Scalar :=
  plane.mapIdx fun p sum =>
    match positionUnder k.stride k.padding image.height (p / outWidth) ky with
    | none => sum
    | some y =>
      match positionUnder k.stride k.padding image.width (p % outWidth) kx with
      | none => sum
      | some x => fma (image.element channel y x) weight sum

/-- The plane of one filter of a convolution. -/
def convolvePlane (k : Kernel) (fma : Scalar → Scalar → Scalar → Scalar) (image : Image)
    (outHeight outWidth filter : Nat) : Array Scalar :=
  let groupChannels := image.channels / k.groups
  let group := filter / (k.filters / k.groups)
  (k.taps groupChannels).foldl
    (fun plane (i, ky, kx) =>
      k.addTap fma image outWidth (group * groupChannels + i) ky kx
        (k.weight (((filter * groupChannels + i) * k.size + ky) * k.size + kx)) plane)
    (Array.replicate (outHeight * outWidth) (k.start filter))

/-- The row or column of the result that an input position reaches through a cell of the kernel. -/
def reached (k : Kernel) (outExtent i cell : Nat) : Option Nat :=
  positionUnder k.stride k.padding outExtent i cell

/-- One input element spread over the plane of one filter; `offset` is where its weights start. -/
def spread (k : Kernel) (fma : Scalar → Scalar → Scalar → Scalar) (outHeight outWidth : Nat)
    (y x : Nat) (value : Scalar) (offset : Nat) (plane : Array Scalar) : Array Scalar :=
  k.cells.foldl
    (fun plane (ky, kx) =>
      match k.reached outHeight y ky with
      | none => plane
      | some oy =>
        match k.reached outWidth x kx with
        | none => plane
        | some ox =>
          plane.modify (oy * outWidth + ox)
            (fma value (k.weight (offset + ky * k.size + kx))))
    plane

/-- The positions of the input elements that a filter of a deconvolution sees. -/
def elements (groupChannels height width : Nat) : List (Nat × Nat × Nat) :=
  (List.range groupChannels).flatMap fun i =>
    (List.range height).flatMap fun y => (List.range width).map fun x => (i, y, x)

/-- The plane of one filter of a deconvolution. -/
def deconvolvePlane (k : Kernel) (fma : Scalar → Scalar → Scalar → Scalar) (image : Image)
    (outHeight outWidth filter : Nat) : Array Scalar :=
  let groupChannels := image.channels / k.groups
  let groupFilters := k.filters / k.groups
  let group := filter / groupFilters
  (elements groupChannels image.height image.width).foldl
    (fun plane (i, y, x) =>
      let channel := group * groupChannels + i
      k.spread fma outHeight outWidth y x (image.element channel y x)
        ((channel * groupFilters + filter % groupFilters) * k.size * k.size) plane)
    (Array.replicate (outHeight * outWidth) (k.start filter))

/-- The plane of one filter. -/
def plane (k : Kernel) (fma : Scalar → Scalar → Scalar → Scalar) (image : Image)
    (outHeight outWidth filter : Nat) : Array Scalar :=
  if k.transposed then k.deconvolvePlane fma image outHeight outWidth filter
  else k.convolvePlane fma image outHeight outWidth filter

/-- Every channel, weight and start value that the planes of all filters read is there, for images
of the given number of channels. -/
def fits (k : Kernel) (channels : Nat) : Bool :=
  let groupChannels := channels / k.groups
  let groupFilters := k.filters / k.groups
  k.groups ≠ 0 && groupFilters ≠ 0 &&
    (List.range k.filters).all fun filter =>
      k.bias.all (filter < ·.size) &&
        (List.range groupChannels).all fun i =>
          let channel := filter / groupFilters * groupChannels + i
          let first := if k.transposed then channel * groupFilters + filter % groupFilters
            else filter * groupChannels + i
          channel < channels &&
            k.cells.all fun (ky, kx) => (first * k.size + ky) * k.size + kx < k.weights.size

end Kernel

namespace Tensor

/-- Image number `b` of a batch. -/
def image (t : Tensor) (b : Nat) : Kernel.Image :=
  let channels := t.extent 1
  let height := t.extent 2
  let width := t.extent 3
  { channels, height, width
    element := fun c y x => t.item (((b * channels + c) * height + y) * width + x) }

/-- A batch of images under a kernel, for the given extent of the result. -/
def convolve (fma : Scalar → Scalar → Scalar → Scalar) (k : Kernel) (outHeight outWidth : Nat)
    (t : Tensor) : Tensor :=
  let batch := t.extent 0
  let planes := Array.ofFn fun job : Fin (batch * k.filters) =>
    k.plane fma (t.image (job / k.filters)) outHeight outWidth (job % k.filters)
  Tensor.ofFn [batch, k.filters, outHeight, outWidth] fun i =>
    (((planes[i / (outHeight * outWidth)]?).getD #[])[i % (outHeight * outWidth)]?).getD .zero

end Tensor

end GridNet
