import GridNet.Picture.Basic
import GridNet.Tensor.Basic

/-!
# Planes of a picture

A picture as a tensor: one plane for each channel, each sample shifted and scaled.

* `Normalization` — the shifts and the scale.
* `Picture.planes` — three planes of a color picture, or the one of a gray picture.
-/

namespace GridNet

/-- How a sample becomes a number: `(sample - offset) * scale`. -/
structure Normalization where
  scale : Scalar
  /-- for red, green and blue; a gray picture takes the first -/
  offsets : List Scalar
deriving DecidableEq

/-- Samples from zero to one. -/
def Normalization.unit : Normalization :=
  { scale := .ratio 1 255, offsets := [.zero, .zero, .zero] }

/-- A normalized sample. -/
def Normalization.apply (n : Normalization) (channel : Nat) (v : UInt16) : Scalar :=
  (Scalar.ofNat v.toNat - (n.offsets[channel]?).getD .zero) * n.scale

/-- The planes of a picture: channels, rows, columns. -/
def Picture.planes (n : Normalization) (p : Picture) : Tensor :=
  let area := p.size.height * p.size.width
  .ofFn [p.mode.channels, p.size.height, p.size.width] fun i =>
    n.apply (i / area) (p.sample (i % area % p.size.width) (i % area / p.size.width) (i / area))

end GridNet
