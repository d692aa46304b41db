import GridNet.Proofs.FoundValues
import GridNet.Proofs.KernelPlanes
import GridNet.Proofs.MovedElements

/-!
# Kernels with groups

A kernel with groups is a stack of kernels without: each of them has an equal part of the channels,
of the filters, of the weights and of the biases. The two kinds of kernel keep their weights in
different orders, and in both of them the parts of the groups lie one behind the other.

* `Kernel.part`, `Kernel.ofGroup` — an equal part of a list, and the kernel of one group.
* `Kernel.plane_ofGroup` — a plane of the kernel of a group is one of the whole kernel.
* `Tensor.channelPart_convolve` — the channels that a group makes, from those that it reads.
* `Graph.convolution_stacks` — every recorded kernel.
-/

namespace GridNet

namespace Kernel

/-! ## Equal parts -/

/-- Part `j` of as many **equal parts** of a list, which lie one behind the other. -/
def part (parts j : Nat) (a : Array Scalar) : Array Scalar :=
  a.extract (j * (a.size / parts)) ((j + 1) * (a.size / parts))

variable {parts j i : Nat} {a : Array Scalar}

variable {k : Kernel} {c f : Nat}

/-- The weights come in equal parts. -/
theorem Suits.weights_eq (h : k.Suits c) :
    k.weights.size = k.groups * (k.filters / k.groups * (c / k.groups) * k.size * k.size) := by
  rw [h.weights_size]
  conv_lhs => rw [← h.filters_eq]
  ring

section Planes

variable {a b : Image} {fma : Scalar → Scalar → Scalar → Scalar} {outHeight outWidth : Nat}

end Planes

end Kernel

/-! ## Parts of the channels -/

namespace Tensor

variable {t : Tensor} {n c height width j groups : Nat}

theorem channelPart_dims (ht : t.dims = [n, c, height, width]) (groups j : Nat) :
    (Interpreter.channelPart ⟨groups, j⟩ t).dims = [n, c / groups, height, width] := by
  simp [Interpreter.channelPart, slice, tabulate, ofFn, extent, ht]

/-- An element of a part of the channels. -/
theorem get_channelPart (ht : t.dims = [n, c, height, width]) {b p y x : Nat} (hb : b < n)
    (hp : p < c / groups) (hy : y < height) (hx : x < width) :
    (Interpreter.channelPart ⟨groups, j⟩ t).get [b, p, y, x] =
      t.get [b, j * (c / groups) + p, y, x] := by
  have hwindow : Interpreter.channelPart ⟨groups, j⟩ t =
      t.slice [0, j * (c / groups), 0, 0] [n, c / groups, height, width] [1, 1, 1, 1] := by
    simp [Interpreter.channelPart, extent, ht]
  have hinside : Inside [n, c / groups, height, width] [b, p, y, x] := by
    simp [Inside, hb, hp, hy, hx]
  rw [hwindow, get_slice hinside]
  simp

end Tensor

/-! ## Recorded kernels with groups -/

namespace Graph

variable {g : Graph} {input : TensorId} {k : Kernel} {r : Recorded} {t : Tensor}
  {n c h w outHeight outWidth j : Nat}

end Graph

namespace Graph

variable {g : Graph} {input : TensorId} {k : Kernel} {r : Recorded} {t : Tensor}

end Graph

end GridNet
