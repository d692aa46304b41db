import GridNet.Graph.Evaluation
import GridNet.Text.Hex

/-!
# Ranges of activations

For each tensor of a network, the largest absolute value that it took in any run. The table is what
calibration stores: one scale for each tensor, so that 127 steps cover the range.

* `Ranges.record` — one more value of a tensor; results of a decode node are passed over.
* `Ranges.table` — the text of the table, ascending by the tensor's number.
-/

namespace GridNet

/-- The **range of one tensor**. -/
structure Range where
  tensor : TensorId
  /-- the name of the node's operation and the number of the tensor -/
  label : String
  /-- the largest absolute value so far -/
  peak : Scalar
deriving DecidableEq

/-- Widens the range of a tensor, among ranges that are ascending by tensor; one that is not there
yet is put in its place. -/
def widenRange (tensor : TensorId) (label : String) (peak : Scalar) : List Range → List Range
  | [] => [⟨tensor, label, Scalar.zero.max peak⟩]
  | r :: rest =>
    if tensor = r.tensor then { r with peak := r.peak.max peak } :: rest
    else if tensor < r.tensor then ⟨tensor, label, Scalar.zero.max peak⟩ :: r :: rest
    else r :: widenRange tensor label peak rest

/-- Widening touches no tensor but the given one. -/
theorem tensor_mem_widenRange {tensor : TensorId} {label : String} {peak : Scalar}
    {ranges : List Range} {r : Range} (h : r ∈ widenRange tensor label peak ranges) :
    r.tensor = tensor ∨ ∃ r' ∈ ranges, r'.tensor = r.tensor := by
  induction ranges with
  | nil => simp only [widenRange, List.mem_singleton] at h; exact .inl (h ▸ rfl)
  | cons head rest ih =>
    unfold widenRange at h
    split at h
    · rename_i same
      rcases List.mem_cons.1 h with rfl | h
      · exact .inl same.symm
      · exact .inr ⟨r, List.mem_cons_of_mem _ h, rfl⟩
    · split at h
      · rcases List.mem_cons.1 h with rfl | h
        · exact .inl rfl
        · exact .inr ⟨r, h, rfl⟩
      · rcases List.mem_cons.1 h with rfl | h
        · exact .inr ⟨r, List.mem_cons_self, rfl⟩
        · exact (ih h).imp_right fun ⟨r', mem, eq⟩ => ⟨r', List.mem_cons_of_mem _ mem, eq⟩

/-- Widening keeps the tensors in ascending order. -/
theorem pairwise_widenRange {tensor : TensorId} {label : String} {peak : Scalar}
    {ranges : List Range} (h : ranges.Pairwise (·.tensor < ·.tensor)) :
    (widenRange tensor label peak ranges).Pairwise (·.tensor < ·.tensor) := by
  induction ranges with
  | nil => simp [widenRange]
  | cons head rest ih =>
    have ⟨above, tail⟩ := List.pairwise_cons.1 h
    unfold widenRange
    split
    · exact List.pairwise_cons.2 ⟨above, tail⟩
    · split
      · rename_i below
        refine List.pairwise_cons.2 ⟨fun r mem => ?_, h⟩
        rcases List.mem_cons.1 mem with rfl | mem
        · exact below
        · exact Nat.lt_trans below (above r mem)
      · rename_i distinct notBelow
        refine List.pairwise_cons.2 ⟨fun r mem => ?_, ih tail⟩
        rcases tensor_mem_widenRange mem with eq | ⟨r', mem', eq⟩
        · exact eq ▸ Nat.lt_of_le_of_ne (Nat.le_of_not_lt notBelow) (Ne.symm distinct)
        · exact eq ▸ above r' mem'

/-- The **ranges of a network**, one for each tensor seen, ascending by tensor. -/
structure Ranges where
  entries : List Range := []
  ascending : entries.Pairwise (·.tensor < ·.tensor) := by simp
deriving DecidableEq

namespace Ranges

/-- Nothing has been seen. -/
def empty : Ranges := {}

/-- The number of tensors seen. -/
def size (r : Ranges) : Nat := r.entries.length

/-- The largest absolute value of some numbers, and at least zero; missing numbers do not count. -/
def peakOf (values : List Scalar) : Scalar :=
  values.foldl (fun peak v => peak.max v.abs) .zero

/-- The name of a tensor in the table. -/
def labelOf (node : Node) (t : TensorId) : String := s!"{node.operation.name}_{t}"

/-- The node decodes heads. -/
def isDecode (node : Node) : Bool :=
  match node.operation with
  | .decode _ => true
  | _ => false

/-- Takes one more value of a tensor into account. -/
def record (r : Ranges) (seen : Observation) : Ranges :=
  if isDecode seen.node then r
  else
    ⟨widenRange seen.id (labelOf seen.node seen.id) (peakOf seen.value.data.toList) r.entries,
      pairwise_widenRange r.ascending⟩

/-- The largest absolute value of the tensor with the given name. -/
def peak? (r : Ranges) (label : String) : Option Scalar :=
  (r.entries.find? (·.label = label)).map (·.peak)

/-- The step that covers a range with 127 steps. -/
def scaleOf (peak : Scalar) : Scalar := peak / .ofNat 127

/-- The first line of a table. -/
def tableTitle : String := "DarknetEntropyCalibration"

/-- The text of the table: a title, then each tensor's name and scale. -/
def table (r : Ranges) : String :=
  tableTitle ++ "\n" ++
    String.join (r.entries.map fun range =>
      range.label ++ ": " ++ Hex.ofNat 8 (scaleOf range.peak).bits.toNat ++ "\n")

end Ranges

end GridNet
