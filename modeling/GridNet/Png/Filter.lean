import GridNet.Png.Chunk

/-!
# Row filters

Each row of a picture file stands behind a number that names its filter: what was subtracted from
each byte. The byte to the left is the one at the same place in the pixel before.

* `RowFilter.restore`, `RowFilter.apply` — a row without its filter, and a row with one.
-/

namespace GridNet.Png

/-- A **filter**, by what it subtracts. -/
inductive RowFilter
  /-- nothing -/
  | plain
  /-- the byte to the left -/
  | left
  /-- the byte above -/
  | above
  /-- the mean of these two, rounded down -/
  | mean
  /-- the one of these two and of the byte to the left above that is nearest to a linear estimate -/
  | nearest
deriving DecidableEq

namespace RowFilter

/-- The number in front of a row. -/
def number : RowFilter → UInt8
  | plain => 0
  | left => 1
  | above => 2
  | mean => 3
  | nearest => 4

/-- The filter with a number. -/
def ofNumber? (n : UInt8) : Option RowFilter :=
  [plain, left, above, mean, nearest].find? (number · = n)

/-- The neighbour that is nearest to `a + b - c`, in this order. -/
def nearestNeighbour (a b c : Nat) : Nat :=
  let estimate : Int := a + b - c
  let distance := fun (n : Nat) => (estimate - n).natAbs
  if distance a ≤ distance b ∧ distance a ≤ distance c then a
  else if distance b ≤ distance c then b
  else c

/-- What a filter subtracts, from the bytes to the left, above, and to the left above. -/
def predict : RowFilter → (a b c : Nat) → Nat
  | plain, _, _, _ => 0
  | left, a, _, _ => a
  | above, _, b, _ => b
  | mean, a, b, _ => (a + b) / 2
  | nearest, a, b, c => nearestNeighbour a b c

/-- What is subtracted from byte `k` of a row, for pixels of `width` bytes. -/
def prediction (f : RowFilter) (width k : Nat) (row previous : ByteArray) : Nat :=
  if width ≤ k then
    f.predict (byteAt row (k - width)) (byteAt previous k) (byteAt previous (k - width))
  else f.predict 0 (byteAt previous k) 0

/-- The row that a filter left `raw` of. -/
def restore (f : RowFilter) (width : Nat) (raw previous : ByteArray) : ByteArray :=
  (List.range raw.size).foldl
    (fun row k =>
      let p := f.prediction width k row previous
      row.push (byteAt raw k + p).toUInt8) .empty

/-- What a filter leaves of a row. -/
def apply (f : RowFilter) (width : Nat) (row previous : ByteArray) : ByteArray :=
  (List.range row.size).foldl
    (fun raw k => raw.push (byteAt row k + (256 - f.prediction width k row previous)).toUInt8)
    .empty

end RowFilter

end GridNet.Png
