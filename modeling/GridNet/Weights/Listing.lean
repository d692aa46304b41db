import GridNet.Text.Lines
import GridNet.Weights.Buffer

/-!
# Weight files in text

The text form of a network's weights announces a number of tensors in its first line. Each further
line holds a tensor's name, how many values it has, and the values as hexadecimal words. Blank lines
and blanks around a line mean nothing; lines behind the announced number are not looked at.

* `Weights.readListing` — all values, in order.
-/

namespace GridNet.Weights

/-- The lines that are not blank, trimmed. -/
def contentLines (text : String) : List String :=
  ((Text.lines text.toList).map Text.trimChars |>.filter (!·.isEmpty)).map String.ofList

/-- An integer, or a failure that says what it was meant to be. -/
def integerOr {α : Type} (context : String) (r : Except Text.IntegerFault α) : Outcome α :=
  inContext context (r.mapError Failure.ofInteger)

/-- The values of a tensor's words. -/
def readWords (name : String) (ws : List String) : Outcome (List Scalar) :=
  ws.mapM fun w =>
    (integerOr s!"invalid hex value '{w}' in tensor '{name}'" (Text.readHex32 w)).map
      fun n => ⟨n.toUInt32⟩

/-- The values of one tensor's line. -/
def readTensor (line : String) : Outcome (List Scalar) := do
  let (name, fields) :=
    match Text.words line with
    | [] => ("", [])
    | name :: fields => (name, fields)
  match fields with
  | [] => throw (.note s!"tensor '{name}' has no element count")
  | count :: ws =>
    let count ← integerOr s!"invalid element count for tensor '{name}'" (Text.readNat count)
    let values ← readWords name ws
    ensure (values.length = count)
      s!"tensor '{name}' declares {count} values but holds {values.length}"
    return values

/-- The values of the lines from tensor number `k` on, up to the announced total. -/
def readTensors (total : Nat) : (k : Nat) → List String → Outcome (List Scalar)
  | k, [] => if k = total then .ok [] else .error (.note s!"expected {total} tensors, found {k}")
  | k, line :: rest =>
    if k = total then .ok []
    else do
      let values ← readTensor line
      return values ++ (← readTensors total (k + 1) rest)

/-- All values of a listing. -/
def readListing (text : String) : Outcome WeightBuffer :=
  match contentLines text with
  | [] => .error (.note "empty .wts file")
  | first :: rest => do
    let total ← integerOr s!"invalid tensor count '{first}'" (Text.readNat first)
    return (← readTensors total 0 rest).toArray

end GridNet.Weights
