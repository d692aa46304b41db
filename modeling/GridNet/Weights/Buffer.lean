import GridNet.Failure
import GridNet.Scalar.Basic

/-!
# Weight files in bytes

The binary form of a network's weights is a short header and then every number as four bytes, the
lowest first. The header of the one model family that counts what it has seen in 32 bits is four
bytes shorter than that of all others.

* `Weights.headerSize` — by the name of the model.
* `Weights.decode` — the numbers behind the header; `Weights.encode` writes them down.
-/

namespace GridNet

/-- All weights of a network, in the order in which its layers read them. -/
abbrev WeightBuffer := Array Scalar

namespace Weights

/-- Some place in the second text starts with the first one. -/
def occursIn (needle : List Char) : List Char → Bool
  | [] => needle.isEmpty
  | c :: cs => needle.isPrefixOf (c :: cs) || occursIn needle cs

/-- The bytes in front of the numbers. -/
def headerSize (model : String) : Nat :=
  if occursIn "yolov2".toList model.toList && !occursIn "yolov2-tiny".toList model.toList then 16
  else 20

/-- The word of four bytes, the lowest first. -/
def wordOfBytes (a b c d : UInt8) : UInt32 :=
  a.toUInt32 + b.toUInt32 * 0x100 + c.toUInt32 * 0x10000 + d.toUInt32 * 0x1000000

/-- The four bytes of a word, the lowest first. -/
def bytesOfWord (w : UInt32) : List UInt8 :=
  [w.toUInt8, (w / 0x100).toUInt8, (w / 0x10000).toUInt8, (w / 0x1000000).toUInt8]

/-- The numbers held by groups of four bytes; what is left over at the end is dropped. -/
def scalarsOfBytes : List UInt8 → List Scalar
  | a :: b :: c :: d :: rest => ⟨wordOfBytes a b c d⟩ :: scalarsOfBytes rest
  | _ => []

/-- The bytes of the payload that holds the given numbers. -/
def encode (values : List Scalar) : List UInt8 := values.flatMap (bytesOfWord ·.bits)

/-- The numbers of a weight file: the header is skipped, and no number may be cut off at the end. -/
def decode (bytes : List UInt8) (model : String) : Outcome WeightBuffer := do
  let header := headerSize model
  ensure (header ≤ bytes.length)
    s!"weights file is {bytes.length} bytes, shorter than its {header}-byte header"
  let payload := bytes.length - header
  if payload % 4 ≠ 0 then throw (.ofDefect (.raggedPayload payload))
  return (scalarsOfBytes (bytes.drop header)).toArray

end Weights

end GridNet
