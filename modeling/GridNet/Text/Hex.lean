import GridNet.Text.Integer

/-!
# Hexadecimal text

Numbers and bytes in hexadecimal digits, small letters when they are written.

* `Hex.ofNat` — a number with a fixed count of digits.
* `Hex.ofBytes`, `Hex.toBytes` — two digits for each byte.
-/

namespace GridNet.Hex

/-- The digit of a number below 16. -/
def digit (n : Nat) : Char :=
  if n < 10 then Char.ofNat ('0'.toNat + n) else Char.ofNat ('a'.toNat + (n - 10))

/-- The last `count` digits of a number. -/
def ofNat : (count n : Nat) → String
  | 0, _ => ""
  | count + 1, n => (ofNat count (n / 16)).push (digit (n % 16))

/-- The value of some digits; what is no digit counts as zero. -/
def toNat (cs : List Char) : Nat := cs.foldl (fun n c => 16 * n + (Text.hexDigit c).getD 0) 0

/-- The digits of some bytes. -/
def ofBytes (bytes : List UInt8) : String := String.join (bytes.map fun b => ofNat 2 b.toNat)

/-- The bytes of pairs of digits. -/
def toBytes : List Char → List UInt8
  | high :: low :: rest => (toNat [high, low]).toUInt8 :: toBytes rest
  | _ => []

end GridNet.Hex
