import GridNet.Word

/-!
# Integers in text

Whole numbers of 64 bits, written in decimal digits behind an optional sign, and numbers of 32 bits
in hexadecimal digits. Digits are taken from the left; the first thing that goes wrong, a character
that is no digit or a value that no longer fits, is what a reader reports.

* `Text.readNat`, `Text.readInt` — decimal, unsigned and signed.
* `Text.readHex32` — hexadecimal.
-/

namespace GridNet.Text

/-- What can be wrong with an integer's text. -/
inductive IntegerFault
  | empty
  | invalidDigit
  | tooLarge
  | tooSmall
deriving DecidableEq

/-- The wording of a fault. -/
def IntegerFault.message : IntegerFault → String
  | empty => "cannot parse integer from empty string"
  | invalidDigit => "invalid digit found in string"
  | tooLarge => "number too large to fit in target type"
  | tooSmall => "number too small to fit in target type"

/-- The value of a decimal digit. -/
def decimalDigit (c : Char) : Option Nat := if c.isDigit then some (c.toNat - '0'.toNat) else none

/-- The value of a hexadecimal digit, in either case. -/
def hexDigit (c : Char) : Option Nat :=
  if c.isDigit then some (c.toNat - '0'.toNat)
  else if 'a' ≤ c ∧ c ≤ 'f' then some (c.toNat - 'a'.toNat + 10)
  else if 'A' ≤ c ∧ c ≤ 'F' then some (c.toNat - 'A'.toNat + 10)
  else none

/-- Continues `acc` by digits of the given base, up to `limit`; `excess` is reported above that. -/
def readDigits (digit : Char → Option Nat) (base limit : Nat) (excess : IntegerFault) :
    (acc : Nat) → List Char → Except IntegerFault Nat
  | acc, [] => .ok acc
  | acc, c :: cs =>
    match digit c with
    | none => .error .invalidDigit
    | some d =>
      if limit < acc * base + d then .error excess
      else readDigits digit base limit excess (acc * base + d) cs

/-- An unsigned number: an optional plus sign and at least one digit. -/
def readUnsigned (digit : Char → Option Nat) (base limit : Nat) (cs : List Char) :
    Except IntegerFault Nat :=
  match cs with
  | [] => .error .empty
  | ['+'] => .error .invalidDigit
  | '+' :: ds => readDigits digit base limit .tooLarge 0 ds
  | ds => readDigits digit base limit .tooLarge 0 ds

/-- A decimal number below `2 ^ 64`. -/
def readNat (s : String) : Except IntegerFault Nat :=
  readUnsigned decimalDigit 10 (Word.modulus - 1) s.toList

/-- A hexadecimal number below `2 ^ 32`. -/
def readHex32 (s : String) : Except IntegerFault Nat :=
  readUnsigned hexDigit 16 (Word.modulus32 - 1) s.toList

/-- A decimal number from `-2 ^ 63` up to and without `2 ^ 63`. -/
def readInt (s : String) : Except IntegerFault Int :=
  match s.toList with
  | '-' :: [] => .error .invalidDigit
  | '-' :: ds =>
    (readDigits decimalDigit 10 (Word.modulus / 2) .tooSmall 0 ds).map fun n => -(n : Int)
  | cs => (readUnsigned decimalDigit 10 (Word.modulus / 2 - 1) cs).map fun n => (n : Int)

/-- An integer of 64 bits, with a sign or without. -/
def readWhole (s : String) : Option Int :=
  match readNat s with
  | .ok n => some n
  | .error _ => (readInt s).toOption

end GridNet.Text
