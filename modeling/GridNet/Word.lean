/-!
# Words

Extents, counts and offsets are natural numbers below `2 ^ 64`, and some of the numbers of pictures
are below `2 ^ 32`.
-/

namespace GridNet.Word

/-- The number of words of 64 bits. -/
def modulus : Nat := 0x10000000000000000

/-- The number of words of 32 bits. -/
def modulus32 : Nat := 0x100000000

/-- The number of words of 64 bits that a signed reading does not make negative. No array holds as
many elements. -/
def signedModulus : Nat := 0x8000000000000000

theorem lt_modulus {a : Nat} (h : a < signedModulus) : a < modulus :=
  Nat.lt_trans h (by decide)

end GridNet.Word
