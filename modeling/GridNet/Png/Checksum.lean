/-!
# Checksums

Two sums that guard picture files: a cyclic redundancy check over each chunk, and a pair of running
sums over the data before it was compressed.

* `Checksum.cyclic` — of 32 bits, the lowest bit first.
* `Checksum.running` — two sums modulo 65521.
-/

namespace GridNet.Checksum

/-- The polynomial of the cyclic check. -/
def polynomial : UInt32 := 0xedb88320

/-- One step of the cyclic check: the lowest bit decides whether the polynomial is added. -/
def cyclicStep (c : UInt32) : UInt32 :=
  if c % 2 = 1 then polynomial ^^^ (c >>> 1) else c >>> 1

/-- The cyclic check of a single byte. -/
def cyclicByte (b : Nat) : UInt32 := (List.range 8).foldl (fun c _ => cyclicStep c) b.toUInt32

/-- The cyclic checks of all bytes. -/
def cyclicTable : Array UInt32 := Array.ofFn fun b : Fin 256 => cyclicByte b

/-- The cyclic check of some bytes. -/
def cyclic (bytes : ByteArray) : UInt32 :=
  let c := bytes.foldl
    (fun c b => (cyclicTable[((c ^^^ b.toUInt32) % 256).toNat]?).getD 0 ^^^ (c >>> 8)) 0xffffffff
  c ^^^ 0xffffffff

/-- The modulus of the running sums. -/
def runningModulus : Nat := 65521

/-- The sum of some bytes and the sum of all sums on the way, in the upper half. -/
def running (bytes : ByteArray) : UInt32 :=
  let (a, b) := bytes.foldl
    (fun (a, b) byte =>
      let a := (a + byte.toNat) % runningModulus
      (a, (b + a) % runningModulus)) (1, 0)
  (b * 65536 + a).toUInt32

end GridNet.Checksum
