import GridNet.Proofs.Outcomes
import GridNet.Weights.Buffer

/-!
# Payloads of weight files

Behind the header of a weight file each number takes four bytes, the lowest first. Four bytes are
those of exactly one number, so that a payload and the numbers in it determine each other.

* `Weights.wordOfBytes_bytesOfWord`, `Weights.bytesOfWord_wordOfBytes` — a word and its bytes.
* `Weights.scalarsOfBytes_encode`, `Weights.encode_scalarsOfBytes` — numbers and their payload.
* `Weights.decode_eq_ok_iff` — what is decoded is what has been encoded behind a header.
* `Weights.decode_isOk_iff` — the lengths of the files that can be decoded.
-/

namespace GridNet.Weights

/-! ## Words -/

theorem toNat_wordOfBytes (a b c d : UInt8) :
    (wordOfBytes a b c d).toNat = a.toNat + b.toNat * 0x100 + c.toNat * 0x10000 +
      d.toNat * 0x1000000 := by
  have ha := a.toNat_lt
  have hb := b.toNat_lt
  have hc := c.toNat_lt
  have hd := d.toNat_lt
  simp only [wordOfBytes, UInt32.toNat_add, UInt32.toNat_mul, UInt8.toNat_toUInt32,
    UInt32.reduceToNat]
  omega

/-- A word is **made of its bytes**. -/
theorem wordOfBytes_bytesOfWord (w : UInt32) :
    wordOfBytes w.toUInt8 (w / 0x100).toUInt8 (w / 0x10000).toUInt8
      (w / 0x1000000).toUInt8 = w := by
  have hw := w.toNat_lt
  apply UInt32.toNat.inj
  simp only [toNat_wordOfBytes, UInt32.toNat_toUInt8, UInt32.toNat_div, UInt32.reduceToNat]
  omega

/-- Bytes are **those of their word**. -/
theorem bytesOfWord_wordOfBytes (a b c d : UInt8) :
    bytesOfWord (wordOfBytes a b c d) = [a, b, c, d] := by
  have ha := a.toNat_lt
  have hb := b.toNat_lt
  have hc := c.toNat_lt
  have hd := d.toNat_lt
  simp only [bytesOfWord, List.cons.injEq, ← UInt8.toNat_inj, UInt32.toNat_toUInt8,
    UInt32.toNat_div, toNat_wordOfBytes, UInt32.reduceToNat, and_true]
  omega

/-! ## Payloads -/

theorem encode_cons (v : Scalar) (values : List Scalar) :
    encode (v :: values) = bytesOfWord v.bits ++ encode values :=
  List.flatMap_cons

theorem length_encode (values : List Scalar) : (encode values).length = 4 * values.length := by
  induction values with
  | nil => rfl
  | cons v values ih =>
    rw [encode_cons, List.length_append, ih, List.length_cons, bytesOfWord, List.length_cons]
    simp only [List.length_cons, List.length_nil]
    omega

/-- **Numbers are found again** in their payload. -/
theorem scalarsOfBytes_encode (values : List Scalar) : scalarsOfBytes (encode values) = values := by
  induction values with
  | nil => rfl
  | cons v values ih =>
    rw [encode_cons, bytesOfWord]
    simp only [List.cons_append, List.nil_append, scalarsOfBytes, wordOfBytes_bytesOfWord, ih]

/-- **A payload is written again** from its numbers. -/
theorem encode_scalarsOfBytes (bytes : List UInt8) (h : bytes.length % 4 = 0) :
    encode (scalarsOfBytes bytes) = bytes := by
  fun_induction scalarsOfBytes bytes with
  | case1 a b c d rest ih =>
    have hrest : rest.length % 4 = 0 := by
      simp only [List.length_cons] at h
      omega
    rw [encode_cons, bytesOfWord_wordOfBytes, ih hrest]
    rfl
  | case2 bytes hshort =>
    -- fewer than four bytes are left, so there are none
    match bytes, hshort, h with
    | [], _, _ => rfl
    | _ :: _ :: _ :: _ :: _, hshort, _ => exact absurd rfl (hshort _ _ _ _ _)

/-! ## Files -/

variable {bytes : List UInt8} {model : String} {b : WeightBuffer}

/-- A file is **skipped up to its payload**, which has to be whole. -/
theorem decode_eq_ok :
    decode bytes model = .ok b ↔
      headerSize model ≤ bytes.length ∧ (bytes.length - headerSize model) % 4 = 0 ∧
        (scalarsOfBytes (bytes.drop (headerSize model))).toArray = b := by
  simp only [decode, Outcome.bind_eq_ok, Outcome.ensure_eq_ok, decide_eq_true_eq,
    exists_and_left, exists_const]
  refine and_congr_right fun _ => ?_
  by_cases hwhole : (bytes.length - headerSize model) % 4 = 0
  · simp [hwhole]
  · simp only [ne_eq, hwhole, not_false_eq_true, if_true, false_and, iff_false]
    exact Outcome.throw_bind_ne_ok

/-- **What is decoded** is what has been encoded behind a header. -/
theorem decode_eq_ok_iff :
    decode bytes model = .ok b ↔
      ∃ header, header.length = headerSize model ∧ bytes = header ++ encode b.toList := by
  rw [decode_eq_ok]
  constructor
  · rintro ⟨hlong, hwhole, rfl⟩
    have hpayload := encode_scalarsOfBytes (bytes.drop (headerSize model))
      (by rwa [List.length_drop])
    refine ⟨bytes.take (headerSize model), List.length_take_of_le hlong, ?_⟩
    rw [hpayload, List.take_append_drop]
  · rintro ⟨header, hheader, rfl⟩
    have hdrop : (header ++ encode b.toList).drop (headerSize model) = encode b.toList := by
      rw [← hheader, List.drop_left]
    rw [hdrop, scalarsOfBytes_encode, List.length_append, length_encode, hheader,
      Nat.add_sub_cancel_left]
    exact ⟨Nat.le_add_right _ _, Nat.mul_mod_right _ _, rfl⟩

/-- **A file can be decoded** just if it is long enough for its header and some numbers. -/
theorem decode_isOk_iff :
    (∃ b, decode bytes model = .ok b) ↔ ∃ m, bytes.length = headerSize model + 4 * m := by
  constructor
  · rintro ⟨b, hb⟩
    obtain ⟨header, hheader, rfl⟩ := decode_eq_ok_iff.mp hb
    exact ⟨b.size, by rw [List.length_append, length_encode, hheader, Array.length_toList]⟩
  · rintro ⟨m, hm⟩
    exact ⟨_, decode_eq_ok.mpr ⟨by omega, by omega, rfl⟩⟩

end GridNet.Weights
