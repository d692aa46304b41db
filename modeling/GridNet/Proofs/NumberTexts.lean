import GridNet.Proofs.SpacedWords
import GridNet.Text.Hex
import Mathlib.Algebra.Group.Nat.Defs
import Mathlib.Data.List.Forall2
import Mathlib.Data.Nat.Digits.Defs
import Mathlib.Tactic.Ring

/-!
# Numbers in digits

What has been written down of a number is read again. Digits are read from the left and written from
the right, so the induction is on the number: its last digit comes last in both. In turn whatever is
read as a number is a numeral: some digits behind an optional plus sign, whose value fits.

* `Text.readDigits_concat` — one digit more.
* `Text.solid_of_readNat`, `Text.solid_of_readHex32` — what can be read is a word.
* `Text.readNat_toString` — decimal numbers.
* `Text.readHex32_of_lower` — hexadecimal numbers, in small letters or capitals.
* `Text.IsNumeral`, `Text.readUnsigned_eq_ok_iff` — the texts that are read as a number.
-/

namespace GridNet.Text

variable {digit : Char → Option Nat} {base limit acc n m : Nat} {excess : IntegerFault}
  {cs : List Char} {c : Char}

/-- **One digit more** is read after all others. -/
theorem readDigits_concat (h : readDigits digit base limit excess acc cs = .ok m)
    (hdigit : digit c = some n)
    (hfits : m * base + n ≤ limit) :
    readDigits digit base limit excess acc (cs ++ [c]) = .ok (m * base + n) := by
  induction cs generalizing acc with
  | nil =>
    obtain rfl := Except.ok.inj h
    simp only [List.nil_append, readDigits, hdigit, if_neg (Nat.not_lt.mpr hfits)]
  | cons d cs ih =>
    rw [readDigits] at h
    rw [List.cons_append, readDigits]
    split at h
    · cases h
    · split at h
      · cases h
      · next hlimit => simp only [hlimit, if_false, ih h]

/-- A number without a sign is read as its digits. -/
theorem readUnsigned_of_readDigits (hplus : digit '+' = none) (hne : cs ≠ [])
    (h : readDigits digit base limit .tooLarge 0 cs = .ok n) :
    readUnsigned digit base limit cs = .ok n := by
  unfold readUnsigned
  split
  · exact absurd rfl hne
  · simp only [readDigits, hplus] at h
    cases h
  · simp only [readDigits, hplus] at h
    cases h
  · exact h

/-! ## Words -/

theorem isSome_of_readDigits (h : readDigits digit base limit excess acc cs = .ok n) :
    ∀ c ∈ cs, (digit c).isSome := by
  induction cs generalizing acc with
  | nil => exact fun c hc => absurd hc List.not_mem_nil
  | cons c cs ih =>
    rw [readDigits] at h
    split at h
    · cases h
    · next hdigit =>
      split at h
      · cases h
      · exact List.forall_mem_cons.mpr ⟨Option.isSome_of_eq_some hdigit, ih h⟩

/-- **What is read as a number** is a word, when no digit is blank. -/
theorem solid_of_readUnsigned (hdigits : ∀ c, (digit c).isSome → isBlank c = false)
    (h : readUnsigned digit base limit cs = .ok n) : Solid cs := by
  unfold readUnsigned at h
  split at h
  · cases h
  · cases h
  · exact ⟨List.cons_ne_nil _ _,
      List.forall_mem_cons.mpr ⟨rfl, fun c hc => hdigits c (isSome_of_readDigits h c hc)⟩⟩
  · next hne _ _ => exact ⟨hne, fun c hc => hdigits c (isSome_of_readDigits h c hc)⟩

/-- Digits and letters are no blanks. -/
theorem not_isBlank_of_hexDigit (h : (hexDigit c).isSome) : isBlank c = false := by
  have hrange : 0x30 ≤ c.toNat ∧ c.toNat ≤ 0x66 := by
    rw [hexDigit] at h
    split_ifs at h with hdecimal hsmall hcapital
    · have hbounds : 0x30 ≤ c.toNat ∧ c.toNat ≤ 0x39 := Char.isDigit_iff_toNat.mp hdecimal
      omega
    · have hlow : 0x61 ≤ c.toNat := UInt32.le_iff_toNat_le.mp hsmall.1
      have hhigh : c.toNat ≤ 0x66 := UInt32.le_iff_toNat_le.mp hsmall.2
      omega
    · have hlow : 0x41 ≤ c.toNat := UInt32.le_iff_toNat_le.mp hcapital.1
      have hhigh : c.toNat ≤ 0x46 := UInt32.le_iff_toNat_le.mp hcapital.2
      omega
    · cases h
  simp only [isBlank, Bool.or_eq_false_iff, Bool.and_eq_false_iff, decide_eq_false_iff_not,
    beq_eq_false_iff_ne]
  omega

theorem not_isBlank_of_decimalDigit (h : (decimalDigit c).isSome) : isBlank c = false := by
  refine not_isBlank_of_hexDigit ?_
  rw [decimalDigit] at h
  rw [hexDigit]
  split_ifs at h with hdecimal
  · rw [if_pos hdecimal]
    rfl
  · cases h

theorem solid_of_readNat {s : String} (h : readNat s = .ok n) : Solid s.toList :=
  solid_of_readUnsigned (fun _ => not_isBlank_of_decimalDigit) h

theorem solid_of_readHex32 {s : String} (h : readHex32 s = .ok n) : Solid s.toList :=
  solid_of_readUnsigned (fun _ => not_isBlank_of_hexDigit) h

/-! ## Decimal numbers -/

theorem decimalDigit_digitChar (h : n < 10) : decimalDigit n.digitChar = some n := by
  rw [decimalDigit, Nat.isDigit_digitChar, if_pos (decide_eq_true h),
    Nat.toNat_digitChar_of_lt_ten h]
  exact congrArg some (Nat.add_sub_cancel_left 48 n)

theorem readDigits_toDigits (h : n ≤ limit) :
    readDigits decimalDigit 10 limit excess 0 (Nat.toDigits 10 n) = .ok n := by
  induction n using Nat.strongRecOn with
  | ind n ih =>
    rcases Nat.lt_or_ge n 10 with hsmall | hlarge
    · have hnone : readDigits decimalDigit 10 limit excess 0 [] = .ok 0 := rfl
      have hone := readDigits_concat hnone (decimalDigit_digitChar hsmall) (by omega)
      rw [Nat.zero_mul, Nat.zero_add] at hone
      rw [Nat.toDigits_of_lt_base hsmall]
      exact hone
    · have hfront := ih (n / 10) (by omega) (by omega)
      have hlast := decimalDigit_digitChar (Nat.mod_lt n (by decide))
      rw [Nat.toDigits_of_base_le (by decide) hlarge, readDigits_concat hfront hlast (by omega)]
      exact congrArg Except.ok (Nat.div_add_mod' n 10)

/-- **A number that fits a word** is read again. -/
theorem readNat_toString (h : n < Word.modulus) : readNat (toString n) = .ok n := by
  rw [readNat, Nat.toString_eq_repr, Nat.toList_repr]
  exact readUnsigned_of_readDigits rfl Nat.toDigits_ne_nil
    (readDigits_toDigits (Nat.le_sub_one_of_lt h))

/-! ## Hexadecimal numbers -/

theorem hexDigit_digit (h : n < 16) : hexDigit (Hex.digit n) = some n := by
  have hall : ∀ d : Fin 16, hexDigit (Hex.digit d) = some d.val := by decide
  exact hall ⟨n, h⟩

/-- Small letters and capitals count the same. -/
theorem hexDigit_toLower (c : Char) : hexDigit c.toLower = hexDigit c := by
  by_cases hcapital : c.val ≥ 'A'.val ∧ c.val ≤ 'Z'.val
  · -- capitals are among the first characters
    have hall : ∀ n : Fin 91, hexDigit (Char.ofNat n).toLower = hexDigit (Char.ofNat n) := by decide
    have hlt : c.toNat < 91 := Nat.lt_succ_of_le (UInt32.le_iff_toNat_le.mp hcapital.2)
    simpa using hall ⟨c.toNat, hlt⟩
  · exact congrArg hexDigit (dif_neg hcapital)

theorem readDigits_map_toLower :
    readDigits hexDigit base limit excess acc (cs.map Char.toLower) =
      readDigits hexDigit base limit excess acc cs := by
  induction cs generalizing acc with
  | nil => rfl
  | cons c cs ih => simp only [List.map_cons, readDigits, hexDigit_toLower, ih]

theorem readDigits_ofNat {count : Nat} (hcount : n < 16 ^ count) (h : n ≤ limit) :
    readDigits hexDigit 16 limit excess 0 (Hex.ofNat count n).toList = .ok n := by
  induction count generalizing n with
  | zero =>
    obtain rfl : n = 0 := Nat.lt_one_iff.mp hcount
    rfl
  | succ count ih =>
    have hlast := hexDigit_digit (Nat.mod_lt n (by decide))
    have hfront := ih (n := n / 16) (by rw [Nat.pow_succ] at hcount; omega) (by omega)
    rw [Hex.ofNat, String.toList_push, readDigits_concat hfront hlast (by omega)]
    exact congrArg Except.ok (Nat.div_add_mod' n 16)

/-- **A word of eight hexadecimal digits** is read again, whatever letters are capitals in it. -/
theorem readHex32_of_lower {w : String} (h : n < Word.modulus32) (hw : lower w = Hex.ofNat 8 n) :
    readHex32 w = .ok n := by
  have hdigits : w.toList.map Char.toLower = (Hex.ofNat 8 n).toList := by
    rw [← hw, lower, String.toList_ofList]
  have hne : w.toList ≠ [] := by
    intro hnil
    rw [hnil] at hdigits
    simp [Hex.ofNat] at hdigits
  refine readUnsigned_of_readDigits rfl hne ?_
  rw [← readDigits_map_toLower, hdigits]
  exact readDigits_ofNat h (Nat.le_sub_one_of_lt h)

/-! ## Numerals -/

/-- The characters are the **digits of a number** that is not above a limit, the highest
digit first. -/
def AreDigits (digit : Char → Option Nat) (base limit : Nat) (cs : List Char) (n : Nat) : Prop :=
  ∃ values, List.Forall₂ (fun c d => digit c = some d) cs values ∧
    Nat.ofDigits base values.reverse = n ∧ n ≤ limit

/-- The characters are a **numeral**: some digits, with or without a plus sign in front of them. -/
inductive IsNumeral (digit : Char → Option Nat) (base limit : Nat) : List Char → Nat → Prop
  | plain {ds : List Char} {k : Nat} (hne : ds ≠ []) (h : AreDigits digit base limit ds k) :
      IsNumeral digit base limit ds k
  | signed {ds : List Char} {k : Nat} (hne : ds ≠ []) (h : AreDigits digit base limit ds k) :
      IsNumeral digit base limit ('+' :: ds) k

/-- **Digits go on from what has been read**. What is read never becomes smaller, so it is enough to
compare the last value with the limit. -/
theorem readDigits_eq_ok_iff (hbase : 0 < base) (hacc : acc ≤ limit) :
    readDigits digit base limit excess acc cs = .ok n ↔
      ∃ values, List.Forall₂ (fun c d => digit c = some d) cs values ∧
        acc * base ^ values.length + Nat.ofDigits base values.reverse = n ∧ n ≤ limit := by
  induction cs generalizing acc with
  | nil =>
    simp only [readDigits, Except.ok.injEq, List.forall₂_nil_left_iff, exists_eq_left,
      List.length_nil, pow_zero, Nat.mul_one, List.reverse_nil, Nat.ofDigits_nil, Nat.add_zero]
    constructor
    · rintro rfl
      exact ⟨rfl, hacc⟩
    · exact fun h => h.1
  | cons c cs ih =>
    simp only [readDigits, List.forall₂_cons_left_iff]
    cases hdigit : digit c with
    | none => simp
    | some d =>
      simp only [Option.some.injEq]
      have hvalue : ∀ values : List Nat, acc * base ^ (d :: values).length + Nat.ofDigits base
          (d :: values).reverse =
          (acc * base + d) * base ^ values.length + Nat.ofDigits base values.reverse := by
        intro values
        rw [List.length_cons, List.reverse_cons, Nat.ofDigits_append, List.length_reverse,
          Nat.ofDigits_singleton]
        ring
      by_cases hlimit : limit < acc * base + d
      · rw [if_pos hlimit]
        refine iff_of_false (by simp) ?_
        rintro ⟨_, ⟨_, values, rfl, -, rfl⟩, hn, hle⟩
        have hgrows : acc * base + d ≤ (acc * base + d) * base ^ values.length :=
          Nat.le_mul_of_pos_right _ (Nat.pow_pos hbase)
        rw [hvalue] at hn
        omega
      · rw [if_neg hlimit, ih (Nat.le_of_not_lt hlimit)]
        constructor
        · rintro ⟨values, hvalues, hn⟩
          exact ⟨d :: values, ⟨d, values, rfl, hvalues, rfl⟩, by rwa [hvalue]⟩
        · rintro ⟨_, ⟨_, values, rfl, hvalues, rfl⟩, hn⟩
          exact ⟨values, hvalues, by rwa [hvalue] at hn⟩

theorem areDigits_iff (hbase : 0 < base) :
    readDigits digit base limit excess 0 cs = .ok n ↔ AreDigits digit base limit cs n := by
  rw [readDigits_eq_ok_iff hbase (Nat.zero_le limit)]
  simp only [Nat.zero_mul, Nat.zero_add, AreDigits]

/-- **What is read as a number is a numeral**, when the plus sign is no digit. -/
theorem readUnsigned_eq_ok_iff (hbase : 0 < base) (hplus : digit '+' = none) :
    readUnsigned digit base limit cs = .ok n ↔ IsNumeral digit base limit cs n := by
  constructor
  · intro h
    unfold readUnsigned at h
    split at h
    · cases h
    · cases h
    · next ds hne => exact .signed (fun hnil => hne hnil) ((areDigits_iff hbase).mp h)
    · next hne _ _ => exact .plain hne ((areDigits_iff hbase).mp h)
  · intro h
    cases h with
    | plain hne h => exact readUnsigned_of_readDigits hplus hne ((areDigits_iff hbase).mpr h)
    | @signed ds _ hne h =>
      cases ds with
      | nil => exact absurd rfl hne
      | cons d ds => exact (areDigits_iff hbase).mpr h

/-- A numeral is within its limit. -/
theorem IsNumeral.le (h : IsNumeral digit base limit cs n) : n ≤ limit := by
  cases h with
  | plain _ hdigits =>
    obtain ⟨_, -, -, hle⟩ := hdigits
    exact hle
  | signed _ hdigits =>
    obtain ⟨_, -, -, hle⟩ := hdigits
    exact hle

/-- A number of 64 bits in decimal digits. -/
def IsDecimal (s : String) (n : Nat) : Prop :=
  IsNumeral decimalDigit 10 (Word.modulus - 1) s.toList n

/-- A number of 32 bits in hexadecimal digits. -/
def IsHexadecimal (s : String) (n : Nat) : Prop :=
  IsNumeral hexDigit 16 (Word.modulus32 - 1) s.toList n

variable {s : String}

theorem readNat_eq_ok_iff : readNat s = .ok n ↔ IsDecimal s n :=
  readUnsigned_eq_ok_iff (by decide) rfl

theorem readHex32_eq_ok_iff : readHex32 s = .ok n ↔ IsHexadecimal s n :=
  readUnsigned_eq_ok_iff (by decide) rfl

theorem IsHexadecimal.unique (h : IsHexadecimal s n) (h' : IsHexadecimal s m) : n = m :=
  Except.ok.inj ((readHex32_eq_ok_iff.mpr h).symm.trans (readHex32_eq_ok_iff.mpr h'))

end GridNet.Text
