import GridNet.Proofs.NumberTexts
import GridNet.Proofs.SpacedWords
import GridNet.Proofs.WeightPayloads
import GridNet.Weights.Listing

/-!
# Listings of weights

The text form of a network's weights names each tensor and spells its numbers in hexadecimal digits.
Whatever blank lines and blanks have been added to it, a listing is read as the numbers of its
tensors in order, bit for bit; and these are the numbers that the binary form gives when they stand
in its payload.

* `Weights.ListedTensor`, `Weights.Lists` — tensors, and the texts that list them.
* `Weights.readTensor_of_fillsLine` — one line.
* `Weights.readTensors_of_fillsLine` — the lines that are announced.
* `Weights.readListing_of_lists` — a listing.
* `Weights.text_and_bytes_agree` — the two forms of weights.
-/

namespace GridNet.Weights

/-! ## Listings -/

/-- A tensor **that can be listed**: its name is a word, and the count of its values is a
number of 64 bits. -/
structure ListedTensor where
  name : String
  values : List Scalar
  named : Text.Solid name.toList
  countable : values.length < Word.modulus

/-- The word **spells** the bits of a number in eight hexadecimal digits, each of which
may be a capital. -/
def Spells (w : String) (v : Scalar) : Prop := Text.lower w = Hex.ofNat 8 v.bits.toNat

/-- The line holds the name of a tensor, the count of its values, and the values. -/
def ListedTensor.FillsLine (t : ListedTensor) (line : List Char) : Prop :=
  ∃ ws, List.Forall₂ Spells ws t.values ∧
    Text.Spaced (t.name :: toString t.values.length :: ws) line

/-- The text **lists the tensors**: its lines that are not blank are one with the number of tensors
and one for each tensor. -/
inductive Lists (tensors : List ListedTensor) : String → Prop
  | intro {joined rows : List (List Char)} {total : List Char}
      (hjoined : ∀ line ∈ joined, '\n' ∉ line)
      (hcontent : (joined.filter fun line => !line.all Text.isBlank) = total :: rows)
      (htotal : Text.Spaced [toString tensors.length] total)
      (hrows : List.Forall₂ ListedTensor.FillsLine tensors rows) :
      Lists tensors (String.ofList (['\n'].intercalate joined))

/-- The numbers of some tensors, in order. -/
def parameters (tensors : List ListedTensor) : List Scalar := tensors.flatMap (·.values)

variable {tensors : List ListedTensor} {t : ListedTensor} {line : List Char}
  {rows : List (List Char)}
  {text name w : String} {ws : List String} {v : Scalar}

/-! ## Reading -/

theorem integerOr_ok {α : Type} (context : String) (a : α) :
    integerOr context (.ok a) = .ok a := rfl

/-- **A spelled number** is read bit for bit. -/
theorem Spells.readHex32 (h : Spells w v) : Text.readHex32 w = .ok v.bits.toNat :=
  Text.readHex32_of_lower v.bits.toNat_lt h

theorem solid_of_spells {values : List Scalar} (h : List.Forall₂ Spells ws values) :
    ∀ w ∈ ws, Text.Solid w.toList := by
  have hsolid := h.imp fun w v hw => And.intro (Text.solid_of_readHex32 hw.readHex32) hw
  exact ((List.forall₂_and_left _ _).mp hsolid).1

theorem readWords_of_spells {values : List Scalar} (h : List.Forall₂ Spells ws values) :
    readWords name ws = .ok values := by
  refine Outcome.mapM_eq_ok.mpr (h.imp fun w v hw => ?_)
  rw [hw.readHex32, integerOr_ok, Outcome.map_eq_ok]
  exact ⟨_, rfl, by rw [Nat.toUInt32_eq, UInt32.ofNat_toNat]⟩

/-- **A line** is read as the values of its tensor. -/
theorem readTensor_of_fillsLine (h : t.FillsLine line) :
    readTensor (String.ofList (Text.trimChars line)) = .ok t.values := by
  obtain ⟨ws, hspelled, hline⟩ := h
  have hwords : Text.words (String.ofList (Text.trimChars line)) =
      t.name :: toString t.values.length :: ws := by
    rw [Text.words, String.toList_ofList, Text.wordsOf_trimChars, hline.wordsOf]
    have hcount := Text.solid_of_readNat (Text.readNat_toString t.countable)
    exact List.forall_mem_cons.mpr
      ⟨t.named, List.forall_mem_cons.mpr ⟨hcount, solid_of_spells hspelled⟩⟩
  simp only [readTensor, hwords, Text.readNat_toString t.countable, integerOr_ok,
    readWords_of_spells hspelled, Outcome.ok_bind, ensure, decide_true, if_true]
  rfl

/-- **The announced lines** are read as the values of all tensors, by induction over the tensors. -/
theorem readTensors_of_fillsLine (h : List.Forall₂ ListedTensor.FillsLine tensors rows) (k : Nat) :
    readTensors (k + tensors.length) k ((rows.map Text.trimChars).map String.ofList) =
      .ok (parameters tensors) := by
  induction h generalizing k with
  | nil => exact if_pos rfl
  | @cons t line tensors rows ht _ ih =>
    have hmore : k ≠ k + (tensors.length + 1) := by omega
    have hrest := ih (k + 1)
    rw [Nat.add_right_comm, Nat.add_assoc] at hrest
    rw [List.length_cons, List.map_cons, List.map_cons, readTensors, if_neg hmore,
      readTensor_of_fillsLine ht, Outcome.ok_bind, hrest, Outcome.ok_bind]
    rfl

/-- **A listing** is read as the numbers of its tensors. -/
theorem readListing_of_lists (h : Lists tensors text) (hcount : tensors.length < Word.modulus) :
    readListing text = .ok (parameters tensors).toArray := by
  obtain @⟨joined, rows, total, hjoined, hcontent, htotal, hrows⟩ := h
  have hread := Text.readNat_toString hcount
  have hlines : contentLines (String.ofList (['\n'].intercalate joined)) =
      toString tensors.length :: (rows.map Text.trimChars).map String.ofList := by
    rw [contentLines, String.toList_ofList, Text.trimmed_lines hjoined, hcontent, List.map_cons,
      List.map_cons, htotal.trimChars_eq (Text.solid_of_readNat hread), String.ofList_toList]
  have htensors := readTensors_of_fillsLine hrows 0
  rw [Nat.zero_add] at htensors
  rw [readListing, hlines]
  simp only [hread, integerOr_ok, Outcome.ok_bind, htensors]
  rfl

/-! ## Both forms -/

/-- **The two forms of weights.** A text that lists some tensors is read as their numbers, bit for
bit, and so is the file of any model that has these numbers as its payload, whatever its header. In
turn a file can be decoded just if behind its header there are four bytes for each of some numbers;
then there are as many as have been decoded, and these have the bytes of the payload. -/
theorem text_and_bytes_agree :
    (∀ tensors text, Lists tensors text → tensors.length < Word.modulus →
      readListing text = .ok (parameters tensors).toArray ∧
        ∀ model header, header.length = headerSize model →
          decode (header ++ encode (parameters tensors)) model = readListing text) ∧
      ∀ model bytes,
        ((∃ b, decode bytes model = .ok b) ↔ ∃ m, bytes.length = headerSize model + 4 * m) ∧
          ∀ b, decode bytes model = .ok b →
            bytes.length = headerSize model + 4 * b.size ∧
            encode b.toList = bytes.drop (headerSize model) := by
  refine ⟨fun tensors text hlists hcount => ?_, fun model bytes =>
    ⟨decode_isOk_iff, fun b hb => ?_⟩⟩
  · have hread := readListing_of_lists hlists hcount
    refine ⟨hread, fun model header hheader => ?_⟩
    rw [hread]
    exact decode_eq_ok_iff.mpr ⟨header, hheader, rfl⟩
  · obtain ⟨header, hheader, rfl⟩ := decode_eq_ok_iff.mp hb
    rw [List.length_append, length_encode, Array.length_toList, ← hheader, List.drop_left]
    exact ⟨rfl, rfl⟩

/-- A tensor whose only value is a missing number with some payload. -/
def missingBias : ListedTensor := ⟨"bias", [⟨0x7fc0dead⟩], by decide, by decide⟩

/-- Blank lines, blanks and capitals make no difference. -/
theorem text_and_bytes_agree_missingBias :
    readListing "\n 1 \r\n\t\nbias 1\t7fC0dead \n" = .ok #[⟨0x7fc0dead⟩] ∧
      decode (List.replicate 16 7 ++ [0xad, 0xde, 0xc0, 0x7f]) "yolov2" = .ok #[⟨0x7fc0dead⟩] := by
  have htotal : Text.Spaced ["1"] " 1 \r".toList :=
    @Text.Spaced.word [' '] [' ', '\r'] "1" [] (by decide) (by decide) (.blank (by decide))
  have hbias : missingBias.FillsLine "bias 1\t7fC0dead ".toList :=
    ⟨["7fC0dead"], .cons rfl .nil,
      @Text.Spaced.word [] _ "bias" _ (by decide) (by decide) <|
      @Text.Spaced.word [' '] _ "1" _ (by decide) (by decide) <|
      @Text.Spaced.word ['\t'] [' '] "7fC0dead" _ (by decide) (by decide) (.blank (by decide))⟩
  have hlists : Lists [missingBias] "\n 1 \r\n\t\nbias 1\t7fC0dead \n" :=
    @Lists.intro [missingBias] (["", " 1 \r", "\t", "bias 1\t7fC0dead ", ""].map String.toList)
      _ _ (by decide) rfl htotal (.cons hbias .nil)
  obtain ⟨hread, hdecode⟩ := text_and_bytes_agree.1 _ _ hlists (by decide)
  have hfile := hdecode "yolov2" (List.replicate 16 7) (by decide)
  exact ⟨hread, hfile.trans hread⟩

end GridNet.Weights
