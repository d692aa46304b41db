import GridNet.Head.Decoder
import GridNet.Proofs.Outcomes

/-!
# Counting heads

The channels that a head reads and the rows that it adds are counted before they are used. Where the
counting succeeds, the numbers are exact.

* `Head.countChannels_eq_ok`, `Head.countRows_eq_ok` — one head.
* `HeadDecoder.countRows_eq_ok`, `HeadDecoder.make_eq_ok` — the heads of a decode node.
* `HeadDecoder.countRows_of_lt` — rows that are in range are counted.
-/

namespace GridNet

namespace Head

variable {h : Head} {n : Nat}

theorem countChannels_eq_ok :
    h.countChannels = .ok n ↔ 5 + h.classes < Word.modulus ∧ h.channels < Word.modulus ∧
      h.channels = n := by
  simp only [countChannels, Outcome.bind_eq_ok, Word.add_eq_ok, Word.mul_eq_ok]
  constructor
  · rintro ⟨_, ⟨hclasses, rfl⟩, hchannels, rfl⟩
    exact ⟨hclasses, hchannels, rfl⟩
  · rintro ⟨hclasses, hchannels, rfl⟩
    exact ⟨_, ⟨hclasses, rfl⟩, hchannels, rfl⟩

/-- Rows that have been counted are exact. -/
theorem countRows_eq_ok (hn : h.countRows = .ok n) : h.rows = n :=
  (Word.product_eq_ok hn).1

/-- Rows of a grid are counted if they are in range. -/
theorem countRows_of_lt (hgrid : 0 < h.gridWidth ∧ 0 < h.gridHeight)
    (hrows : h.rows < Word.modulus) :
    h.countRows = .ok h.rows :=
  Word.product_of_lt (by simp [hgrid]) hrows

end Head

namespace HeadDecoder

theorem rowsOf_cons (h : Head) (heads : List Head) : rowsOf (h :: heads) = h.rows + rowsOf heads :=
  rfl

/-- The heads are counted one behind the other, from `start` rows on. -/
theorem foldlM_countRows {heads : List Head} {start n : Nat}
    (h : heads.foldlM (fun n head => do Word.add n (← head.countRows)) start = .ok n) :
    start + rowsOf heads = n ∧ (start < Word.modulus → n < Word.modulus) := by
  induction heads generalizing start with
  | nil =>
    obtain rfl := Except.ok.inj h
    exact ⟨rfl, id⟩
  | cons head rest ih =>
    simp only [List.foldlM_cons, Outcome.bind_eq_ok, Word.add_eq_ok] at h
    obtain ⟨_, ⟨rows, hrows, hlt, rfl⟩, h⟩ := h
    obtain ⟨rfl, hrest⟩ := ih h
    obtain rfl := head.countRows_eq_ok hrows
    refine ⟨?_, fun _ => hrest hlt⟩
    rw [rowsOf_cons, Nat.add_assoc]

/-- Rows that have been counted are exact. -/
theorem countRows_eq_ok {heads : List Head} {n : Nat} (h : countRows heads = .ok n) :
    rowsOf heads = n ∧ n < Word.modulus := by
  obtain ⟨hsum, hlt⟩ := foldlM_countRows h
  exact ⟨by rwa [Nat.zero_add] at hsum, hlt (by decide)⟩

theorem foldlM_countRows_of_lt {heads : List Head} (start : Nat)
    (hgrid : ∀ h ∈ heads, 0 < h.gridWidth ∧ 0 < h.gridHeight)
    (hrows : start + rowsOf heads < Word.modulus) :
    heads.foldlM (fun n head => do Word.add n (← head.countRows)) start =
      .ok (start + rowsOf heads) := by
  induction heads generalizing start with
  | nil => rfl
  | cons head rest ih =>
    have hsplit : start + rowsOf (head :: rest) = start + head.rows + rowsOf rest := by
      rw [rowsOf_cons, ← Nat.add_assoc]
    rw [hsplit] at hrows ⊢
    have hfirst : start + head.rows < Word.modulus := (Nat.le_add_right _ _).trans_lt hrows
    have hcounted := head.countRows_of_lt (hgrid head List.mem_cons_self)
      ((Nat.le_add_left _ _).trans_lt hfirst)
    rw [List.foldlM_cons, hcounted, Outcome.ok_bind, Word.add_of_lt hfirst]
    exact ih _ (fun h hh => hgrid h (List.mem_cons_of_mem _ hh)) hrows

/-- Rows of grids are counted if their number is in range. -/
theorem countRows_of_lt {heads : List Head}
    (hgrid : ∀ h ∈ heads, 0 < h.gridWidth ∧ 0 < h.gridHeight)
    (hrows : rowsOf heads < Word.modulus) : countRows heads = .ok (rowsOf heads) := by
  have hcounted := foldlM_countRows_of_lt 0 hgrid (by rwa [Nat.zero_add])
  rwa [Nat.zero_add] at hcounted

/-- A decode node is made of heads whose rows can be counted. -/
theorem make_eq_ok {width height classes : Nat} {activated : Bool} {heads : List Head}
    {d : HeadDecoder} :
    make width height classes activated heads = .ok d ↔
      countRows heads = .ok (rowsOf heads) ∧ ofHeads width height classes activated heads = d := by
  simp only [make, Outcome.bind_eq_ok, Outcome.pure_eq_ok]
  constructor
  · rintro ⟨rows, hrows, rfl⟩
    exact ⟨(countRows_eq_ok hrows).1 ▸ hrows, rfl⟩
  · rintro ⟨hrows, rfl⟩
    exact ⟨_, hrows, rfl⟩

end HeadDecoder

end GridNet
