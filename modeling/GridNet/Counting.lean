import GridNet.Failure

/-!
# Counting

Sums and products of sizes are taken among words of 64 bits. One that leaves this range is not cut
to it: the computation breaks down. What has been counted is therefore the exact number, so that a
size can be defined without a bound and be counted where the program needs it.

* `Word.fit` — a number that is in range.
* `Word.add`, `Word.sub`, `Word.mul`, `Word.product` — arithmetic that breaks down.
* `Word.add_eq_ok`, `Word.product_eq_ok`, … — what has been counted is exact.
* `Word.add_of_lt`, `Word.product_of_lt`, … — what is in range is counted.
-/

namespace GridNet.Word

/-- The number, if it is a word. -/
def fit (n : Nat) : Outcome Nat :=
  if n < modulus then .ok n else .error .brokenDown

/-- The sum of two sizes. -/
def add (a b : Nat) : Outcome Nat := fit (a + b)

/-- The difference of two sizes. -/
def sub (a b : Nat) : Outcome Nat :=
  if b ≤ a then .ok (a - b) else .error .brokenDown

/-- The product of two sizes. -/
def mul (a b : Nat) : Outcome Nat := fit (a * b)

/-- The product of several sizes, taken from the left. -/
def product (a : Nat) (ns : List Nat) : Outcome Nat := ns.foldlM mul a

/-! ## What has been counted -/

variable {a b n : Nat} {ns : List Nat}

theorem fit_eq_ok : fit a = .ok n ↔ a < modulus ∧ a = n := by
  by_cases h : a < modulus <;> simp [fit, h]

theorem add_eq_ok : add a b = .ok n ↔ a + b < modulus ∧ a + b = n := fit_eq_ok

theorem mul_eq_ok : mul a b = .ok n ↔ a * b < modulus ∧ a * b = n := fit_eq_ok

theorem product_cons : product a (b :: ns) = (mul a b >>= fun c => product c ns) :=
  List.foldlM_cons ..

/-- A product that has been counted is exact, and a word unless no product was taken. -/
theorem product_eq_ok (h : product a ns = .ok n) :
    ns.foldl (· * ·) a = n ∧ (ns ≠ [] → n < modulus) := by
  induction ns generalizing a with
  | nil =>
    obtain rfl := Except.ok.inj h
    exact ⟨rfl, fun hne => absurd rfl hne⟩
  | cons b rest ih =>
    rw [product_cons] at h
    cases hb : mul a b with
    | error e =>
      rw [hb] at h
      cases h
    | ok c =>
      rw [hb] at h
      obtain ⟨hc, rfl⟩ := mul_eq_ok.mp hb
      obtain ⟨rfl, hrest⟩ := ih h
      refine ⟨rfl, fun _ => ?_⟩
      -- behind the last factor the product is the one that has just been counted
      cases rest with
      | nil => exact hc
      | cons => exact hrest (List.cons_ne_nil _ _)

/-! ## What is in range -/

theorem add_of_lt (h : a + b < modulus) : add a b = .ok (a + b) := if_pos h

theorem mul_of_lt (h : a * b < modulus) : mul a b = .ok (a * b) := if_pos h

theorem sub_of_le (h : b ≤ a) : sub a b = .ok (a - b) := if_pos h

/-- A product of positive sizes is not smaller than the products on the way. -/
theorem le_foldl_mul (hns : ∀ n ∈ ns, 0 < n) : a ≤ ns.foldl (· * ·) a := by
  induction ns generalizing a with
  | nil => exact Nat.le_refl a
  | cons b rest ih =>
    have hfirst : a ≤ a * b := Nat.le_mul_of_pos_right a (hns b List.mem_cons_self)
    exact Nat.le_trans hfirst (ih fun n hn => hns n (List.mem_cons_of_mem _ hn))

/-- A product of positive sizes is counted if it is in range. -/
theorem product_of_lt (hns : ∀ n ∈ ns, 0 < n) (h : ns.foldl (· * ·) a < modulus) :
    product a ns = .ok (ns.foldl (· * ·) a) := by
  induction ns generalizing a with
  | nil => rfl
  | cons b rest ih =>
    have hrest : ∀ n ∈ rest, 0 < n := fun n hn => hns n (List.mem_cons_of_mem _ hn)
    have hfirst : a * b < modulus := Nat.lt_of_le_of_lt (le_foldl_mul hrest) h
    rw [product_cons, mul_of_lt hfirst]
    exact ih hrest h

end GridNet.Word
