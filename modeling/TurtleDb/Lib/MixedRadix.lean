import Mathlib.Data.List.Lex

/-!
# Mixed radix

A number written with a radix of its own for every digit. The digits come out again, and the numbers
are in the order of their digits, from the leading one on.
-/

namespace TurtleDb.Lib.MixedRadix

/-- The number with the leading digit `n` and the digits `ds` behind it, whose radices are `rs`. -/
def encode : List Nat → Nat → List Nat → Nat
  | r :: rs, n, d :: ds => encode rs (n * r + d) ds
  | _, n, _ => n

/-- The digits of a number, taken from the lowest on. -/
def decode : List Nat → Nat → List Nat
  | [], n => [n]
  | r :: rs, n =>
      match decode rs n with
      | m :: ds => m / r :: m % r :: ds
      | [] => []

/-- Every digit is below its radix. -/
def Digits : List Nat → List Nat → Prop := List.Forall₂ fun r d => d < r

variable {r n m d e : Nat} {rs ds es : List Nat}

theorem digit_lt_digit (hd : d < r) (he : e < r) :
    n * r + d < m * r + e ↔ n < m ∨ n = m ∧ d < e := by
  -- a larger leading digit is a whole radix more
  have hstep : ∀ {a b : Nat}, a < b → a * r + r ≤ b * r := fun {a b} h => by
    rw [← Nat.succ_mul]
    exact Nat.mul_le_mul_right r h
  rcases Nat.lt_trichotomy n m with h | rfl | h
  · have := hstep h
    omega
  · omega
  · have := hstep h
    omega

theorem digit_inj (hd : d < r) (he : e < r) : n * r + d = m * r + e ↔ n = m ∧ d = e := by
  have hlt := digit_lt_digit (n := n) (m := m) hd he
  have hgt := digit_lt_digit (n := m) (m := n) he hd
  omega

theorem encode_lt_encode (hd : Digits rs ds) (he : Digits rs es) :
    encode rs n ds < encode rs m es ↔ n :: ds < m :: es := by
  induction hd generalizing n m es with
  | nil =>
      cases he
      simp [encode, List.cons_lt_cons_iff]
  | cons hd _ ih =>
      cases he with
      | cons he hes =>
          rw [encode, encode, ih hes]
          simp only [List.cons_lt_cons_iff, digit_lt_digit hd he, digit_inj hd he]
          tauto

/-- Two leading digits, in the one order or the other, give the same lexicographic order of two
numbers exactly if one of them is common, or both compare alike. -/
theorem swapped_iff {α β : Type} [Preorder α] [Preorder β] {a a' : α} {b b' : β} {later : Prop} :
    ((a < a' ∨ a = a' ∧ (b < b' ∨ b = b' ∧ later)) ↔
        (b < b' ∨ b = b' ∧ (a < a' ∨ a = a' ∧ later))) ↔
      a = a' ∨ b = b' ∨ (a < a' ↔ b < b') := by
  by_cases ha : a = a'
  · simp [ha]
  · by_cases hb : b = b'
    · simp [hb]
    · simp [ha, hb]

theorem encode_inj (hd : Digits rs ds) (he : Digits rs es) :
    encode rs n ds = encode rs m es ↔ n :: ds = m :: es := by
  induction hd generalizing n m es with
  | nil =>
      cases he
      simp [encode]
  | cons hd _ ih =>
      cases he with
      | cons he hes =>
          rw [encode, encode, ih hes]
          simp only [List.cons.injEq, digit_inj hd he, and_assoc]

theorem decode_encode (hd : Digits rs ds) : decode rs (encode rs n ds) = n :: ds := by
  induction hd generalizing n with
  | nil => rfl
  | @cons r d _ _ hd _ ih =>
      have hdiv : (n * r + d) / r = n := by
        rw [Nat.mul_comm, Nat.mul_add_div (Nat.zero_lt_of_lt hd), Nat.div_eq_of_lt hd, Nat.add_zero]
      have hmod : (n * r + d) % r = d := by rw [Nat.mul_comm, Nat.mul_add_mod, Nat.mod_eq_of_lt hd]
      rw [encode, decode, ih]
      simp only [hdiv, hmod]

end TurtleDb.Lib.MixedRadix
