import Mathlib.Data.List.Basic
import Mathlib.Tactic.Ring

/-!
# Fixed-width words and little-endian bytes

Unsigned 32-bit arithmetic on natural numbers, and the little-endian encoding of a number in a
given number of bytes.
-/

namespace TurtleDb.Lib

/-! ## 32-bit arithmetic -/

/-- One past the largest 32-bit word. -/
def word32 : Nat := 4294967296

/-- Truncation to 32 bits. -/
def trunc32 (a : Nat) : Nat := a % word32

def add32 (a b : Nat) : Nat := (a + b) % word32

/-- `a - b` on 32-bit words: wraps around when `b` exceeds `a`. -/
def sub32 (a b : Nat) : Nat := (a + (word32 - b % word32)) % word32

theorem trunc32_of_lt {a : Nat} (h : a < word32) : trunc32 a = a := Nat.mod_eq_of_lt h

theorem trunc32_lt (a : Nat) : trunc32 a < word32 := Nat.mod_lt _ (by decide)

theorem add32_of_lt {a b : Nat} (h : a + b < word32) : add32 a b = a + b := Nat.mod_eq_of_lt h

theorem sub32_of_le {a b : Nat} (ha : a < word32) (h : b ≤ a) : sub32 a b = a - b := by
  unfold sub32 word32 at *
  omega

theorem add32_lt (a b : Nat) : add32 a b < word32 := Nat.mod_lt _ (by decide)

/-! ## Little-endian bytes -/

/-- The low `k` bytes of `v`, least significant first. -/
def leBytes : Nat → Nat → List UInt8
  | 0, _ => []
  | k + 1, v => UInt8.ofNat v :: leBytes k (v / 256)

/-- The number a list of bytes stands for, least significant byte first. -/
def leNat : List UInt8 → Nat
  | [] => 0
  | b :: bs => b.toNat + 256 * leNat bs

@[simp] theorem length_leBytes (k v : Nat) : (leBytes k v).length = k := by
  induction k generalizing v with
  | zero => rfl
  | succ k ih => simp [leBytes, ih]

theorem leNat_leBytes (k v : Nat) : leNat (leBytes k v) = v % 256 ^ k := by
  induction k generalizing v with
  | zero => simp [leBytes, leNat, Nat.mod_one]
  | succ k ih =>
      have hb : (UInt8.ofNat v).toNat = v % 256 := by simp
      rw [leBytes, leNat, ih, hb, Nat.pow_succ, Nat.mul_comm (256 ^ k) 256, Nat.mod_mul]

theorem leNat_lt (bs : List UInt8) : leNat bs < 256 ^ bs.length := by
  induction bs with
  | nil => simp [leNat]
  | cons b bs ih =>
      have hb : b.toNat < 256 := b.toNat_lt
      rw [leNat, List.length_cons, Nat.pow_succ]
      omega

theorem leBytes_leNat (bs : List UInt8) : leBytes bs.length (leNat bs) = bs := by
  induction bs with
  | nil => rfl
  | cons b bs ih =>
      have hb : b.toNat < 256 := b.toNat_lt
      have hdiv : (b.toNat + 256 * leNat bs) / 256 = leNat bs := by omega
      have hhead : UInt8.ofNat (b.toNat + 256 * leNat bs) = b := by
        apply UInt8.toNat_inj.mp
        simp
      rw [List.length_cons, leBytes, leNat, hdiv, ih, hhead]

theorem leNat_eq_zero {bs : List UInt8} : leNat bs = 0 ↔ ∀ b ∈ bs, b = 0 := by
  induction bs with
  | nil => simp [leNat]
  | cons b bs ih =>
      have hb : b.toNat = 0 ↔ b = 0 :=
        ⟨fun h => UInt8.toNat_inj.mp (by simpa using h), by rintro rfl; rfl⟩
      simp only [leNat, List.mem_cons, forall_eq_or_imp]
      rw [← hb, ← ih]
      omega

end TurtleDb.Lib
