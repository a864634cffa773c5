import Mathlib.Data.List.Range
import TurtleDb.Lib.Bytes

/-!
# Blocks of raw memory

A block is a fixed number of bytes. `put` overwrites a run of bytes, `slice` reads one, and `u32`
and `putU32` do the same for a little-endian 32-bit word laid over the block.
-/

namespace TurtleDb.Lib

def Block (n : Nat) : Type := Fin n → UInt8

namespace Block

variable {n : Nat}

def zero : Block n := fun _ => 0

/-- Byte `i`. Past the end there is no byte; the value there is never meaningful. -/
def byte (p : Block n) (i : Nat) : UInt8 := if h : i < n then p ⟨i, h⟩ else 0

def put (p : Block n) (off : Nat) (bs : List UInt8) : Block n := fun i =>
  if off ≤ i.val ∧ i.val < off + bs.length then bs.getD (i.val - off) 0 else p i

def slice (p : Block n) (off len : Nat) : List UInt8 :=
  (List.range len).map fun k => p.byte (off + k)

def u32 (p : Block n) (off : Nat) : Nat := leNat (p.slice off 4)

def putU32 (p : Block n) (off v : Nat) : Block n := p.put off (leBytes 4 v)

/-! ## Bytes -/

@[simp] theorem byte_zero (i : Nat) : (zero : Block n).byte i = 0 := by
  unfold byte zero
  split <;> rfl

theorem ext_byte {p q : Block n} (h : ∀ i < n, p.byte i = q.byte i) : p = q := by
  funext i
  have := h i.val i.isLt
  simpa [byte, i.isLt] using this

theorem byte_put (p : Block n) (off : Nat) (bs : List UInt8) (i : Nat) (hi : i < n) :
    (p.put off bs).byte i =
      if off ≤ i ∧ i < off + bs.length then bs.getD (i - off) 0 else p.byte i := by
  simp [byte, hi, put]

theorem byte_put_of_disjoint {p : Block n} {off : Nat} {bs : List UInt8} {i : Nat}
    (h : i < off ∨ off + bs.length ≤ i) : (p.put off bs).byte i = p.byte i := by
  by_cases hi : i < n
  · rw [byte_put p off bs i hi, if_neg (by omega)]
  · simp [byte, hi]

/-! ## Slices -/

@[simp] theorem length_slice (p : Block n) (off len : Nat) : (p.slice off len).length = len := by
  simp [slice]

theorem getD_slice (p : Block n) (off : Nat) {len k : Nat} (hk : k < len) :
    (p.slice off len).getD k 0 = p.byte (off + k) := by
  simp [slice, List.getD_eq_getElem?_getD, List.getElem?_map, List.getElem?_range hk]

theorem slice_congr {p q : Block n} {a b len : Nat}
    (h : ∀ k < len, p.byte (a + k) = q.byte (b + k)) : p.slice a len = q.slice b len := by
  apply List.map_congr_left
  intro k hk
  exact h k (List.mem_range.mp hk)

theorem slice_put_of_disjoint {p : Block n} {off a len : Nat} {bs : List UInt8}
    (h : a + len ≤ off ∨ off + bs.length ≤ a) : (p.put off bs).slice a len = p.slice a len := by
  apply slice_congr
  intro k hk
  exact byte_put_of_disjoint (by omega)

theorem slice_put_self {p : Block n} {off : Nat} {bs : List UInt8} (h : off + bs.length ≤ n) :
    (p.put off bs).slice off bs.length = bs := by
  apply List.ext_getElem (by simp)
  intro k h1 h2
  have hb : (p.put off bs).byte (off + k) = bs.getD k 0 := by
    rw [byte_put p off bs _ (by omega), if_pos (by omega), Nat.add_sub_cancel_left]
  simp only [slice, List.getElem_map, List.getElem_range, hb]
  simp [List.getD_eq_getElem?_getD, h2]

/-! ## Words -/

theorem u32_lt (p : Block n) (off : Nat) : p.u32 off < word32 := by
  have h := leNat_lt (p.slice off 4)
  rw [length_slice] at h
  exact h

theorem u32_congr {p q : Block n} {a b : Nat} (h : ∀ k < 4, p.byte (a + k) = q.byte (b + k)) :
    p.u32 a = q.u32 b := by
  unfold u32
  rw [slice_congr h]

theorem u32_put_of_disjoint {p : Block n} {off a : Nat} {bs : List UInt8}
    (h : a + 4 ≤ off ∨ off + bs.length ≤ a) : (p.put off bs).u32 a = p.u32 a := by
  unfold u32
  rw [slice_put_of_disjoint h]

theorem u32_putU32_of_disjoint {p : Block n} {off a v : Nat}
    (h : a + 4 ≤ off ∨ off + 4 ≤ a) : (p.putU32 off v).u32 a = p.u32 a :=
  u32_put_of_disjoint (by simpa using h)

theorem u32_putU32_self {p : Block n} {off v : Nat} (hv : v < word32) (h : off + 4 ≤ n) :
    (p.putU32 off v).u32 off = v := by
  have hs : (p.putU32 off v).slice off 4 = leBytes 4 v := by
    have hself : (p.put off (leBytes 4 v)).slice off (leBytes 4 v).length = leBytes 4 v :=
      slice_put_self (by simpa using h)
    simpa [putU32] using hself
  unfold u32
  rw [hs, leNat_leBytes]
  exact Nat.mod_eq_of_lt (by simpa [word32] using hv)

theorem slice_putU32_of_disjoint {p : Block n} {off a len v : Nat}
    (h : a + len ≤ off ∨ off + 4 ≤ a) : (p.putU32 off v).slice a len = p.slice a len :=
  slice_put_of_disjoint (by simpa using h)

theorem byte_putU32_of_disjoint {p : Block n} {off i v : Nat} (h : i < off ∨ off + 4 ≤ i) :
    (p.putU32 off v).byte i = p.byte i :=
  byte_put_of_disjoint (by simpa using h)

end Block

end TurtleDb.Lib
