import Mathlib.Data.List.Basic
import TurtleDb.Lib.Bytes

/-!
# Buffers

A buffer is a list of bytes that is read and written in place. Reading past its end finds nothing,
and writing past it is refused; `getD i 0` is its content seen as a function.
-/

namespace TurtleDb.Lib

abbrev Buffer := List UInt8

namespace Buffer

/-- Overwrite the bytes from `off`. -/
def overwrite (b : Buffer) (off : Nat) (bs : List UInt8) : Buffer :=
  b.mapIdx fun i x => if off ≤ i ∧ i < off + bs.length then bs.getD (i - off) 0 else x

/-- The `len` bytes from `off`, if the buffer has them all. -/
def load (b : Buffer) (off len : Nat) : Option (List UInt8) :=
  if off + len ≤ b.length then some ((List.range len).map fun k => b.getD (off + k) 0) else none

/-- The buffer with the bytes from `off` overwritten, if it has room for them. -/
def store (b : Buffer) (off : Nat) (bs : List UInt8) : Option Buffer :=
  if off + bs.length ≤ b.length then some (b.overwrite off bs) else none

@[simp] theorem length_overwrite (b : Buffer) (off : Nat) (bs : List UInt8) :
    (b.overwrite off bs).length = b.length := by
  simp [overwrite]

theorem getD_overwrite {b : Buffer} {off : Nat} {bs : List UInt8}
    (h : off + bs.length ≤ b.length) (i : Nat) :
    (b.overwrite off bs).getD i 0 =
      if off ≤ i ∧ i < off + bs.length then bs.getD (i - off) 0 else b.getD i 0 := by
  unfold overwrite
  rw [List.getD_eq_getElem?_getD, List.getElem?_mapIdx]
  by_cases hi : i < b.length
  · simp [List.getElem?_eq_getElem hi, List.getD_eq_getElem?_getD]
  · rw [if_neg (by omega)]
    simp [List.getElem?_eq_none (Nat.not_lt.mp hi), List.getD_eq_getElem?_getD]

theorem load_eq_some {b : Buffer} {off len : Nat} {bs : List UInt8} :
    b.load off len = some bs ↔
      off + len ≤ b.length ∧ bs.length = len ∧ ∀ k < len, bs.getD k 0 = b.getD (off + k) 0 := by
  unfold load
  constructor
  · intro h
    split at h
    next hle =>
      cases h
      refine ⟨hle, by simp, ?_⟩
      intro k hk
      simp [List.getD_eq_getElem?_getD, List.getElem?_map, List.getElem?_range hk]
    next => cases h
  · rintro ⟨hle, hlen, hget⟩
    rw [if_pos hle]
    congr 1
    apply List.ext_getElem (by simp [hlen])
    intro k _ h2
    have hk := hget k (by omega)
    rw [List.getD_eq_getElem?_getD, List.getElem?_eq_getElem h2, Option.getD_some] at hk
    simp only [List.getElem_map, List.getElem_range, hk]

/-- All bytes of a list are zero when it agrees with a shift of itself that runs into zeros. -/
theorem getD_eq_zero_of_shift {f : Nat → UInt8} {len s : Nat} (hs : 0 < s)
    (hshift : ∀ k < len, f (k + s) = f k) (htail : ∀ q, len ≤ q → f q = 0) : ∀ q, f q = 0 := by
  have hbelow : ∀ n q, len ≤ q + n → f q = 0 := by
    intro n
    induction n with
    | zero => exact fun q hq => htail q (by omega)
    | succ n ih =>
        intro q hq
        by_cases hlt : q < len
        · rw [← hshift q hlt]
          exact ih (q + s) (by omega)
        · exact htail q (by omega)
  exact fun q => hbelow len q (by omega)

end Buffer

end TurtleDb.Lib
