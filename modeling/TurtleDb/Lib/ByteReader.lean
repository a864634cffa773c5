import TurtleDb.Lib.Bytes

/-!
# Reading bytes in sequence

An input stream over the bytes of a file: what is ahead, and whether its error bits are clear. A
read that finds too few bytes keeps them and fails the stream; a failed stream reads nothing.
-/

namespace TurtleDb.Lib

structure ByteReader where
  rest : List UInt8
  good : Bool
  deriving DecidableEq, Repr

namespace ByteReader

/-- A stream just opened. -/
def ofBytes (bytes : List UInt8) : ByteReader := { rest := bytes, good := true }

@[simp] theorem good_ofBytes (bytes : List UInt8) : (ofBytes bytes).good = true := rfl

/-- Reading into a variable that holds `old`: what it holds then. -/
def read (r : ByteReader) (old : List UInt8) : List UInt8 × ByteReader :=
  if r.good then
    let bytes := r.rest.take old.length
    (bytes ++ old.drop bytes.length,
      { rest := r.rest.drop old.length, good := decide (old.length ≤ r.rest.length) })
  else (old, r)

/-- Reading a word of `k` bytes into a variable that holds `old`. -/
def readWord (r : ByteReader) (k old : Nat) : Nat × ByteReader :=
  let (bytes, r) := r.read (leBytes k old)
  (leNat bytes, r)

theorem read_append {bytes old : List UInt8} (h : bytes.length = old.length) (tail : List UInt8) :
    (ofBytes (bytes ++ tail)).read old = (bytes, ofBytes tail) := by
  have htake : (bytes ++ tail).take old.length = bytes := by
    rw [← h, List.take_left]
  have hdrop : (bytes ++ tail).drop old.length = tail := by
    rw [← h, List.drop_left]
  simp [read, ofBytes, htake, hdrop, h]

theorem readWord_append {k v : Nat} (h : v < 256 ^ k) (old : Nat) (tail : List UInt8) :
    (ofBytes (leBytes k v ++ tail)).readWord k old = (v, ofBytes tail) := by
  rw [readWord, read_append (by simp) tail]
  simp only [leNat_leBytes, Nat.mod_eq_of_lt h]

/-! ## Streams that end early -/

/-- The stream over the first `c` bytes of a file when `m` bytes have been asked for, `rest` being
what the whole file has behind them. -/
def cut (rest : List UInt8) (m c : Nat) : ByteReader :=
  if m ≤ c then ofBytes (rest.take (c - m)) else { rest := [], good := false }

theorem cut_zero (bytes : List UInt8) (c : Nat) : cut bytes 0 c = ofBytes (bytes.take c) := rfl

theorem good_cut (rest : List UInt8) (m c : Nat) : (cut rest m c).good = decide (m ≤ c) := by
  rw [cut]
  split
  next h => simp [h]
  next h => simp [h]

/-- What is there of the bytes is read, and the variable keeps the rest of what it held. -/
theorem read_cut {bytes old : List UInt8} (h : bytes.length = old.length) (tail : List UInt8)
    (m c : Nat) :
    (cut (bytes ++ tail) m c).read old =
      (bytes.take (c - m) ++ old.drop (c - m), cut tail (m + bytes.length) c) := by
  by_cases hm : m ≤ c
  · obtain ⟨k, rfl⟩ := Nat.exists_eq_add_of_le hm
    rw [cut, if_pos hm, Nat.add_sub_cancel_left, read, if_pos (good_ofBytes _), cut]
    by_cases hk : bytes.length ≤ k
    · have htake : ((bytes ++ tail).take k).take old.length = bytes := by
        rw [List.take_take, ← h, Nat.min_eq_left hk, List.take_left]
      have hdrop : ((bytes ++ tail).take k).drop old.length = tail.take (k - bytes.length) := by
        rw [← h, List.take_append, List.take_of_length_le hk, List.drop_left]
      have hsub : m + k - (m + bytes.length) = k - bytes.length := by omega
      have hlen : old.length ≤ ((bytes ++ tail).take k).length := by
        rw [List.length_take, List.length_append]
        omega
      simp only [ofBytes, htake, hdrop, hlen, decide_true, List.take_of_length_le hk, hsub,
        List.drop_of_length_le (h ▸ hk), List.drop_of_length_le (Nat.le_of_eq h.symm)]
      rw [if_pos (by omega)]
    · have htake : (bytes ++ tail).take k = bytes.take k :=
        List.take_append_of_le_length (by omega)
      have hlen : (bytes.take k).length = k := by
        rw [List.length_take]
        omega
      have hshort : ¬ old.length ≤ k := by omega
      simp only [ofBytes, htake, hlen, hshort, decide_false,
        List.take_of_length_le (show (bytes.take k).length ≤ old.length by omega),
        List.drop_of_length_le (show (bytes.take k).length ≤ old.length by omega)]
      rw [if_neg (by omega)]
  · rw [cut, if_neg hm, read, if_neg (by simp), cut, if_neg (by omega)]
    have hz : c - m = 0 := by omega
    rw [hz, List.take_zero, List.drop_zero, List.nil_append]

/-- From the end of the file nothing is read, and the stream fails. -/
theorem read_end {old : List UInt8} (h : old ≠ []) (m c : Nat) :
    (cut [] m c).read old = (old, cut [] (c + 1) c) := by
  have hlen : ¬ old.length ≤ 0 := by
    rw [Nat.le_zero, List.length_eq_zero_iff]
    exact h
  have hend : cut [] (c + 1) c = { rest := [], good := false } := if_neg (by omega)
  rw [hend, cut]
  split
  · simp [read, ofBytes, hlen]
  · rfl

theorem readWord_cut (k v old : Nat) (tail : List UInt8) (m c : Nat) :
    (cut (leBytes k v ++ tail) m c).readWord k old =
      (leNat ((leBytes k v).take (c - m) ++ (leBytes k old).drop (c - m)),
        cut tail (m + k) c) := by
  rw [readWord, read_cut (by simp) tail, length_leBytes]

end ByteReader

end TurtleDb.Lib
