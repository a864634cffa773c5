import TurtleDb.Lib.Block

/-!
# File streams

A file is its bytes, and a stream on it a position with the two error bits that reading and writing
may set. The operations do what the C++ standard says of `std::fstream` on a disk that never fails.
-/

namespace TurtleDb.Lib

/-! ## Files -/

structure File where
  size : Nat
  byte : Nat → UInt8

namespace File

def empty : File := { size := 0, byte := fun _ => 0 }

/-- Byte `i`, zero past the end. -/
def get (f : File) (i : Nat) : UInt8 := if i < f.size then f.byte i else 0

/-- Overwrite `n` bytes at `off`. A gap between the old end and `off` fills with zeros. -/
def write {n : Nat} (f : File) (off : Nat) (data : Block n) : File where
  size := max f.size (off + n)
  byte i := if off ≤ i ∧ i < off + n then data.byte (i - off) else f.get i

theorem get_write {n : Nat} (f : File) (off : Nat) (data : Block n) (i : Nat) :
    (f.write off data).get i =
      if off ≤ i ∧ i < off + n then data.byte (i - off) else f.get i := by
  change (if i < max f.size (off + n) then
    if off ≤ i ∧ i < off + n then data.byte (i - off) else f.get i else 0) = _
  by_cases hlt : i < max f.size (off + n)
  · rw [if_pos hlt]
  · rw [if_neg hlt, if_neg (by omega), get, if_neg (by omega)]

end File

/-! ## Streams -/

structure Fstream where
  pos : Nat
  eofbit : Bool
  failbit : Bool
  deriving DecidableEq, Repr

namespace Fstream

/-- A stream just opened. -/
def opened : Fstream := { pos := 0, eofbit := false, failbit := false }

def good (s : Fstream) : Bool := !s.eofbit && !s.failbit

def fail (s : Fstream) : Bool := s.failbit

def clear (s : Fstream) : Fstream := { s with eofbit := false, failbit := false }

/-- `seekg` clears `eofbit` first; a failed stream stays where it is. -/
def seekg (s : Fstream) (off : Nat) : Fstream :=
  let s := { s with eofbit := false }
  if s.fail then s else { s with pos := off }

/-- `seekp` clears nothing; a stream that is not good only fails. -/
def seekp (s : Fstream) (off : Nat) : Fstream :=
  if s.good then { s with pos := off } else { s with failbit := true }

/-- Up to `n` bytes from the position, as many as `gcount` then says. -/
def read (s : Fstream) (f : File) (n : Nat) : List UInt8 × Fstream :=
  if s.good then
    let count := min n (f.size - s.pos)
    let short := decide (count < n)
    ((List.range count).map fun k => f.byte (s.pos + k),
      { pos := s.pos + count, eofbit := short, failbit := short })
  else ([], { s with failbit := true })

def write {n : Nat} (s : Fstream) (f : File) (data : Block n) : File × Fstream :=
  if s.good then (f.write s.pos data, { s with pos := s.pos + n })
  else (f, { s with failbit := true })

theorem seekg_of_fail {s : Fstream} (h : s.failbit = true) (off : Nat) :
    (s.seekg off).good = false := by
  simp [seekg, fail, good, h]

theorem seekg_of_ok {s : Fstream} (h : s.failbit = false) (off : Nat) :
    s.seekg off = { pos := off, eofbit := false, failbit := false } := by
  simp [seekg, fail, h]

theorem seekp_of_fail {s : Fstream} (h : s.failbit = true) (off : Nat) :
    (s.seekp off).good = false := by
  simp [seekp, good, h]

theorem seekp_of_ok {s : Fstream} (he : s.eofbit = false) (h : s.failbit = false) (off : Nat) :
    s.seekp off = { pos := off, eofbit := false, failbit := false } := by
  simp [seekp, good, he, h]

theorem good_at (off : Nat) :
    ({ pos := off, eofbit := false, failbit := false } : Fstream).good = true := rfl

theorem write_of_good {n : Nat} {s : Fstream} (h : s.good = true) (f : File) (data : Block n) :
    s.write f data = (f.write s.pos data, { s with pos := s.pos + n }) := if_pos h

/-- What a good stream reads, padded with zeros, is what the file holds there. -/
theorem byte_put_read {n : Nat} (f : File) (off i : Nat) (hi : i < n) :
    ((Block.zero : Block n).put 0
      (({ pos := off, eofbit := false, failbit := false } : Fstream).read f n).1).byte i =
        f.get (off + i) := by
  have hread : (({ pos := off, eofbit := false, failbit := false } : Fstream).read f n).1 =
      (List.range (min n (f.size - off))).map fun k => f.byte (off + k) := rfl
  rw [hread, Block.byte_put _ _ _ _ hi, List.length_map, List.length_range, File.get]
  by_cases h : off + i < f.size
  · rw [if_pos (by omega), if_pos h]
    have hlt : i < min n (f.size - off) := by omega
    simp [List.getD_eq_getElem?_getD, List.getElem?_map, List.getElem?_range hlt]
  · rw [if_neg (by omega), if_neg h, Block.byte_zero]

end Fstream

end TurtleDb.Lib
