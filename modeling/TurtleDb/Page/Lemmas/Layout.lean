import Mathlib.Algebra.BigOperators.Intervals
import Mathlib.Algebra.Order.BigOperators.Group.Finset
import Mathlib.Tactic.Linarith
import TurtleDb.Page.SlottedPage

/-!
# The layout of a slotted page

`RepInv` is the accounting that every operation keeps, and `slotBytes` the content of a slot. The
header setters and the slot array read back as written.
-/

namespace TurtleDb.Page.SlottedPage

open TurtleDb.Lib

/-- The bytes of the live tuples below slot `n`. -/
def liveBytes (p : PageData) (n : Nat) : Nat := ∑ i ∈ Finset.range n, slotLength p i

/-- The number of live tuples below slot `n`. -/
def liveCount (p : PageData) (n : Nat) : Nat :=
  ∑ i ∈ Finset.range n, if 0 < slotLength p i then 1 else 0

/-- What a slot holds: `none` if it is out of range or empty. -/
def slotBytes (p : PageData) (i : Nat) : Option (List UInt8) :=
  if isSlotOccupied p i then some (p.slice (slotOffset p i) (slotLength p i)) else none

/-- The representation invariant of a page. -/
structure RepInv (p : PageData) : Prop where
  slots_le : headerSize + slotSize * slotCount p ≤ freeSpacePointer p
  pointer_le : freeSpacePointer p ≤ pageSize
  bounds : ∀ i < slotCount p, 0 < slotLength p i →
    freeSpacePointer p ≤ slotOffset p i ∧ slotOffset p i + slotLength p i ≤ pageSize
  disjoint : ∀ i < slotCount p, ∀ j < slotCount p, i ≠ j → 0 < slotLength p i →
    0 < slotLength p j →
    slotOffset p i + slotLength p i ≤ slotOffset p j ∨
      slotOffset p j + slotLength p j ≤ slotOffset p i
  tuple_count : tupleCount p = liveCount p (slotCount p)
  accounting : freeSpacePointer p + liveBytes p (slotCount p) + deadSpace p = pageSize

theorem isSlotOccupied_iff {p : PageData} {i : Nat} :
    isSlotOccupied p i = true ↔ i < slotCount p ∧ 0 < slotLength p i := by
  simp [isSlotOccupied, Nat.pos_iff_ne_zero]

theorem slotBytes_of_live {p : PageData} {i : Nat} (h : i < slotCount p) (hl : 0 < slotLength p i) :
    slotBytes p i = some (p.slice (slotOffset p i) (slotLength p i)) := by
  rw [slotBytes, if_pos (isSlotOccupied_iff.mpr ⟨h, hl⟩)]

theorem slotBytes_eq_none_iff {p : PageData} {i : Nat} :
    slotBytes p i = none ↔ ¬ (i < slotCount p ∧ 0 < slotLength p i) := by
  rw [slotBytes, ← isSlotOccupied_iff]
  split <;> simp_all

theorem slotBytes_congr {p q : PageData} {i : Nat}
    (hc : (i < slotCount q ∧ 0 < slotLength q i) ↔ (i < slotCount p ∧ 0 < slotLength p i))
    (hl : i < slotCount p → 0 < slotLength p i → slotLength q i = slotLength p i)
    (hb : i < slotCount p → 0 < slotLength p i →
      q.slice (slotOffset q i) (slotLength p i) = p.slice (slotOffset p i) (slotLength p i)) :
    slotBytes q i = slotBytes p i := by
  by_cases h : i < slotCount p ∧ 0 < slotLength p i
  · have hq := hc.mpr h
    rw [slotBytes_of_live hq.1 hq.2, slotBytes_of_live h.1 h.2, hl h.1 h.2, hb h.1 h.2]
  · rw [slotBytes_eq_none_iff.mpr h, slotBytes_eq_none_iff.mpr (fun hq => h (hc.mp hq))]

/-! ## Sums over the slots -/

theorem liveBytes_succ (p : PageData) (n : Nat) :
    liveBytes p (n + 1) = liveBytes p n + slotLength p n := Finset.sum_range_succ _ _

theorem liveBytes_mono (p : PageData) {m n : Nat} (h : m ≤ n) : liveBytes p m ≤ liveBytes p n :=
  Finset.sum_le_sum_of_subset (Finset.range_mono h)

theorem slotLength_le_liveBytes {p : PageData} {i n : Nat} (h : i < n) :
    slotLength p i ≤ liveBytes p n :=
  Finset.single_le_sum (f := fun i => slotLength p i) (fun _ _ => Nat.zero_le _)
    (Finset.mem_range.mpr h)

theorem liveBytes_congr {p q : PageData} {n : Nat} (h : ∀ i < n, slotLength q i = slotLength p i) :
    liveBytes q n = liveBytes p n :=
  Finset.sum_congr rfl fun i hi => h i (Finset.mem_range.mp hi)

theorem liveCount_congr {p q : PageData} {n : Nat} (h : ∀ i < n, slotLength q i = slotLength p i) :
    liveCount q n = liveCount p n :=
  Finset.sum_congr rfl fun i hi => by rw [h i (Finset.mem_range.mp hi)]

theorem sum_slots_update {p q : PageData} {n s : Nat} (f : Nat → Nat) (hs : s < n)
    (h : ∀ i < n, i ≠ s → slotLength q i = slotLength p i) :
    (∑ i ∈ Finset.range n, f (slotLength q i)) + f (slotLength p s) =
      (∑ i ∈ Finset.range n, f (slotLength p i)) + f (slotLength q s) := by
  have hmem := Finset.mem_range.mpr hs
  rw [← Finset.add_sum_erase _ _ hmem, ← Finset.add_sum_erase _ (fun i => f (slotLength p i)) hmem]
  have hrest : ∑ i ∈ (Finset.range n).erase s, f (slotLength q i) =
      ∑ i ∈ (Finset.range n).erase s, f (slotLength p i) := by
    apply Finset.sum_congr rfl
    intro i hi
    have hi := Finset.mem_erase.mp hi
    rw [h i (Finset.mem_range.mp hi.2) hi.1]
  omega

theorem RepInv.slotCount_le {p : PageData} (h : RepInv p) : slotCount p ≤ 509 := by
  have h1 := h.slots_le
  have h2 := h.pointer_le
  unfold headerSize slotSize pageSize at *
  omega

/-- A slot of the array lies inside the page, below the data. -/
theorem RepInv.slotAddr_le {p : PageData} (h : RepInv p) {i : Nat} (hi : i < slotCount p) :
    slotAddr i + slotSize ≤ freeSpacePointer p := by
  have := h.slots_le
  unfold slotAddr headerSize slotSize at *
  omega

theorem RepInv.freeSpaceRemaining_eq {p : PageData} (h : RepInv p) :
    freeSpaceRemaining p = freeSpacePointer p - (headerSize + slotSize * slotCount p) := by
  have h1 := h.slots_le
  have h2 := h.slotCount_le
  unfold freeSpaceRemaining
  rw [Nat.mul_comm (slotCount p), trunc32_of_lt (by unfold headerSize slotSize word32; omega)]
  exact sub32_of_le (Block.u32_lt _ _) h1

theorem RepInv.usableSpace_eq {p : PageData} (h : RepInv p) :
    usableSpace p = freeSpacePointer p - (headerSize + slotSize * slotCount p) + deadSpace p := by
  have h1 := h.slots_le
  have h2 := h.accounting
  unfold usableSpace
  rw [h.freeSpaceRemaining_eq]
  apply add32_of_lt
  unfold pageSize word32 at *
  omega

/-- The usable space is what the live tuples and the slot array leave. -/
theorem RepInv.usableSpace_add {p : PageData} (h : RepInv p) :
    usableSpace p + (headerSize + slotSize * slotCount p) + liveBytes p (slotCount p) = pageSize := by
  have h1 := h.slots_le
  have h2 := h.accounting
  rw [h.usableSpace_eq]
  omega

/-! ## The first free slot -/

theorem reusableSlot_some {p : PageData} {s : Nat} (h : reusableSlot p = some s) :
    s < slotCount p ∧ slotLength p s = 0 ∧ ∀ i < s, 0 < slotLength p i := by
  unfold reusableSlot at h
  rw [List.find?_range_eq_some] at h
  obtain ⟨hz, hs, hlt⟩ := h
  refine ⟨List.mem_range.mp hs, by simpa using hz, ?_⟩
  intro i hi
  have := hlt i hi
  simp only [Bool.not_eq_eq_eq_not, Bool.not_true, beq_eq_false_iff_ne] at this
  omega

theorem reusableSlot_none {p : PageData} (h : reusableSlot p = none) :
    ∀ i < slotCount p, 0 < slotLength p i := by
  unfold reusableSlot at h
  intro i hi
  have := List.find?_eq_none.mp h i (List.mem_range.mpr hi)
  simp only [beq_iff_eq] at this
  omega

end TurtleDb.Page.SlottedPage
