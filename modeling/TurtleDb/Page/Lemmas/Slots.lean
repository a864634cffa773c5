import Mathlib.Data.List.Find
import TurtleDb.Lib.SlotTable
import TurtleDb.Page.Lemmas.Steps

/-!
# A page as a table of slots

`slots p` is what a page is for: a table with holes, of tuples. Each operation keeps `RepInv` and
acts on `slots p` as the operation of the table.
-/

namespace TurtleDb.Page.SlottedPage

open TurtleDb.Lib

/-- The table of the tuples a page holds. -/
def slots (p : PageData) : SlotTable (List UInt8) := (List.range (slotCount p)).map (slotBytes p)

/-- The bytes of the tuples in a table. -/
def bytesUsed (l : SlotTable (List UInt8)) : Nat :=
  ∑ i ∈ Finset.range l.length, ((l.get i).elim 0 List.length)

/-- A page with the slots `l` has room for one more tuple of `size` bytes. -/
def Fits (l : SlotTable (List UInt8)) (size : Nat) : Prop :=
  headerSize + slotSize * max l.length (l.free + 1) + bytesUsed l + size ≤ pageSize

instance (l : SlotTable (List UInt8)) (size : Nat) : Decidable (Fits l size) := by
  unfold Fits
  infer_instance

/-- What an operation on the slots leaves as it was: the identity of the page and its place in the
chain. -/
structure Keeps (p q : PageData) : Prop where
  page_id : pageId q = pageId p
  next : getNextPageId q = getNextPageId p
  inv : RepInv q

/-! ## The table -/

@[simp] theorem length_slots (p : PageData) : (slots p).length = slotCount p := by simp [slots]

theorem slotBytes_of_le {p : PageData} {i : Nat} (h : slotCount p ≤ i) : slotBytes p i = none :=
  slotBytes_eq_none_iff.mpr fun hi => Nat.not_lt.mpr h hi.1

theorem get_slots (p : PageData) (i : Nat) : (slots p).get i = slotBytes p i := by
  by_cases h : i < slotCount p
  · simp [slots, SlotTable.get, h]
  · rw [SlotTable.get_eq_none_of_le (by rw [length_slots]; omega), slotBytes_of_le (by omega)]

theorem hole_slots (p : PageData) : (slots p).hole = reusableSlot p := by
  unfold SlotTable.hole reusableSlot
  rw [length_slots]
  apply List.find?_congr
  intro i hi
  rw [List.mem_range] at hi
  have hiff : slotBytes p i = none ↔ slotLength p i = 0 := by
    rw [slotBytes_eq_none_iff]
    omega
  rw [get_slots, Bool.eq_iff_iff, Option.isNone_iff_eq_none, hiff, beq_iff_eq]

theorem free_slots (p : PageData) : (slots p).free = (reusableSlot p).getD (slotCount p) := by
  rw [SlotTable.free, hole_slots, length_slots]

theorem slotFor_reusableSlot (p : PageData) : SlotFor p (reusableSlot p) (slots p).free := by
  rw [free_slots]
  cases h : reusableSlot p with
  | none => exact .inl ⟨rfl, rfl⟩
  | some s =>
      obtain ⟨hlt, hz, _⟩ := reusableSlot_some h
      exact .inr ⟨rfl, hlt, hz⟩

theorem length_slotBytes (p : PageData) {i : Nat} (h : i < slotCount p) :
    (slotBytes p i).elim 0 List.length = slotLength p i := by
  by_cases hl : 0 < slotLength p i
  · rw [slotBytes_of_live h hl, Option.elim_some, Block.length_slice]
  · rw [slotBytes_eq_none_iff.mpr (fun hi => hl hi.2), Option.elim_none]
    omega

theorem bytesUsed_slots (p : PageData) : bytesUsed (slots p) = liveBytes p (slotCount p) := by
  unfold bytesUsed liveBytes
  rw [length_slots]
  apply Finset.sum_congr rfl
  intro i hi
  rw [get_slots, length_slotBytes p (Finset.mem_range.mp hi)]

/-! ## Placing -/

theorem SlotFor.le {p : PageData} {reusable : Option Nat} {s : Nat} (h : SlotFor p reusable s) :
    s ≤ slotCount p := by
  rcases h with ⟨_, rfl⟩ | ⟨_, hlt, _⟩ <;> omega

/-- A placement adds its tuple to the sum of any function of the lengths. -/
theorem Placed.sum_slots {p q : PageData} {s : Nat} {tuple : List UInt8} {reusable : Option Nat}
    (h : Placed p q s tuple) (hs : SlotFor p reusable s) (f : Nat → Nat) (hf : f 0 = 0) :
    ∑ i ∈ Finset.range (slotCount q), f (slotLength q i) =
      (∑ i ∈ Finset.range (slotCount p), f (slotLength p i)) + f tuple.length := by
  rw [h.slot_count]
  rcases hs with ⟨_, rfl⟩ | ⟨_, hlt, hz⟩
  · rw [Nat.max_eq_right (by omega), Finset.sum_range_succ, h.length]
    congr 1
    apply Finset.sum_congr rfl
    intro i hi
    rw [Finset.mem_range] at hi
    rw [h.other_length i hi (by omega)]
  · have hupd := sum_slots_update f hlt h.other_length
    rw [hz, hf, h.length] at hupd
    rw [Nat.max_eq_left (by omega)]
    omega

theorem Placed.repInv {p q : PageData} {s : Nat} {tuple : List UInt8} {reusable : Option Nat}
    (h : Placed p q s tuple) (hp : RepInv p) (hs : SlotFor p reusable s) (ht : 0 < tuple.length)
    (hroom : headerSize + slotSize * max (slotCount p) (s + 1) ≤ freeSpacePointer q) :
    RepInv q := by
  have hle := hs.le
  have hptr := h.pointer
  have hpp := hp.pointer_le
  have hother : ∀ i < slotCount q, i ≠ s → i < slotCount p := by
    intro i hi hne
    rw [h.slot_count] at hi
    omega
  constructor
  case slots_le => rw [h.slot_count]; exact hroom
  case pointer_le => omega
  case bounds =>
    intro i hi hl
    by_cases hne : i = s
    · subst hne
      rw [h.offset, h.length]
      omega
    · have hip := hother i hi hne
      rw [h.other_length i hip hne] at hl ⊢
      rw [h.other_offset i hip hne]
      have := hp.bounds i hip hl
      omega
  case disjoint =>
    intro i hi j hj hij hli hlj
    by_cases his : i = s
    · subst his
      have hjp := hother j hj (by omega)
      rw [h.other_length j hjp (by omega)] at hlj ⊢
      rw [h.other_offset j hjp (by omega), h.offset, h.length]
      have := hp.bounds j hjp hlj
      omega
    by_cases hjs : j = s
    · subst hjs
      have hip := hother i hi (by omega)
      rw [h.other_length i hip (by omega)] at hli ⊢
      rw [h.other_offset i hip (by omega), h.offset, h.length]
      have := hp.bounds i hip hli
      omega
    have hip := hother i hi his
    have hjp := hother j hj hjs
    rw [h.other_length i hip his] at hli ⊢
    rw [h.other_length j hjp hjs] at hlj ⊢
    rw [h.other_offset i hip his, h.other_offset j hjp hjs]
    exact hp.disjoint i hip j hjp hij hli hlj
  case tuple_count =>
    have hsum := h.sum_slots hs (fun n => if 0 < n then 1 else 0) rfl
    rw [if_pos ht] at hsum
    rw [h.tuple_count, hp.tuple_count]
    exact hsum.symm
  case accounting =>
    have hsum := h.sum_slots hs id rfl
    have hacc := hp.accounting
    simp only [id_eq] at hsum
    unfold liveBytes at hacc ⊢
    rw [h.dead, hsum]
    omega

theorem Placed.slots_eq {p q : PageData} {s : Nat} {tuple : List UInt8} (h : Placed p q s tuple)
    (hp : RepInv p) (hs : s = (slots p).free) (ht : 0 < tuple.length) :
    slots q = (slots p).insert tuple := by
  have hle := (slotFor_reusableSlot p).le
  rw [← hs] at hle
  apply SlotTable.ext_get
  · rw [SlotTable.length_insert, length_slots, length_slots, h.slot_count, hs]
  intro i
  rw [SlotTable.get_insert, get_slots, get_slots, ← hs]
  by_cases hi : i = s
  · subst hi
    have hlt : i < slotCount q := by rw [h.slot_count]; omega
    rw [if_pos rfl, slotBytes_of_live hlt (by rw [h.length]; exact ht), h.length, h.offset, h.bytes]
  · rw [if_neg hi]
    have hcount := h.slot_count
    apply slotBytes_congr
    · by_cases hip : i < slotCount p
      · rw [h.other_length i hip hi, hcount]
        omega
      · have : ¬ i < slotCount q := by omega
        simp [hip, this]
    · intro hip _
      exact h.other_length i hip hi
    · intro hip hl
      rw [h.other_offset i hip hi]
      apply Block.slice_congr
      intro k _
      have := (hp.bounds i hip hl).1
      exact h.above _ (by omega)

/-! ## Deleting -/

theorem Deleted.repInv {p q : PageData} {s : Nat} (h : Deleted p q s) (hp : RepInv p)
    (hs : s < slotCount p) (hl : 0 < slotLength p s) : RepInv q := by
  have hlive : ∀ i, i < slotCount p → 0 < slotLength q i → i ≠ s := by
    rintro i _ hi rfl
    rw [h.length] at hi
    omega
  constructor
  case slots_le => rw [h.slot_count, h.pointer]; exact hp.slots_le
  case pointer_le => rw [h.pointer]; exact hp.pointer_le
  case bounds =>
    intro i hi hli
    rw [h.slot_count] at hi
    have hne := hlive i hi hli
    rw [h.other_length i hi hne] at hli ⊢
    rw [h.offset i hi, h.pointer]
    exact hp.bounds i hi hli
  case disjoint =>
    intro i hi j hj hij hli hlj
    rw [h.slot_count] at hi hj
    have hni := hlive i hi hli
    have hnj := hlive j hj hlj
    rw [h.other_length i hi hni] at hli ⊢
    rw [h.other_length j hj hnj] at hlj ⊢
    rw [h.offset i hi, h.offset j hj]
    exact hp.disjoint i hi j hj hij hli hlj
  case tuple_count =>
    have hsum := sum_slots_update (fun n => if 0 < n then 1 else 0) hs h.other_length
    have htc := h.tuple_count
    have hptc := hp.tuple_count
    simp only [h.length, hl, if_true, Nat.lt_irrefl, if_false] at hsum
    rw [h.slot_count]
    unfold liveCount at hptc ⊢
    omega
  case accounting =>
    have hsum := sum_slots_update id hs h.other_length
    have hacc := hp.accounting
    simp only [id_eq, h.length] at hsum
    rw [h.slot_count, h.pointer, h.dead]
    unfold liveBytes at hacc ⊢
    omega

theorem Deleted.slots_eq {p q : PageData} {s : Nat} (h : Deleted p q s) (hp : RepInv p) :
    slots q = (slots p).erase s := by
  apply SlotTable.ext_get
  · rw [SlotTable.length_erase, length_slots, length_slots, h.slot_count]
  intro i
  rw [SlotTable.get_erase, get_slots, get_slots]
  by_cases hi : i = s
  · subst hi
    rw [if_pos rfl, slotBytes_eq_none_iff, h.length]
    omega
  · rw [if_neg hi]
    apply slotBytes_congr
    · rw [h.slot_count]
      constructor
      · rintro ⟨hip, hl⟩
        exact ⟨hip, by rwa [h.other_length i hip hi] at hl⟩
      · rintro ⟨hip, hl⟩
        exact ⟨hip, by rwa [h.other_length i hip hi]⟩
    · intro hip _
      exact h.other_length i hip hi
    · intro hip hl
      rw [h.offset i hip]
      apply Block.slice_congr
      intro k _
      have := (hp.bounds i hip hl).1
      exact h.above _ (by omega)

/-! ## Compacting -/

theorem Compacted.slotBytes_eq {p q : PageData} (h : Compacted p q) (i : Nat) :
    slotBytes q i = slotBytes p i := by
  apply slotBytes_congr
  · rw [h.slot_count]
    constructor
    · rintro ⟨hip, hl⟩
      exact ⟨hip, by rwa [h.length i hip] at hl⟩
    · rintro ⟨hip, hl⟩
      exact ⟨hip, by rwa [h.length i hip]⟩
  · intro hip _
    exact h.length i hip
  · exact h.bytes i

theorem Compacted.slots_eq {p q : PageData} (h : Compacted p q) : slots q = slots p := by
  apply SlotTable.ext_get
  · rw [length_slots, length_slots, h.slot_count]
  · intro i
    rw [get_slots, get_slots, h.slotBytes_eq]

end TurtleDb.Page.SlottedPage
