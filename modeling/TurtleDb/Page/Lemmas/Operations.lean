import TurtleDb.Page.Lemmas.Slots

/-!
# The operations of a page

One theorem for each operation and outcome: what it returns, that `RepInv` is kept, and what it does
to the table of slots.
-/

namespace TurtleDb.Page.SlottedPage

open TurtleDb.Lib

/-- The largest tuple whose size and slot fit into 32 bits together. -/
def maxInsertSize : Nat := 4294967287

/-! ## Initialisation -/

theorem init_fields (p : PageData) (page : PageId) (h : page < word32) :
    pageId (init p page) = page ∧ getNextPageId (init p page) = invalidPageId ∧
      slotCount (init p page) = 0 ∧ tupleCount (init p page) = 0 ∧
      freeSpacePointer (init p page) = pageSize ∧ deadSpace (init p page) = deadSpace p := by
  unfold init pageId getNextPageId slotCount tupleCount freeSpacePointer deadSpace setPageId
    setNextPageId setSlotCount setTupleCount setFreeSpacePointer
  refine ⟨?_, ?_, ?_, ?_, ?_, ?_⟩
  · rw [Block.u32_putU32_of_disjoint (by omega), Block.u32_putU32_of_disjoint (by omega),
      Block.u32_putU32_of_disjoint (by omega), Block.u32_putU32_of_disjoint (by omega),
      Block.u32_putU32_self h (by decide)]
  · rw [Block.u32_putU32_of_disjoint (by omega), Block.u32_putU32_of_disjoint (by omega),
      Block.u32_putU32_of_disjoint (by omega), Block.u32_putU32_self (by decide) (by decide)]
  · rw [Block.u32_putU32_of_disjoint (by omega), Block.u32_putU32_of_disjoint (by omega),
      Block.u32_putU32_self (by decide) (by decide)]
  · rw [Block.u32_putU32_of_disjoint (by omega), Block.u32_putU32_self (by decide) (by decide)]
  · rw [Block.u32_putU32_self (by decide) (by decide)]
  · rw [Block.u32_putU32_of_disjoint (by omega), Block.u32_putU32_of_disjoint (by omega),
      Block.u32_putU32_of_disjoint (by omega), Block.u32_putU32_of_disjoint (by omega),
      Block.u32_putU32_of_disjoint (by omega)]

/-- A page starts out well formed only where its `dead_space_` bytes were zero. -/
theorem init_repInv {p : PageData} {page : PageId} (hp : deadSpace p = 0) (h : page < word32) :
    RepInv (init p page) := by
  obtain ⟨_, _, hcount, htc, hptr, hdead⟩ := init_fields p page h
  constructor
  case slots_le => rw [hcount, hptr]; decide
  case pointer_le => rw [hptr]
  case bounds => intro i hi; omega
  case disjoint => intro i hi; omega
  case tuple_count => rw [htc, hcount]; rfl
  case accounting => rw [hptr, hcount, hdead, hp]; rfl

theorem init_slots (p : PageData) {page : PageId} (h : page < word32) :
    slots (init p page) = [] := by
  rw [slots, (init_fields p page h).2.2.1]
  rfl

/-- A page of zeros is all that initialisation needs. -/
theorem init_zero_repInv {page : PageId} (h : page < word32) : RepInv (init Block.zero page) := by
  refine init_repInv ?_ h
  unfold deadSpace Block.u32 Block.slice
  simp [Block.byte_zero]
  rfl

/-- What is left of an empty page for one tuple. -/
theorem fits_nil {size : Nat} : Fits [] size ↔ size ≤ 4064 := by
  have hfree : SlotTable.free ([] : SlotTable (List UInt8)) = 0 := rfl
  have hused : bytesUsed [] = 0 := rfl
  unfold Fits
  rw [hfree, hused, headerSize_eq, slotSize_eq, pageSize_eq, List.length_nil]
  omega

/-- A tuple in a page has a byte at least, and an empty page could hold it. -/
theorem RepInv.length_slot {p : PageData} (h : RepInv p) {i : Nat} {bytes : List UInt8}
    (hget : (slots p).get i = some bytes) : 0 < bytes.length ∧ bytes.length ≤ 4064 := by
  rw [get_slots] at hget
  have hlive : i < slotCount p ∧ 0 < slotLength p i := by
    by_contra hno
    rw [slotBytes_eq_none_iff.mpr hno] at hget
    cases hget
  obtain ⟨hi, hpos⟩ := hlive
  rw [slotBytes_of_live hi hpos] at hget
  have hlength := congrArg List.length (Option.some.inj hget)
  rw [Block.length_slice] at hlength
  have hslots := h.slots_le
  have hbounds := h.bounds i hi hpos
  rw [headerSize_eq, slotSize_eq] at hslots
  rw [pageSize_eq] at hbounds
  omega

/-- What is left beside one tuple. -/
theorem fits_singleton {bytes : List UInt8} {size : Nat} :
    Fits [some bytes] size ↔ bytes.length + size ≤ 4056 := by
  have hfree : SlotTable.free [some bytes] = 1 := rfl
  have hused : bytesUsed [some bytes] = bytes.length := by
    simp [bytesUsed, SlotTable.get]
  unfold Fits
  rw [hfree, hused, headerSize_eq, slotSize_eq, pageSize_eq, List.length_singleton]
  omega

/-! ## The link to the next page -/

/-- The link plays no part in the slots. -/
theorem setNextPageId_keeps {p : PageData} (h : RepInv p) {v : PageId} (hv : v < word32) :
    pageId (setNextPageId p v) = pageId p ∧ getNextPageId (setNextPageId p v) = v ∧
      RepInv (setNextPageId p v) ∧ slots (setNextPageId p v) = slots p := by
  have hword : ∀ {a : Nat}, a + 4 ≤ 4 ∨ 8 ≤ a → (setNextPageId p v).u32 a = p.u32 a := fun ha =>
    Block.u32_putU32_of_disjoint (by omega)
  have hcount : slotCount (setNextPageId p v) = slotCount p := hword (by omega)
  have hoff : ∀ i, slotOffset (setNextPageId p v) i = slotOffset p i := fun i =>
    hword (by unfold slotAddr headerSize; omega)
  have hlen : ∀ i, slotLength (setNextPageId p v) i = slotLength p i := fun i =>
    hword (by unfold slotAddr headerSize; omega)
  have hptr : freeSpacePointer (setNextPageId p v) = freeSpacePointer p := hword (by omega)
  have hdead : deadSpace (setNextPageId p v) = deadSpace p := hword (by omega)
  refine ⟨hword (by omega), Block.u32_putU32_self hv (by decide), ?_, ?_⟩
  · constructor
    case slots_le => rw [hcount, hptr]; exact h.slots_le
    case pointer_le => rw [hptr]; exact h.pointer_le
    case bounds => simpa only [hcount, hlen, hoff, hptr] using h.bounds
    case disjoint => simpa only [hcount, hlen, hoff] using h.disjoint
    case tuple_count =>
      rw [hcount, liveCount_congr fun i _ => hlen i]
      exact (hword (by omega)).trans h.tuple_count
    case accounting =>
      rw [hcount, hptr, hdead, liveBytes_congr fun i _ => hlen i]
      exact h.accounting
  · unfold slots
    rw [hcount]
    refine List.map_congr_left fun i _ => slotBytes_congr (by rw [hcount, hlen]) (fun _ _ => hlen i)
      fun hi hl => ?_
    rw [hoff]
    have hbound := (h.bounds i hi hl).1
    have hle := h.slots_le
    rw [headerSize_eq] at hle
    exact Block.slice_putU32_of_disjoint (by omega)

/-! ## Making room -/

theorem spaceNeeded_eq (p : PageData) {size : Nat} (h : size ≤ maxInsertSize) :
    slotSize * slotCount p + spaceNeeded p size =
      slotSize * max (slotCount p) ((slots p).free + 1) + size := by
  have hfree := free_slots p
  have hle := (slotFor_reusableSlot p).le
  unfold maxInsertSize at h
  have ht : ∀ k ≤ 8, trunc32 (size + k) = size + k :=
    fun k hk => trunc32_of_lt (by rw [word32_eq]; omega)
  unfold spaceNeeded
  rw [slotSize_eq, ht _ (by split <;> omega)]
  cases hr : reusableSlot p with
  | none =>
      rw [hr, Option.getD_none] at hfree
      rw [hfree, if_pos rfl, Nat.max_eq_right (by omega)]
      omega
  | some s =>
      have hlt := (reusableSlot_some hr).1
      rw [hr, Option.getD_some] at hfree
      rw [hfree, if_neg (by simp), Nat.max_eq_left (by omega)]
      omega

/-- The usable space suffices exactly when the table has room. -/
theorem RepInv.fits_iff {p : PageData} (h : RepInv p) {size : Nat} (hs : size ≤ maxInsertSize) :
    Fits (slots p) size ↔ spaceNeeded p size ≤ usableSpace p := by
  have hu := h.usableSpace_add
  have hn := spaceNeeded_eq p hs
  unfold Fits
  rw [length_slots, bytesUsed_slots]
  omega

theorem RepInv.usableSpace_of_dead {p : PageData} (h : RepInv p) (hd : deadSpace p = 0) :
    usableSpace p = freeSpaceRemaining p := by
  rw [h.usableSpace_eq, h.freeSpaceRemaining_eq, hd, Nat.add_zero]

/-- `r` is `p`, possibly compacted, with `needed` bytes free in front of its tuples. -/
structure Roomy (p r : PageData) (needed : Nat) : Prop where
  keeps : Keeps p r
  slot_count : slotCount r = slotCount p
  slots_eq : slots r = slots p
  enough : needed ≤ freeSpaceRemaining r

theorem makeRoom_roomy {p : PageData} (h : RepInv p) {needed : Nat} (hn : needed ≤ usableSpace p) :
    ∃ r, makeRoom p needed = .ok (some r) ∧ Roomy p r needed := by
  by_cases hf : freeSpaceRemaining p < needed
  · obtain ⟨r, hr, hc⟩ := compact_ok h
    refine ⟨r, by simp only [makeRoom, hf, if_true, ge_iff_le, hn, hr, ok_bind]; rfl, ?_⟩
    refine ⟨⟨hc.page_id, hc.next, hc.inv⟩, hc.slot_count, hc.slots_eq, ?_⟩
    -- compaction turns all the usable space into free space
    have hp := h.usableSpace_add
    have hq := hc.inv.usableSpace_add
    rw [hc.slot_count, liveBytes_congr hc.length] at hq
    rw [← hc.inv.usableSpace_of_dead hc.dead]
    omega
  · exact ⟨p, by simp only [makeRoom, hf, if_false], ⟨rfl, rfl, h⟩, rfl, rfl, by omega⟩

theorem makeRoom_none {p : PageData} (h : RepInv p) {needed : Nat} (hn : usableSpace p < needed) :
    makeRoom p needed = .ok none := by
  have hu := h.usableSpace_eq
  have hf : freeSpaceRemaining p < needed := by
    rw [h.freeSpaceRemaining_eq]
    omega
  simp only [makeRoom, hf, if_true, ge_iff_le, Nat.not_le.mpr hn, if_false]

/-- A roomy page has the space for the tuple between the slot array, with the slot the tuple gets,
and the tuples it holds. -/
theorem Roomy.room {p r : PageData} {size : Nat} (h : Roomy p r (spaceNeeded p size))
    (hs : size ≤ maxInsertSize) :
    headerSize + slotSize * max (slotCount r) ((slots p).free + 1) + size ≤ freeSpacePointer r := by
  have hn := spaceNeeded_eq p hs
  have he := h.enough
  have hle := h.keeps.inv.slots_le
  rw [h.keeps.inv.freeSpaceRemaining_eq] at he
  rw [h.slot_count] at *
  omega

theorem Roomy.slotFor {p r : PageData} {needed : Nat} (h : Roomy p r needed) :
    SlotFor r (reusableSlot p) (slots p).free := by
  have hr := slotFor_reusableSlot r
  rwa [← hole_slots, h.slots_eq, hole_slots] at hr

/-! ## Insertion -/

theorem insertTuple_fits {p : PageData} (h : RepInv p) {tuple : List UInt8}
    (hpos : 0 < tuple.length) (hmax : tuple.length ≤ maxInsertSize)
    (hfits : Fits (slots p) tuple.length) :
    ∃ q, insertTuple p tuple = .ok (some ⟨pageId p, (slots p).free⟩, q) ∧ Keeps p q ∧
      slots q = (slots p).insert tuple := by
  obtain ⟨r, hr, hroomy⟩ := makeRoom_roomy h ((h.fits_iff hmax).mp hfits)
  have hroom := hroomy.room hmax
  have hslot := hroomy.slotFor
  obtain ⟨q, hq, hplaced⟩ := place_ok hroomy.keeps.inv hslot hroom
  have hptr := hplaced.pointer
  have hinv := hplaced.repInv hroomy.keeps.inv hslot hpos (by omega)
  have hslots := hplaced.slots_eq hroomy.keeps.inv (by rw [hroomy.slots_eq]) hpos
  rw [hroomy.slots_eq] at hslots
  refine ⟨q, ?_, ⟨?_, ?_, hinv⟩, hslots⟩
  · simp only [insertTuple, hr, ok_bind, hq, hroomy.keeps.page_id]
    rfl
  · rw [hplaced.page_id, hroomy.keeps.page_id]
  · rw [hplaced.next, hroomy.keeps.next]

theorem insertTuple_full {p : PageData} (h : RepInv p) {tuple : List UInt8}
    (hmax : tuple.length ≤ maxInsertSize) (hfull : ¬ Fits (slots p) tuple.length) :
    insertTuple p tuple = .ok (none, p) := by
  rw [h.fits_iff hmax, Nat.not_le] at hfull
  simp only [insertTuple, makeRoom_none h hfull, ok_bind]
  rfl

/-! ## Deletion -/

theorem deleteTuple_valid {p : PageData} (h : RepInv p) {rid : RecordId}
    (hid : rid.pageId = pageId p) (hs : rid.slotNum < slotCount p) :
    ∃ q, deleteTuple p rid = .ok q ∧ Keeps p q ∧ slots q = (slots p).erase rid.slotNum := by
  by_cases hl : 0 < slotLength p rid.slotNum
  · obtain ⟨q, hq, hd⟩ := deleteTuple_ok h hid hs hl
    exact ⟨q, hq, ⟨hd.page_id, hd.next, hd.repInv h hs hl⟩, hd.slots_eq h⟩
  · refine ⟨p, deleteTuple_empty hid hs (by omega), ⟨rfl, rfl, h⟩, ?_⟩
    apply SlotTable.ext_get (by simp)
    intro i
    rw [SlotTable.get_erase]
    split
    · subst i
      rw [get_slots, slotBytes_eq_none_iff]
      omega
    · rfl

/-! ## Reading -/

theorem tuple_live {p : PageData} (h : RepInv p) {rid : RecordId} {bytes : List UInt8}
    (hid : rid.pageId = pageId p) (hb : (slots p).get rid.slotNum = some bytes) :
    tuple p rid = .ok bytes := by
  rw [get_slots] at hb
  by_cases hl : rid.slotNum < slotCount p ∧ 0 < slotLength p rid.slotNum
  · have hbound := (h.bounds _ hl.1 hl.2).2
    rw [slotBytes_of_live hl.1 hl.2] at hb
    have hne : slotLength p rid.slotNum ≠ 0 := by omega
    rw [tuple, validateRecordId_ok hid hl.1, ok_bind, if_neg hne, load_ok hbound]
    exact congrArg _ (Option.some.inj hb)
  · rw [slotBytes_eq_none_iff.mpr hl] at hb
    exact absurd hb (by simp)

theorem tuple_dead {p : PageData} {rid : RecordId} (hb : (slots p).get rid.slotNum = none) :
    ∃ message, tuple p rid = .error (.raised message) := by
  rw [get_slots, slotBytes_eq_none_iff] at hb
  by_cases hv : rid.pageId = pageId p ∧ rid.slotNum < slotCount p
  · have hz : slotLength p rid.slotNum = 0 := by omega
    refine ⟨"Slot is empty (deleted tuple)", ?_⟩
    rw [tuple, validateRecordId_ok hv.1 hv.2, ok_bind, if_pos hz]
  · refine ⟨"Invalid RID for this page", ?_⟩
    rw [tuple, validateRecordId_error hv, error_bind]

end TurtleDb.Page.SlottedPage
