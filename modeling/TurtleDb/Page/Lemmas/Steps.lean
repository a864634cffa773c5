import TurtleDb.Page.Lemmas.Layout

/-!
# What each operation writes

One structure for each way an operation changes a page (`Placed`, `Deleted`, `Compacted`), and the
theorem that the operation changes the page in that way.
-/

namespace TurtleDb.Page.SlottedPage

open TurtleDb.Lib

theorem headerSize_eq : headerSize = 24 := rfl
theorem slotSize_eq : slotSize = 8 := rfl
theorem pageSize_eq : pageSize = 4096 := rfl
theorem word32_eq : word32 = 4294967296 := rfl

theorem store_ok {p : PageData} {off : Nat} {bs : List UInt8} (h : off + bs.length ≤ pageSize) :
    store p off bs = .ok (p.put off bs) := if_pos h

theorem load_ok {p : PageData} {off len : Nat} (h : off + len ≤ pageSize) :
    load p off len = .ok (p.slice off len) := if_pos h

/-! ## Placing a tuple -/

/-- `q` is `p` with `tuple` put in slot `s`, at the new free space pointer. -/
structure Placed (p q : PageData) (s : Nat) (tuple : List UInt8) : Prop where
  page_id : pageId q = pageId p
  next : getNextPageId q = getNextPageId p
  slot_count : slotCount q = max (slotCount p) (s + 1)
  tuple_count : tupleCount q = tupleCount p + 1
  pointer : freeSpacePointer q + tuple.length = freeSpacePointer p
  dead : deadSpace q = deadSpace p
  offset : slotOffset q s = freeSpacePointer q
  length : slotLength q s = tuple.length
  other_offset : ∀ i < slotCount p, i ≠ s → slotOffset q i = slotOffset p i
  other_length : ∀ i < slotCount p, i ≠ s → slotLength q i = slotLength p i
  bytes : q.slice (freeSpacePointer q) tuple.length = tuple
  above : ∀ i, freeSpacePointer p ≤ i → q.byte i = p.byte i

/-- The slot a placement uses is the reusable one or the next new one. -/
def SlotFor (p : PageData) (reusable : Option Nat) (s : Nat) : Prop :=
  (reusable = none ∧ s = slotCount p) ∨
    (reusable = some s ∧ s < slotCount p ∧ slotLength p s = 0)

theorem SlotFor.getD {p : PageData} {reusable : Option Nat} {s : Nat} (h : SlotFor p reusable s) :
    reusable.getD (slotCount p) = s := by
  rcases h with ⟨rfl, rfl⟩ | ⟨rfl, _, _⟩ <;> rfl

/-- A placement puts its tuple in a slot that held none. -/
theorem SlotFor.empty {p : PageData} {reusable : Option Nat} {s : Nat} (h : SlotFor p reusable s) :
    slotBytes p s = none := by
  rw [slotBytes_eq_none_iff]
  rcases h with ⟨_, rfl⟩ | ⟨_, _, hz⟩ <;> omega

theorem slotCount_prepareSlot {p : PageData} {reusable : Option Nat} {s : Nat}
    (h : SlotFor p reusable s) (hc : slotCount p + 1 < word32) :
    slotCount (prepareSlot p reusable) = max (slotCount p) (s + 1) := by
  rcases h with ⟨rfl, rfl⟩ | ⟨rfl, hlt, _⟩
  · have hadd : add32 (slotCount p) 1 = slotCount p + 1 := add32_of_lt hc
    have hset : slotCount (setSlotCount p (slotCount p + 1)) = slotCount p + 1 :=
      Block.u32_putU32_self hc (by decide)
    rw [prepareSlot, Option.isNone_none, if_pos rfl, hadd, hset]
    omega
  · rw [prepareSlot, Option.isNone_some, if_neg (by simp)]
    omega

theorem byte_prepareSlot {p : PageData} {reusable : Option Nat} {i : Nat} (h : i < 8 ∨ 12 ≤ i) :
    (prepareSlot p reusable).byte i = p.byte i := by
  unfold prepareSlot
  split
  · exact Block.byte_putU32_of_disjoint (by omega)
  · rfl

theorem u32_prepareSlot {p : PageData} {reusable : Option Nat} {a : Nat} (h : a + 4 ≤ 8 ∨ 12 ≤ a) :
    (prepareSlot p reusable).u32 a = p.u32 a :=
  Block.u32_congr fun k hk => byte_prepareSlot (by omega)

/-- The page `writeTuple` ends with, when the tuple goes to `off` and its slot is `s`. -/
def placedPage (p : PageData) (off s : Nat) (tuple : List UInt8) (c : Nat) : PageData :=
  setTupleCount ((((setFreeSpacePointer p off).put off tuple).putU32 (slotAddr s) off).putU32
    (slotAddr s + 4) tuple.length) c

section
variable {p : PageData} {off s c : Nat} {tuple : List UInt8}

theorem u32_placedPage {a : Nat} (hs : slotAddr s + slotSize ≤ off) (ha : a + 4 ≤ 12 ∨ 20 ≤ a)
    (h1 : a + 4 ≤ slotAddr s ∨ slotAddr s + slotSize ≤ a)
    (h2 : a + 4 ≤ off ∨ off + tuple.length ≤ a) :
    (placedPage p off s tuple c).u32 a = p.u32 a := by
  have := slotSize_eq
  unfold placedPage setTupleCount setFreeSpacePointer
  rw [Block.u32_putU32_of_disjoint (by omega), Block.u32_putU32_of_disjoint (by omega),
    Block.u32_putU32_of_disjoint (by omega), Block.u32_put_of_disjoint (by omega),
    Block.u32_putU32_of_disjoint (by omega)]

theorem byte_placedPage {i : Nat} (hs : slotAddr s + slotSize ≤ off) (hi : off + tuple.length ≤ i) :
    (placedPage p off s tuple c).byte i = p.byte i := by
  simp only [slotAddr, headerSize_eq, slotSize_eq] at hs
  unfold placedPage setTupleCount setFreeSpacePointer slotAddr
  simp only [headerSize_eq, slotSize_eq]
  rw [Block.byte_putU32_of_disjoint (by omega), Block.byte_putU32_of_disjoint (by omega),
    Block.byte_putU32_of_disjoint (by omega), Block.byte_put_of_disjoint (by omega),
    Block.byte_putU32_of_disjoint (by omega)]

theorem slice_placedPage (hs : slotAddr s + slotSize ≤ off) (ho : off + tuple.length ≤ pageSize) :
    (placedPage p off s tuple c).slice off tuple.length = tuple := by
  simp only [slotAddr, headerSize_eq, slotSize_eq] at hs
  unfold placedPage setTupleCount setFreeSpacePointer slotAddr
  simp only [headerSize_eq, slotSize_eq]
  rw [Block.slice_putU32_of_disjoint (by omega), Block.slice_putU32_of_disjoint (by omega),
    Block.slice_putU32_of_disjoint (by omega), Block.slice_put_self ho]

/-- The fields `writeTuple` writes read back as written. -/
theorem fields_placedPage (hs : slotAddr s + slotSize ≤ off) (ho : off + tuple.length ≤ pageSize)
    (hc : c < word32) :
    slotOffset (placedPage p off s tuple c) s = off ∧
      slotLength (placedPage p off s tuple c) s = tuple.length ∧
      freeSpacePointer (placedPage p off s tuple c) = off ∧
      tupleCount (placedPage p off s tuple c) = c := by
  simp only [slotAddr, headerSize_eq, slotSize_eq, pageSize_eq, word32_eq] at hs ho hc
  unfold placedPage setTupleCount setFreeSpacePointer slotOffset slotLength freeSpacePointer
    tupleCount slotAddr
  simp only [headerSize_eq, slotSize_eq]
  have hlen : tuple.length < word32 := by rw [word32_eq]; omega
  have hoff : off < word32 := by rw [word32_eq]; omega
  refine ⟨?_, ?_, ?_, ?_⟩
  · rw [Block.u32_putU32_of_disjoint (by omega), Block.u32_putU32_of_disjoint (by omega),
      Block.u32_putU32_self hoff (by rw [pageSize_eq]; omega)]
  · rw [Block.u32_putU32_of_disjoint (by omega),
      Block.u32_putU32_self hlen (by rw [pageSize_eq]; omega)]
  · rw [Block.u32_putU32_of_disjoint (by omega), Block.u32_putU32_of_disjoint (by omega),
      Block.u32_putU32_of_disjoint (by omega), Block.u32_put_of_disjoint (by omega),
      Block.u32_putU32_self hoff (by decide)]
  · exact Block.u32_putU32_self hc (by decide)

end

theorem liveCount_le (p : PageData) (n : Nat) : liveCount p n ≤ n := by
  have h := Finset.sum_le_card_nsmul (Finset.range n)
    (fun i => if 0 < slotLength p i then 1 else 0) 1 (fun i _ => by split <;> omega)
  simpa [liveCount] using h

theorem writeTuple_eq {p : PageData} {s : Nat} {tuple : List UInt8}
    (hlen : tuple.length ≤ freeSpacePointer p) (hptr : freeSpacePointer p ≤ pageSize)
    (haddr : slotAddr s + slotSize ≤ freeSpacePointer p - tuple.length)
    (hcount : tupleCount p + 1 < word32) :
    writeTuple p s tuple =
      .ok (placedPage p (freeSpacePointer p - tuple.length) s tuple (tupleCount p + 1)) := by
  rw [pageSize_eq] at hptr
  have h24 : 24 ≤ slotAddr s := by simp only [slotAddr, headerSize_eq]; omega
  rw [slotSize_eq] at haddr
  have hsub : sub32 (freeSpacePointer p) tuple.length = freeSpacePointer p - tuple.length :=
    sub32_of_le (Block.u32_lt _ _) hlen
  have hoff : freeSpacePointer (setFreeSpacePointer p (freeSpacePointer p - tuple.length)) =
      freeSpacePointer p - tuple.length :=
    Block.u32_putU32_self (by rw [word32_eq]; omega) (by decide)
  have htc : tupleCount ((((setFreeSpacePointer p (freeSpacePointer p - tuple.length)).put
      (freeSpacePointer p - tuple.length) tuple).put (slotAddr s)
        (leBytes 4 (freeSpacePointer p - tuple.length))).put (slotAddr s + 4)
          (leBytes 4 tuple.length)) = tupleCount p := by
    unfold tupleCount setFreeSpacePointer
    rw [Block.u32_put_of_disjoint (by rw [length_leBytes]; omega),
      Block.u32_put_of_disjoint (by rw [length_leBytes]; omega),
      Block.u32_put_of_disjoint (by omega), Block.u32_putU32_of_disjoint (by omega)]
  simp only [writeTuple, hsub, hoff]
  rw [store_ok (by rw [pageSize_eq]; omega), ok_bind,
    store_ok (by rw [length_leBytes, pageSize_eq]; omega), ok_bind,
    store_ok (by rw [length_leBytes, pageSize_eq]; omega), ok_bind, htc, add32_of_lt hcount]
  rfl

theorem place_ok {p : PageData} {reusable : Option Nat} {s : Nat} {tuple : List UInt8}
    (h : RepInv p) (hs : SlotFor p reusable s)
    (hroom : headerSize + slotSize * max (slotCount p) (s + 1) + tuple.length ≤ freeSpacePointer p) :
    ∃ q, place p reusable tuple = .ok (⟨pageId p, s⟩, q) ∧ Placed p q s tuple := by
  have hptr := h.pointer_le
  have hcount := h.slotCount_le
  have hlive := liveCount_le p (slotCount p)
  simp only [headerSize_eq, slotSize_eq, pageSize_eq] at hptr hroom
  have h24 : ∀ i, 24 ≤ slotAddr i := by
    intro i
    simp only [slotAddr, headerSize_eq]
    omega
  have haddr : slotAddr s + slotSize ≤ freeSpacePointer p - tuple.length := by
    simp only [slotAddr, headerSize_eq, slotSize_eq]
    omega
  have hbelow : ∀ i < slotCount p, slotAddr i + slotSize ≤ freeSpacePointer p - tuple.length := by
    intro i hi
    simp only [slotAddr, headerSize_eq, slotSize_eq]
    omega
  have hne : ∀ i, i ≠ s →
      slotAddr i + slotSize ≤ slotAddr s ∨ slotAddr s + slotSize ≤ slotAddr i := by
    intro i hi
    simp only [slotAddr, slotSize_eq]
    omega
  have hcount0 : tupleCount (prepareSlot p reusable) = tupleCount p := u32_prepareSlot (by omega)
  have hptr0 : freeSpacePointer (prepareSlot p reusable) = freeSpacePointer p :=
    u32_prepareSlot (by omega)
  have htc : tupleCount p + 1 < word32 := by
    rw [h.tuple_count, word32_eq]
    omega
  have hw : writeTuple (prepareSlot p reusable) s tuple =
      .ok (placedPage (prepareSlot p reusable) (freeSpacePointer p - tuple.length) s tuple
        (tupleCount p + 1)) := by
    rw [writeTuple_eq (by omega) (by rw [pageSize_eq]; omega) (by rw [hptr0]; exact haddr)
      (by rw [hcount0]; exact htc), hptr0, hcount0]
  have hend : freeSpacePointer p - tuple.length + tuple.length ≤ pageSize := by
    rw [pageSize_eq]
    omega
  obtain ⟨hoff, hlen, hfsp, htc'⟩ := fields_placedPage (p := prepareSlot p reusable) haddr hend htc
  have hslice := slice_placedPage (p := prepareSlot p reusable) (c := tupleCount p + 1) haddr hend
  have hu32 : ∀ a, (a + 4 ≤ 12 ∨ 20 ≤ a) → (a + 4 ≤ slotAddr s ∨ slotAddr s + slotSize ≤ a) →
      a + 4 ≤ freeSpacePointer p - tuple.length →
      (placedPage (prepareSlot p reusable) (freeSpacePointer p - tuple.length) s tuple
        (tupleCount p + 1)).u32 a = (prepareSlot p reusable).u32 a :=
    fun a h1 h2 h3 => u32_placedPage haddr h1 h2 (by omega)
  have habove : ∀ i, freeSpacePointer p ≤ i →
      (placedPage (prepareSlot p reusable) (freeSpacePointer p - tuple.length) s tuple
        (tupleCount p + 1)).byte i = p.byte i := by
    intro i hi
    rw [byte_placedPage haddr (by omega)]
    exact byte_prepareSlot (by have := h24 s; rw [slotSize_eq] at haddr; omega)
  simp only [place, hs.getD, hw, ok_bind]
  generalize placedPage (prepareSlot p reusable) (freeSpacePointer p - tuple.length) s tuple
    (tupleCount p + 1) = q at *
  rw [slotSize_eq] at haddr hbelow hne hu32
  have hs24 := h24 s
  have hid : pageId q = pageId p :=
    (hu32 0 (by omega) (by omega) (by omega)).trans (u32_prepareSlot (by omega))
  have hother : ∀ a, 24 ≤ a → (a + 4 ≤ slotAddr s ∨ slotAddr s + 8 ≤ a) →
      a + 4 ≤ freeSpacePointer p - tuple.length → q.u32 a = p.u32 a :=
    fun a h1 h2 h3 => (hu32 a (by omega) h2 h3).trans (u32_prepareSlot (by omega))
  refine ⟨q, by rw [hid]; rfl, ?_⟩
  constructor
  case page_id => exact hid
  case next => exact (hu32 4 (by omega) (by omega) (by omega)).trans (u32_prepareSlot (by omega))
  case slot_count =>
    exact (hu32 8 (by omega) (by omega) (by omega)).trans
      (slotCount_prepareSlot hs (by rw [word32_eq]; omega))
  case tuple_count => exact htc'
  case pointer => rw [hfsp]; omega
  case dead => exact (hu32 20 (by omega) (by omega) (by omega)).trans (u32_prepareSlot (by omega))
  case offset => rw [hoff, hfsp]
  case length => exact hlen
  case other_offset =>
    intro i hi hi'
    have h24i := h24 i
    have hb := hbelow i hi
    have hn := hne i hi'
    exact hother _ (by omega) (by omega) (by omega)
  case other_length =>
    intro i hi hi'
    have h24i := h24 i
    have hb := hbelow i hi
    have hn := hne i hi'
    exact hother _ (by omega) (by omega) (by omega)
  case bytes => rw [hfsp]; exact hslice
  case above => exact habove

/-! ## Deleting a tuple -/

/-- `q` is `p` with the tuple of slot `s` gone. -/
structure Deleted (p q : PageData) (s : Nat) : Prop where
  page_id : pageId q = pageId p
  next : getNextPageId q = getNextPageId p
  slot_count : slotCount q = slotCount p
  tuple_count : tupleCount q + 1 = tupleCount p
  pointer : freeSpacePointer q = freeSpacePointer p
  dead : deadSpace q = deadSpace p + slotLength p s
  length : slotLength q s = 0
  offset : ∀ i < slotCount p, slotOffset q i = slotOffset p i
  other_length : ∀ i < slotCount p, i ≠ s → slotLength q i = slotLength p i
  above : ∀ i, freeSpacePointer p ≤ i → q.byte i = p.byte i

theorem validateRecordId_ok {p : PageData} {rid : RecordId} (hid : rid.pageId = pageId p)
    (hs : rid.slotNum < slotCount p) : validateRecordId p rid = .ok () := by
  rw [validateRecordId, if_neg (by simp only [ge_iff_le, not_or, not_not, not_le]; exact ⟨hid, hs⟩)]

theorem validateRecordId_error {p : PageData} {rid : RecordId}
    (h : ¬ (rid.pageId = pageId p ∧ rid.slotNum < slotCount p)) :
    validateRecordId p rid = .error (.raised "Invalid RID for this page") := by
  rw [validateRecordId, if_pos]
  rw [not_and_or, Nat.not_lt] at h
  exact h

theorem one_le_tupleCount {p : PageData} (h : RepInv p) {s : Nat} (hs : s < slotCount p)
    (hl : 0 < slotLength p s) : 1 ≤ tupleCount p := by
  have hle := Finset.single_le_sum (f := fun i => if 0 < slotLength p i then 1 else 0)
    (fun _ _ => Nat.zero_le _) (Finset.mem_range.mpr hs)
  rw [h.tuple_count]
  simp only [hl, if_true] at hle
  exact hle

theorem deleteTuple_ok {p : PageData} (h : RepInv p) {rid : RecordId} (hid : rid.pageId = pageId p)
    (hs : rid.slotNum < slotCount p) (hl : 0 < slotLength p rid.slotNum) :
    ∃ q, deleteTuple p rid = .ok q ∧ Deleted p q rid.slotNum := by
  set s := rid.slotNum with hsdef
  have hacc := h.accounting
  have hlen := slotLength_le_liveBytes (p := p) hs
  have htc := one_le_tupleCount h hs hl
  have hptr := h.pointer_le
  have haddr := h.slotAddr_le hs
  rw [slotSize_eq] at haddr
  rw [pageSize_eq] at hacc hptr
  have h24 : ∀ i, 24 ≤ slotAddr i := by
    intro i
    simp only [slotAddr, headerSize_eq]
    omega
  have hne : ∀ i, i ≠ s → slotAddr i + 8 ≤ slotAddr s ∨ slotAddr s + 8 ≤ slotAddr i := by
    intro i hi
    simp only [slotAddr, slotSize_eq]
    omega
  have hdead : add32 (deadSpace p) (slotLength p s) = deadSpace p + slotLength p s :=
    add32_of_lt (by rw [word32_eq]; omega)
  have h24s := h24 s
  have htc' : tupleCount ((setDeadSpace p (deadSpace p + slotLength p s)).put (slotAddr s + 4)
      (leBytes 4 0)) = tupleCount p := by
    unfold tupleCount setDeadSpace
    rw [Block.u32_put_of_disjoint (by rw [length_leBytes]; omega),
      Block.u32_putU32_of_disjoint (by omega)]
  have hsub : sub32 (tupleCount p) 1 = tupleCount p - 1 := sub32_of_le (Block.u32_lt _ _) htc
  refine ⟨setTupleCount ((setDeadSpace p (deadSpace p + slotLength p s)).putU32 (slotAddr s + 4) 0)
    (tupleCount p - 1), ?_, ?_⟩
  · simp only [deleteTuple, validateRecordId_ok hid hs, ok_bind, ← hsdef, hl, if_true, hdead]
    rw [store_ok (by rw [length_leBytes, pageSize_eq]; omega), ok_bind, htc', hsub]
    rfl
  have hu32 : ∀ a, a + 4 ≤ 12 ∨ 24 ≤ a ∨ a = 16 → (a + 4 ≤ slotAddr s + 4 ∨ slotAddr s + 8 ≤ a) →
      (setTupleCount ((setDeadSpace p (deadSpace p + slotLength p s)).putU32 (slotAddr s + 4) 0)
        (tupleCount p - 1)).u32 a = p.u32 a := by
    intro a ha hs'
    unfold setTupleCount setDeadSpace
    rw [Block.u32_putU32_of_disjoint (by omega), Block.u32_putU32_of_disjoint (by omega),
      Block.u32_putU32_of_disjoint (by omega)]
  constructor
  case page_id => exact hu32 0 (by omega) (by omega)
  case next => exact hu32 4 (by omega) (by omega)
  case slot_count => exact hu32 8 (by omega) (by omega)
  case tuple_count =>
    have : tupleCount (setTupleCount ((setDeadSpace p (deadSpace p + slotLength p s)).putU32
        (slotAddr s + 4) 0) (tupleCount p - 1)) = tupleCount p - 1 :=
      Block.u32_putU32_self (by have := Block.u32_lt p 12; unfold tupleCount; omega) (by decide)
    omega
  case pointer => exact hu32 16 (by omega) (by omega)
  case dead =>
    unfold deadSpace setTupleCount setDeadSpace
    rw [Block.u32_putU32_of_disjoint (by omega), Block.u32_putU32_of_disjoint (by omega)]
    exact Block.u32_putU32_self (by unfold deadSpace at *; rw [word32_eq]; omega) (by decide)
  case length =>
    unfold slotLength setTupleCount
    rw [Block.u32_putU32_of_disjoint (by omega)]
    exact Block.u32_putU32_self (by decide) (by rw [pageSize_eq]; omega)
  case offset =>
    intro i _
    have h24i := h24 i
    by_cases hi : i = s
    · rw [hi]
      exact hu32 _ (by omega) (by omega)
    · have hn := hne i hi
      exact hu32 _ (by omega) (by omega)
  case other_length =>
    intro i _ hi
    have h24i := h24 i
    have hn := hne i hi
    exact hu32 _ (by omega) (by omega)
  case above =>
    intro i hi
    unfold setTupleCount setDeadSpace
    rw [Block.byte_putU32_of_disjoint (by omega), Block.byte_putU32_of_disjoint (by omega),
      Block.byte_putU32_of_disjoint (by omega)]

theorem deleteTuple_empty {p : PageData} {rid : RecordId} (hid : rid.pageId = pageId p)
    (hs : rid.slotNum < slotCount p) (hl : slotLength p rid.slotNum = 0) :
    deleteTuple p rid = .ok p := by
  simp only [deleteTuple, validateRecordId_ok hid hs, ok_bind, hl]
  rfl

theorem deleteTuple_invalid {p : PageData} {rid : RecordId}
    (h : ¬ (rid.pageId = pageId p ∧ rid.slotNum < slotCount p)) :
    deleteTuple p rid = .error (.raised "Invalid RID for this page") := by
  simp only [deleteTuple, validateRecordId_error h, error_bind]

/-! ## Compaction -/

/-- The packing loop has moved the slots below `k` of `p` to the end of `temp`. -/
structure Packed (p : PageData) (c : Compaction) (k : Nat) : Prop where
  ptr : c.ptr + liveBytes p k = pageSize
  same : ∀ i, (∀ j < k, i < slotAddr j ∨ slotAddr j + 4 ≤ i) → c.page.byte i = p.byte i
  offset : ∀ i < k, 0 < slotLength p i → slotOffset c.page i = pageSize - liveBytes p (i + 1)
  temp : ∀ i < k, 0 < slotLength p i →
    c.temp.slice (pageSize - liveBytes p (i + 1)) (slotLength p i) =
      p.slice (slotOffset p i) (slotLength p i)

theorem Packed.u32_eq {p : PageData} {c : Compaction} {k a : Nat} (h : Packed p c k)
    (ha : ∀ j < k, a + 4 ≤ slotAddr j ∨ slotAddr j + 4 ≤ a) : c.page.u32 a = p.u32 a := by
  apply Block.u32_congr
  intro x hx
  apply h.same
  intro j hj
  have := ha j hj
  omega

theorem Packed.slotLength_eq {p : PageData} {c : Compaction} {k : Nat} (h : Packed p c k)
    (i : Nat) : slotLength c.page i = slotLength p i := by
  apply h.u32_eq
  intro j _
  simp only [slotAddr, headerSize_eq, slotSize_eq]
  omega

theorem Packed.slotOffset_eq {p : PageData} {c : Compaction} {k i : Nat} (h : Packed p c k)
    (hi : k ≤ i) : slotOffset c.page i = slotOffset p i := by
  apply h.u32_eq
  intro j hj
  simp only [slotAddr, headerSize_eq, slotSize_eq]
  omega

/-- The loop leaves the header and the tuples of the page alone. -/
theorem Packed.above {p : PageData} {c : Compaction} {k i : Nat} (h : Packed p c k)
    (hi : headerSize + slotSize * k ≤ i) : c.page.byte i = p.byte i := by
  apply h.same
  intro j hj
  right
  simp only [slotAddr, headerSize_eq, slotSize_eq] at *
  omega

theorem compactStep_ok {p : PageData} (h : RepInv p) {c : Compaction} {k : Nat}
    (hk : k < slotCount p) (hc : Packed p c k) :
    ∃ c', compactStep c k = .ok c' ∧ Packed p c' (k + 1) := by
  have hlen := hc.slotLength_eq k
  have hsucc := liveBytes_succ p k
  by_cases hl : 0 < slotLength p k
  · have hoff := hc.slotOffset_eq (Nat.le_refl k)
    have hmono : liveBytes p (k + 1) ≤ liveBytes p (slotCount p) := liveBytes_mono p hk
    have hacc := h.accounting
    have hptr := hc.ptr
    have hb := h.bounds k hk hl
    have hslots := h.slots_le
    have haddr := h.slotAddr_le hk
    simp only [pageSize_eq, headerSize_eq, slotSize_eq] at *
    have hsub : sub32 c.ptr (slotLength p k) = 4096 - liveBytes p (k + 1) := by
      rw [sub32_of_le (by rw [word32_eq]; omega) (by omega)]
      omega
    have hload : c.page.slice (slotOffset p k) (slotLength p k) =
        p.slice (slotOffset p k) (slotLength p k) := by
      apply Block.slice_congr
      intro x _
      exact hc.above (by rw [headerSize_eq, slotSize_eq]; omega)
    refine ⟨⟨c.page.putU32 (slotAddr k) (4096 - liveBytes p (k + 1)),
      c.temp.put (4096 - liveBytes p (k + 1)) (p.slice (slotOffset p k) (slotLength p k)),
      4096 - liveBytes p (k + 1)⟩, ?_, ?_⟩
    · simp only [compactStep, hlen, gt_iff_lt, hl, if_true, hoff, hsub]
      rw [load_ok (by rw [pageSize_eq]; omega), ok_bind, hload,
        store_ok (by rw [Block.length_slice, pageSize_eq]; omega), ok_bind,
        store_ok (by rw [length_leBytes, pageSize_eq]; omega), ok_bind]
      rfl
    constructor
    case ptr =>
      change 4096 - liveBytes p (k + 1) + liveBytes p (k + 1) = pageSize
      rw [pageSize_eq]
      omega
    case same =>
      intro i hi
      have := hi k (by omega)
      rw [Block.byte_putU32_of_disjoint (by omega)]
      exact hc.same i fun j hj => hi j (by omega)
    case offset =>
      intro i hi hli
      by_cases hik : i = k
      · subst hik
        exact Block.u32_putU32_self (by rw [word32_eq]; omega) (by rw [pageSize_eq]; omega)
      · have hoff := hc.offset i (by omega) hli
        rw [← hoff]
        apply Block.u32_putU32_of_disjoint
        simp only [slotAddr, headerSize_eq, slotSize_eq]
        omega
    case temp =>
      intro i hi hli
      by_cases hik : i = k
      · subst hik
        have hself : ((c.temp.put (4096 - liveBytes p (i + 1))
            (p.slice (slotOffset p i) (slotLength p i))).slice (4096 - liveBytes p (i + 1))
              (p.slice (slotOffset p i) (slotLength p i)).length) =
            p.slice (slotOffset p i) (slotLength p i) :=
          Block.slice_put_self (by rw [Block.length_slice, pageSize_eq]; omega)
        rwa [Block.length_slice] at hself
      · have hle := liveBytes_mono p (show i + 1 ≤ k by omega)
        refine Eq.trans ?_ (hc.temp i (by omega) hli)
        apply Block.slice_put_of_disjoint
        rw [Block.length_slice, pageSize_eq]
        omega
  · have hz : slotLength p k = 0 := by omega
    refine ⟨c, by simp only [compactStep, hlen, hz]; rfl, ?_⟩
    constructor
    case ptr => rw [hsucc, hz]; exact hc.ptr
    case same => exact fun i hi => hc.same i fun j hj => hi j (by omega)
    case offset =>
      intro i hi hli
      have hik : i ≠ k := by rintro rfl; omega
      exact hc.offset i (by omega) hli
    case temp =>
      intro i hi hli
      have hik : i ≠ k := by rintro rfl; omega
      exact hc.temp i (by omega) hli

theorem compactLoop_ok {p : PageData} (h : RepInv p) {k : Nat} (hk : k ≤ slotCount p) :
    ∃ c, compactLoop p k = .ok c ∧ Packed p c k := by
  induction k with
  | zero => exact ⟨_, rfl, by constructor <;> simp [liveBytes]⟩
  | succ k ih =>
      obtain ⟨c, hc, hp⟩ := ih (by omega)
      obtain ⟨c', hc', hp'⟩ := compactStep_ok h (by omega) hp
      refine ⟨c', ?_, hp'⟩
      unfold compactLoop at hc ⊢
      rw [List.range_succ, List.foldlM_append, hc, ok_bind, List.foldlM_cons, hc', ok_bind]
      rfl

/-- `q` is `p` with its live tuples moved together: every slot keeps its content. -/
structure Compacted (p q : PageData) : Prop where
  page_id : pageId q = pageId p
  next : getNextPageId q = getNextPageId p
  slot_count : slotCount q = slotCount p
  length : ∀ i < slotCount p, slotLength q i = slotLength p i
  dead : deadSpace q = 0
  bytes : ∀ i < slotCount p, 0 < slotLength p i →
    q.slice (slotOffset q i) (slotLength p i) = p.slice (slotOffset p i) (slotLength p i)
  inv : RepInv q

/-- The page `compact` ends with, once the loop has packed the tuples. -/
def packedPage (c : Compaction) : PageData :=
  setDeadSpace (setFreeSpacePointer (c.page.put c.ptr (c.temp.slice c.ptr (pageSize - c.ptr))) c.ptr) 0

theorem u32_packedPage {c : Compaction} {a : Nat} (ha : a + 4 ≤ 16 ∨ 24 ≤ a)
    (hptr : a + 4 ≤ c.ptr) : (packedPage c).u32 a = c.page.u32 a := by
  unfold packedPage setDeadSpace setFreeSpacePointer
  rw [Block.u32_putU32_of_disjoint (by omega), Block.u32_putU32_of_disjoint (by omega),
    Block.u32_put_of_disjoint (by omega)]

theorem byte_packedPage {c : Compaction} {i : Nat} (hc : 24 ≤ c.ptr) (hi : c.ptr ≤ i)
    (hn : i < pageSize) : (packedPage c).byte i = c.temp.byte i := by
  unfold packedPage setDeadSpace setFreeSpacePointer
  rw [Block.byte_putU32_of_disjoint (by omega), Block.byte_putU32_of_disjoint (by omega),
    Block.byte_put _ _ _ _ hn, if_pos (by rw [Block.length_slice]; omega),
    Block.getD_slice _ _ (by omega), Nat.add_sub_cancel' hi]

theorem compact_eq {p : PageData} {c : Compaction} (hd : deadSpace p ≠ 0)
    (hc : compactLoop p (slotCount p) = .ok c) (hptr : c.ptr ≤ pageSize) :
    compact p = .ok (packedPage c) := by
  have hsub : sub32 pageSize c.ptr = pageSize - c.ptr := sub32_of_le (by decide) hptr
  have hend : c.ptr + (pageSize - c.ptr) ≤ pageSize := by omega
  simp only [compact, hd, if_false, hc, ok_bind, hsub]
  rw [load_ok hend, ok_bind, store_ok (by rw [Block.length_slice]; exact hend), ok_bind]
  rfl

/-- Packed tuples lie one below the other, in the order of their slots. -/
theorem Compacted.of_packed {p : PageData} (h : RepInv p) {c : Compaction}
    (hp : Packed p c (slotCount p)) : Compacted p (packedPage c) := by
  have hptr := hp.ptr
  have hslots := h.slots_le
  have hacc := h.accounting
  simp only [headerSize_eq, slotSize_eq, pageSize_eq] at hptr hslots hacc
  have hcptr : c.ptr ≤ pageSize := by rw [pageSize_eq]; omega
  have hu32 : ∀ a, a + 4 ≤ 16 → (packedPage c).u32 a = p.u32 a := by
    intro a ha
    rw [u32_packedPage (by omega) (by omega)]
    exact hp.u32_eq fun j _ => by simp only [slotAddr, headerSize_eq, slotSize_eq]; omega
  have hcount : slotCount (packedPage c) = slotCount p := hu32 8 (by omega)
  have hfsp : freeSpacePointer (packedPage c) = c.ptr := by
    unfold freeSpacePointer packedPage setDeadSpace setFreeSpacePointer
    rw [Block.u32_putU32_of_disjoint (by omega)]
    exact Block.u32_putU32_self (by rw [word32_eq]; omega) (by decide)
  have hdead : deadSpace (packedPage c) = 0 := Block.u32_putU32_self (by decide) (by decide)
  have hbelow : ∀ i < slotCount p, slotAddr i + 8 ≤ c.ptr ∧ 24 ≤ slotAddr i := by
    intro i hi
    simp only [slotAddr, headerSize_eq, slotSize_eq]
    omega
  have hlength : ∀ i < slotCount p, slotLength (packedPage c) i = slotLength p i := by
    intro i hi
    have hb := hbelow i hi
    rw [← hp.slotLength_eq]
    exact u32_packedPage (by omega) (by omega)
  have hoffset : ∀ i < slotCount p, 0 < slotLength p i →
      slotOffset (packedPage c) i = 4096 - liveBytes p (i + 1) := by
    intro i hi hl
    have hb := hbelow i hi
    have ho := hp.offset i hi hl
    rw [pageSize_eq] at ho
    rw [← ho]
    exact u32_packedPage (by omega) (by omega)
  have hrange : ∀ i < slotCount p, liveBytes p (i + 1) = liveBytes p i + slotLength p i ∧
      c.ptr + liveBytes p (i + 1) ≤ 4096 := by
    intro i hi
    have hm := liveBytes_mono p (show i + 1 ≤ slotCount p by omega)
    exact ⟨liveBytes_succ p i, by omega⟩
  constructor
  case page_id => exact hu32 0 (by omega)
  case next => exact hu32 4 (by omega)
  case slot_count => exact hcount
  case length => exact hlength
  case dead => exact hdead
  case bytes =>
    intro i hi hl
    obtain ⟨hs, hle⟩ := hrange i hi
    have htemp := hp.temp i hi hl
    rw [pageSize_eq] at hcptr
    rw [hoffset i hi hl, ← htemp]
    apply Block.slice_congr
    intro x hx
    exact byte_packedPage (by omega) (by omega) (by rw [pageSize_eq]; omega)
  constructor
  case slots_le => rw [hcount, hfsp, headerSize_eq, slotSize_eq]; omega
  case pointer_le => rw [hfsp]; exact hcptr
  case bounds =>
    intro i hi hl
    rw [hcount] at hi
    rw [hlength i hi] at hl ⊢
    obtain ⟨hs, hle⟩ := hrange i hi
    rw [hfsp, hoffset i hi hl, pageSize_eq]
    omega
  case disjoint =>
    intro i hi j hj hne hli hlj
    rw [hcount] at hi hj
    rw [hlength i hi] at hli ⊢
    rw [hlength j hj] at hlj ⊢
    obtain ⟨hsi, hlei⟩ := hrange i hi
    obtain ⟨hsj, hlej⟩ := hrange j hj
    rw [hoffset i hi hli, hoffset j hj hlj]
    -- the slot with the smaller index lies higher
    rcases Nat.lt_or_gt_of_ne hne with hlt | hlt
    · have := liveBytes_mono p (show i + 1 ≤ j from hlt)
      omega
    · have := liveBytes_mono p (show j + 1 ≤ i from hlt)
      omega
  case tuple_count =>
    have htc : tupleCount (packedPage c) = tupleCount p := hu32 12 (by omega)
    rw [htc, hcount, liveCount_congr hlength, h.tuple_count]
  case accounting =>
    rw [hfsp, hdead, hcount, liveBytes_congr hlength, pageSize_eq]
    omega

theorem compact_ok {p : PageData} (h : RepInv p) : ∃ q, compact p = .ok q ∧ Compacted p q := by
  by_cases hd : deadSpace p = 0
  · refine ⟨p, by simp only [compact, hd, if_true], ?_⟩
    constructor <;> first | rfl | exact hd | exact h | (intros; rfl)
  · obtain ⟨c, hc, hp⟩ := compactLoop_ok h (Nat.le_refl (slotCount p))
    have hptr := hp.ptr
    exact ⟨packedPage c, compact_eq hd hc (by omega), Compacted.of_packed h hp⟩

end TurtleDb.Page.SlottedPage
