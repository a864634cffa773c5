import TurtleDb.Table.Reuse

/-!
# Tables whose rows always find a place

A deleted tuple leaves its slot. If the last page has nothing but such slots, a row that is too
large for the rest of the page ends the process. The slots are no more than the smallest rows can
have made.
-/

namespace TurtleDb.Table

open TurtleDb.Lib TurtleDb.Buffer TurtleDb.Buffer.BufferPoolManager TurtleDb.Page LawfulPageDisk

namespace HeapState

/-- The live tuples have `lo` to `hi` bytes. -/
def Sized (lo hi : Nat) (map : RecordId → Option (List UInt8)) : Prop :=
  ∀ rid bytes, map rid = some bytes → lo ≤ bytes.length ∧ bytes.length ≤ hi

/-- No page has more slots than tuples of `lo` bytes can have made. -/
def FewSlots (lo : Nat) (c : PagedTable PageId (List UInt8)) : Prop :=
  ∀ p ∈ c, p.2.length ≤ capacity lo

/-- The slots of a page that was full of the smallest rows leave the space for a largest one. -/
def SlotsLeaveRoom (lo hi : Nat) : Prop := headerSize + slotSize * capacity lo + hi ≤ pageSize

theorem Sized.update {lo hi : Nat} {map : RecordId → Option (List UInt8)} (h : Sized lo hi map)
    {rid : RecordId} {bytes : List UInt8} (hbytes : lo ≤ bytes.length ∧ bytes.length ≤ hi) :
    Sized lo hi (Function.update map rid (some bytes)) := by
  intro rid' bytes' hget
  by_cases hr : rid' = rid
  · rw [hr, Function.update_self] at hget
    cases hget
    exact hbytes
  · rw [Function.update_of_ne hr] at hget
    exact h rid' bytes' hget

theorem sized_mapOf {lo hi : Nat} {c : PagedTable PageId (List UInt8)}
    (h : ∀ e ∈ PagedTable.entries c, lo ≤ e.2.length ∧ e.2.length ≤ hi) :
    Sized lo hi (mapOf c) := by
  intro rid bytes hget
  obtain ⟨t, ht, hslot⟩ := Option.bind_eq_some_iff.mp hget
  exact h ((rid.pageId, rid.slotNum), bytes)
    (PagedTable.mem_entries.mpr ⟨t, PagedTable.mem_of_lookup ht, hslot⟩)

/-! ## One page -/

section
variable {t : SlotTable (List UInt8)} {c pre : PagedTable PageId (List UInt8)} {i : PageId}
  {lo hi size : Nat} {bytes : List UInt8}

theorem le_bytesUsed (hsize : ∀ j bytes, t.get j = some bytes → lo ≤ bytes.length) :
    lo * t.countP Option.isSome ≤ SlottedPage.bytesUsed t := by
  have hsum : SlottedPage.bytesUsed t =
      ((List.range t.length).map fun j => (t.get j).elim 0 List.length).sum := rfl
  have hmap : ((List.range t.length).map fun j => (t.get j).elim 0 List.length) =
      t.map fun o => o.elim 0 List.length := by
    conv_rhs => rw [← SlotTable.map_get_range t]
    rw [List.map_map]
    rfl
  have hmem : ∀ o ∈ t, ∀ bytes, o = some bytes → lo ≤ bytes.length := by
    intro o ho bytes he
    obtain ⟨j, hj, rfl⟩ := List.mem_iff_getElem.mp ho
    exact hsize j bytes (by simp [SlotTable.get, hj, he])
  rw [hsum, hmap]
  clear hsum hmap hsize
  induction t with
  | nil => exact Nat.zero_le _
  | cons o t ih =>
      have hrest := ih fun o' ho' => hmem o' (List.mem_cons_of_mem _ ho')
      rw [List.map_cons, List.sum_cons, List.countP_cons]
      cases o with
      | none => simpa using hrest
      | some bytes =>
          have hlen := hmem (some bytes) List.mem_cons_self bytes rfl
          simp only [Option.elim_some, Option.isSome_some, if_true, Nat.mul_add, Nat.mul_one]
          omega

theorem bytesUsed_of_empty (h : ∀ k, t.get k = none) : SlottedPage.bytesUsed t = 0 :=
  Finset.sum_eq_zero fun k _ => by rw [h k]; rfl

/-- A page with few slots takes the row, or else it has a tuple. -/
theorem fits_or_live (hlen : t.length ≤ capacity lo) (hroom : SlotsLeaveRoom lo hi)
    (hle : size ≤ hi) (hmax : size ≤ 4064) :
    SlottedPage.Fits t size ∨ ∃ k, t.get k ≠ none := by
  by_cases hlive : ∃ k, t.get k ≠ none
  · exact .inr hlive
  · have hempty : ∀ k, t.get k = none := fun k => not_not.mp fun hne => hlive ⟨k, hne⟩
    refine .inl ?_
    unfold SlottedPage.Fits
    rw [bytesUsed_of_empty hempty]
    rcases t.free_lt_or_full with hhole | hfull
    · rw [Nat.max_eq_left hhole]
      have hslots := Nat.mul_le_mul_left slotSize hlen
      unfold SlotsLeaveRoom at hroom
      omega
    · -- A page without holes and without tuples has no slots.
      have hzero : t.length = 0 := by
        rw [← hfull, List.countP_eq_zero]
        intro o ho hsome
        obtain ⟨j, hj, rfl⟩ := List.mem_iff_getElem.mp ho
        have hnone := hempty j
        rw [SlotTable.get, List.getElem?_eq_getElem hj, Option.join_some] at hnone
        rw [hnone] at hsome
        cases hsome
      have hfree : t.free = 0 := Nat.le_zero.mp (hzero ▸ t.free_le)
      rw [hzero, hfree]
      simp only [headerSize, slotSize, pageSize]
      omega

/-- Where no hole is left all slots have tuples, and with one more they fit into the page. -/
theorem length_insert_le (hlen : t.length ≤ capacity lo)
    (hsize : ∀ j bytes', (t.insert bytes).get j = some bytes' → lo ≤ bytes'.length)
    (hspace : headerSize + slotSize * (t.insert bytes).length +
      SlottedPage.bytesUsed (t.insert bytes) ≤ pageSize) :
    (t.insert bytes).length ≤ capacity lo := by
  by_cases hhole : t.free < t.length
  · rw [SlotTable.length_insert]
    exact Nat.max_le.mpr ⟨hlen, Nat.le_trans hhole hlen⟩
  · have hfull := t.free_lt_or_full.resolve_left hhole
    have hcount : (t.insert bytes).countP Option.isSome = (t.insert bytes).length := by
      rw [SlotTable.insert, if_neg hhole, List.countP_append, hfull]
      simp
    have hused := le_bytesUsed hsize
    rw [hcount] at hused
    refine (Nat.le_div_iff_mul_le (by omega)).mpr ?_
    rw [Nat.mul_add, Nat.mul_comm _ lo]
    simp only [headerSize, slotSize, pageSize] at hspace
    omega

theorem FewSlots.erase (h : FewSlots lo c) (x : PageId × Nat) :
    FewSlots lo (PagedTable.erase c x) := by
  intro p hp
  obtain ⟨q, hq, rfl⟩ := List.mem_map.mp hp
  have hlen := h q hq
  split
  · rwa [SlotTable.length_erase]
  · exact hlen

/-- A table with pages that can be, of rows that have `lo` bytes at least. -/
theorem FewSlots.adds {c c' : PagedTable PageId (List UInt8)} {x : PageId × Nat}
    (h : FewSlots lo c) (hmax : lo ≤ 4064) (hadds : PagedTable.Adds bytes c x c')
    (hsize : ∀ p ∈ c', ∀ j bytes', p.2.get j = some bytes' → lo ≤ bytes'.length)
    (hspace : ∀ p ∈ c', headerSize + slotSize * p.2.length + SlottedPage.bytesUsed p.2 ≤ pageSize) :
    FewSlots lo c' := by
  intro p hp
  cases hadds with
  | fill pre i t =>
      rcases List.mem_append.mp hp with hpre | hlast
      · exact h p (List.mem_append_left _ hpre)
      · cases List.mem_singleton.mp hlast
        exact length_insert_le (h (i, t) (by simp)) (hsize _ hp) (hspace _ hp)
  | grow pages hm =>
      rcases List.mem_append.mp hp with hold | hnew
      · exact h p hold
      · cases List.mem_singleton.mp hnew
        exact (Nat.one_le_div_iff (by omega)).mpr (by omega)

end

/-! ## Every run -/

variable {δ : Type} [PageDisk δ] [LawfulPageDisk δ] {file : FileId} {s t : HeapState δ}
  {store : PageKey → Option PageData} {l : Pages} {lo hi : Nat}

theorem Holds.sized (hs : Holds file s store l) (h : Sized lo hi s.map)
    {p : PageId × SlotTable (List UInt8)} (hp : p ∈ l.contents) {j : Nat} {bytes : List UInt8}
    (hget : p.2.get j = some bytes) : lo ≤ bytes.length ∧ bytes.length ≤ hi := by
  have hentry : ((p.1, j), bytes) ∈ PagedTable.entries l.contents :=
    PagedTable.mem_entries.mpr ⟨p.2, hp, hget⟩
  refine h ⟨p.1, j⟩ bytes ?_
  rw [hs.map]
  exact (PagedTable.mem_entries_iff hs.nodup).mp hentry

theorem Holds.page_space (hs : Holds file s store l) {p : PageId × SlotTable (List UInt8)}
    (hp : p ∈ l.contents) :
    headerSize + slotSize * p.2.length + SlottedPage.bytesUsed p.2 ≤ pageSize := by
  obtain ⟨x, hx, rfl⟩ := List.mem_map.mp hp
  have hspace := (hs.chain.pages x hx).1.usableSpace_add
  rw [SlottedPage.length_slots, SlottedPage.bytesUsed_slots]
  omega

/-- In a run of rows of these sizes no page gets more slots. -/
theorem Within.fewSlots (hmax : lo ≤ 4064) (hr : Within file (fun s => Sized lo hi s.map) s) :
    ∃ store l, Holds file s store l ∧ FewSlots lo l.contents := by
  induction hr with
  | create hs hopen hroom hr _ =>
      obtain ⟨store, hsharing, hnone⟩ := hs.sharing
      rcases Holds.create hsharing hnone hopen hroom with ⟨m, he, _⟩ |
        ⟨h, b, store', p, he, _, hholds, hslots, _⟩
      · cases he.symm.trans hr
      · cases he.symm.trans hr
        refine ⟨_, _, hholds, fun q hq => ?_⟩
        cases List.mem_singleton.mp hq
        show (SlottedPage.slots p).length ≤ capacity lo
        rw [hslots]
        exact Nat.zero_le _
  | @step s t _ hstep hp ih =>
      obtain ⟨store, l, hs, hfew⟩ := ih
      obtain ⟨store', l', hs', heffect⟩ := hs.step hstep
      refine ⟨store', l', hs', ?_⟩
      cases heffect with
      | same h => exact h ▸ hfew
      | erases h => exact h ▸ hfew.erase _
      | adds hadds _ => exact hfew.adds hmax hadds (fun p hp' j bytes hget =>
          (hs'.sized hp hp' hget).1) fun p hp' => hs'.page_space hp'

theorem Within.insertTuple_sized (hr : Within file (fun s => Sized lo hi s.map) s)
    (hroom : SlotsLeaveRoom lo hi) (hlo : 1 ≤ lo) (hhi : hi ≤ 4064) {tuple : Tuple}
    (hge : lo ≤ tuple.storageSize) (hle : tuple.storageSize ≤ hi) (htwo : TwoUnpinned s.pool)
    (hids : s.pool.HasRoom) :
    ∃ rid b h, s.heap.insertTuple s.pool tuple = .ok (some rid, b, h) ∧
      Within file (fun s => Sized lo hi s.map) (s.inserted file tuple (some rid) b h) := by
  have hpos : 0 < tuple.data.length := Nat.lt_of_lt_of_le hlo hge
  have hmax : tuple.data.length ≤ 4064 := Nat.le_trans hle hhi
  have hinsert : tuple.data.length ≤ SlottedPage.maxInsertSize := Nat.le_trans hmax (by decide)
  obtain ⟨store, l, hs, hfew⟩ := hr.fewSlots (Nat.le_trans hge hmax)
  obtain ⟨pre, p, hl, _⟩ := hs.exists_last
  have hlast : l.contents = Pages.contents pre ++ [(s.heap.lastPageId, SlottedPage.slots p)] := by
    rw [hl]
    exact Chain.contents_middle pre s.heap.lastPageId p []
  have hslots : (SlottedPage.slots p).length ≤ capacity lo :=
    hfew (s.heap.lastPageId, SlottedPage.slots p) (by rw [hlast]; simp)
  have hok := fits_or_live hslots hroom hle hmax
  rcases hs.insertTuple tuple hpos hinsert (.inr hids) with ⟨_, hno, hwhy⟩ | ⟨b, _, hno, _⟩ |
    ⟨rid, b, h, _, _, he, _⟩
  · rw [lastFits_iff hlast] at hno
    obtain ⟨k, hk⟩ := hok.resolve_left hno
    have hempty := hwhy.resolve_right (Nat.not_lt.mpr hmax)
    exact absurd ((lastEmpty_iff hs.chain hlast).mp hempty k) hk
  · exact absurd (hs.twoObtainable_iff.mp htwo) hno
  · refine ⟨rid, b, h, he, .step hr (.insertTuple hpos hinsert (.inr hids) he) ?_⟩
    exact hr.last.update ⟨hge, hle⟩

/-- There is a run to a table whose slots were all filled with the smallest rows and emptied. -/
theorem exists_spent (file : FileId) {d : δ} (hopen : opened d file) (hlo : 1 ≤ lo) (hle : lo ≤ hi)
    (hmax : lo ≤ 4064) :
    ∃ s : HeapState δ, Led file (Sized lo hi) s [(0, List.replicate (capacity lo) none)] := by
  generalize hbytes : List.replicate lo (0 : UInt8) = bytes
  have hlen : bytes.length = lo := by rw [← hbytes, List.length_replicate]
  have hsized : ∀ t : SlotTable (List UInt8), (∀ o ∈ t, o = none ∨ o = some bytes) →
      Sized lo hi (mapOf [(0, t)]) := by
    intro t ht
    refine sized_mapOf fun e he => ?_
    obtain ⟨u, hu, hget'⟩ := PagedTable.mem_entries.mp he
    obtain rfl : u = t := (Prod.mk.inj (List.mem_singleton.mp hu)).2
    have hlt := SlotTable.lt_length_of_get hget'
    rw [SlotTable.get, List.getElem?_eq_getElem hlt, Option.join_some] at hget'
    rcases ht _ (List.getElem_mem hlt) with he | he
    · cases he.symm.trans hget'
    · cases he.symm.trans hget'
      exact ⟨Nat.le_of_eq hlen.symm, hlen ▸ hle⟩
  obtain ⟨s₀, h₀⟩ := Led.create (P := Sized lo hi) 2 d hopen (by decide) (by decide)
    (by rintro _ _ ⟨⟩)
  obtain ⟨s₁, h₁⟩ := Led.fill [] hlen hlo hmax (fun b _ => hsized _ fun _ ho =>
    eq_some_of_mem_replicate ho) (Nat.zero_le _) h₀
  obtain ⟨s₂, h₂⟩ := Led.empty (t := []) [] [] (by simp) (fun a _ r _ => hsized _ fun o ho =>
    (List.mem_append.mp ho).imp List.eq_of_mem_replicate List.eq_of_mem_replicate)
    (a := 0) (r := capacity lo) h₁
  rw [Nat.zero_add] at h₂
  exact ⟨s₂, h₂⟩

/-- Rows of `lo` to `hi` bytes can be inserted in every run, exactly if the slots of a page that was
full of the smallest leave the space for the largest. -/
theorem insertTuple_always_iff (file : FileId) (d : δ) (hopen : opened d file) (hlo : 1 ≤ lo)
    (hle : lo ≤ hi) (hhi : hi ≤ 4064) :
    (∀ (s : HeapState δ) (tuple : Tuple), Within file (fun s => Sized lo hi s.map) s →
      lo ≤ tuple.storageSize → tuple.storageSize ≤ hi → TwoUnpinned s.pool → s.pool.HasRoom →
      ∃ rid b h, s.heap.insertTuple s.pool tuple = .ok (some rid, b, h) ∧
        Within file (fun s => Sized lo hi s.map) (s.inserted file tuple (some rid) b h)) ↔
      headerSize + slotSize * capacity lo + hi ≤ pageSize := by
  have hcap : 1 ≤ capacity lo := (Nat.one_le_div_iff (by omega)).mpr (by omega)
  constructor
  · intro hall
    by_contra hno
    obtain ⟨s, hs⟩ := exists_spent file hopen hlo hle (Nat.le_trans hle hhi)
    generalize ht : List.replicate (capacity lo) (none : Option (List UInt8)) = t at hs
    have hempty : ∀ k, SlotTable.get t k = none := fun k =>
      Option.eq_none_iff_forall_ne_some.mpr fun bytes hget => by
        have hlt := SlotTable.lt_length_of_get hget
        subst ht
        rw [SlotTable.get, List.getElem?_eq_getElem hlt, List.getElem_replicate] at hget
        cases hget
    have hfull : ¬ SlottedPage.Fits t hi := by
      unfold SlottedPage.Fits
      rw [bytesUsed_of_empty hempty]
      have hlength : t.length = capacity lo := by rw [← ht, List.length_replicate]
      have hslots : slotSize * capacity lo ≤ slotSize * max t.length (SlotTable.free t + 1) :=
        Nat.mul_le_mul_left slotSize (hlength ▸ Nat.le_max_left _ _)
      omega
    have hlen : (List.replicate hi (0 : UInt8)).length = hi := List.length_replicate
    have hids : ([] ++ [((0 : PageId), t)]).length < invalidPageId := by
      rw [List.nil_append, List.length_singleton]
      decide
    obtain ⟨m, hterm⟩ : ∃ m, s.heap.insertTuple s.pool ⟨List.replicate hi 0, .invalid⟩ =
        .error (.terminated m) :=
      LedTo.terminates [] hs (by omega) (by omega) hids (by rwa [hlen]) hempty
    obtain ⟨rid, b, h, he, _⟩ := hall s ⟨List.replicate hi 0, .invalid⟩ hs.within
      (by rw [Tuple.storageSize, hlen]; exact hle) (by rw [Tuple.storageSize, hlen]) hs.twoUnpinned
      (hs.hasRoom hids)
    cases he.symm.trans hterm
  · exact fun hroom s tuple hr hge hle' htwo hids =>
      hr.insertTuple_sized hroom hlo hhi hge hle' htwo hids

/-- No row of up to 456 bytes is ever refused. -/
theorem insertTuple_always_iff_small : ∃ s : HeapState Disk.PageMap,
    Within 0 (fun s => Sized 1 456 s.map) s ∧
      ∃ rid b h, s.heap.insertTuple s.pool ⟨List.replicate 456 0, .invalid⟩ =
        .ok (some rid, b, h) := by
  obtain ⟨s, hs⟩ : ∃ s : HeapState Disk.PageMap, Led 0 (Sized 1 456) s
      [(0, List.replicate (capacity 1) none)] :=
    exists_spent 0 (d := Disk.PageMap.zero) trivial (by decide) (by decide) (by decide)
  have hlen : (⟨List.replicate 456 0, .invalid⟩ : Tuple).storageSize = 456 := List.length_replicate
  obtain ⟨rid, b, h, he, _⟩ := (insertTuple_always_iff 0 Disk.PageMap.zero trivial (by decide)
    (by decide) (by decide)).mpr (by decide : headerSize + slotSize * capacity 1 + 456 ≤ pageSize) s
    ⟨List.replicate 456 0, .invalid⟩ hs.within (by rw [hlen]; decide) (Nat.le_of_eq hlen)
    hs.twoUnpinned (hs.hasRoom (by rw [List.length_singleton]; decide))
  exact ⟨s, hs.within, rid, b, h, he⟩

end HeapState

end TurtleDb.Table
