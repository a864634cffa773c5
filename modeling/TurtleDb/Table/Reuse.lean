import TurtleDb.Table.Room

/-!
# Whether freed space is used again

The free space map knows the pages with room, and `insert_tuple` finds one of them, but it inserts
into the last page. So space is used again only there, and a table of tuples of one size stays small
only as long as one page can hold the live ones.
-/

namespace TurtleDb.Table

open TurtleDb.Lib TurtleDb.Buffer TurtleDb.Buffer.BufferPoolManager TurtleDb.Page LawfulPageDisk

/-- "Check free space map for a candidate page". -/
def TableHeap.IsCandidate (h : TableHeap) (size : Nat) (pageId : PageId) : Prop :=
  ∃ usableBytes, h.freeSpaceMap pageId = some usableBytes ∧ usableBytes ≥ size + slotSize

namespace HeapState

variable {δ : Type} [PageDisk δ] [LawfulPageDisk δ] {file : FileId} {s : HeapState δ}
  {store : PageKey → Option PageData} {l : Pages} {tuple : Tuple}

/-- The tuple goes to a page that the table has already. -/
def Reuses (file : FileId) (s : HeapState δ) (tuple : Tuple) : Prop :=
  ∃ rid b h, s.heap.insertTuple s.pool tuple = .ok (some rid, b, h) ∧
    ⟨file, rid.pageId⟩ ∈ s.handed ∧ b.nextPageId = s.pool.nextPageId

/-- A table of tuples of `n` bytes, of which `k` are live at most. -/
def AtMost (n k : Nat) (map : RecordId → Option (List UInt8)) : Prop :=
  (∀ rid bytes, map rid = some bytes → bytes.length = n) ∧
    ∃ rids : List RecordId, rids.length ≤ k ∧ ∀ rid, map rid ≠ none → rid ∈ rids

/-- How many tuples of `n` bytes fit into a page. -/
def capacity (n : Nat) : Nat := 4072 / (n + 8)

/-! ## One insert -/

section
variable {b b' : BufferPoolManager δ} {h h' : TableHeap} {f : FrameId} {r : Option RecordId}
  {rid : RecordId} {p : PageData}

omit [PageDisk δ] [LawfulPageDisk δ] in
theorem drop_nextPageId (b : BufferPoolManager δ) (f : FrameId) :
    (WritePageGuard.drop b f).nextPageId = b.nextPageId := (unpinPage_keeps _ _ _ _).2.2.1

theorem add32_one_ne {n : Nat} (hn : n ≤ invalidPageId) : add32 n 1 ≠ n := by
  rcases Nat.lt_or_eq_of_le hn with hlt | rfl
  · rw [add32_of_lt (Nat.lt_of_le_of_lt hlt (by decide))]
    exact Nat.succ_ne_self n
  · decide

omit [LawfulPageDisk δ] in
theorem insertLoop_last (he : TableHeap.insertLoop tuple 1 b h f = .ok (some rid, b', h')) :
    b'.nextPageId = b.nextPageId := by
  rw [TableHeap.insertLoop] at he
  cases hq : SlottedPage.insertTuple (b.data f) tuple.serializeTo with
  | error fault =>
      rw [hq] at he
      cases he
  | ok r =>
      obtain ⟨r, p⟩ := r
      rw [hq, ok_bind] at he
      cases r with
      | some rid' =>
          cases he
          exact drop_nextPageId _ _
      | none =>
          simp only at he
          split at he
          · cases he
          · cases hn : (b.setData f p).newPage h.fileId with
            | error fault =>
                rw [hn] at he
                cases he
            | ok r =>
                rcases r with ⟨_ | ⟨g, i⟩, b₁⟩
                · rw [hn] at he
                  cases he
                · rw [hn] at he
                  cases he

omit [LawfulPageDisk δ] in
/-- When the page at hand has no room, the tuple goes to a new page. -/
theorem insertLoop_full (hb : Structural (b.setData f p) none)
    (hq : SlottedPage.insertTuple (b.data f) tuple.data = .ok (none, p))
    (he : TableHeap.insertLoop tuple 2 b h f = .ok (some rid, b', h')) :
    b'.nextPageId = add32 b.nextPageId 1 := by
  rw [TableHeap.insertLoop, Tuple.serializeTo, hq, ok_bind] at he
  simp only at he
  split at he
  · cases he
  · rcases newPage_cases hb h.fileId with ⟨m, hn, _⟩ | ⟨hn, _⟩ | ⟨g, b₁, d, _, _, hn⟩
    · rw [hn] at he
      cases he
    · rw [hn] at he
      cases he
    · rw [hn, ok_bind] at he
      exact (insertLoop_last he).trans (drop_nextPageId _ _)

end

namespace Holds

/-- The map finds the pages that have the space. -/
theorem isCandidate_iff (hs : Holds file s store l) (size : Nat) (i : PageId) :
    s.heap.IsCandidate size i ↔ ⟨file, i⟩ ∈ s.handed ∧
      ∃ p, s.pool.stored ⟨file, i⟩ = some p ∧ SlottedPage.usableSpace p ≥ size + slotSize := by
  unfold TableHeap.IsCandidate
  rw [hs.recorded i, hs.mem_handed_iff]
  constructor
  · rintro ⟨u, hu, hge⟩
    obtain ⟨p, hp, rfl⟩ := Option.map_eq_some_iff.mp hu
    obtain ⟨pre, post, rfl, _⟩ := List.lookup_eq_some_iff.mp hp
    refine ⟨by simp, p, hs.sharing.pool.stored_eq ?_, hge⟩
    rw [← hs.fileId]
    exact hs.chain.stored.1
  · rintro ⟨hi, p, hp, hge⟩
    obtain ⟨⟨j, q⟩, hx, rfl⟩ := List.mem_map.mp hi
    obtain ⟨pre, post, rfl⟩ := List.append_of_mem hx
    have hq := hs.sharing.pool.stored_eq hs.chain.stored.1
    rw [hs.fileId] at hq
    cases hp.symm.trans hq
    have hpre : j ∉ pre.map Prod.fst := hs.chain.not_mem_before
    refine ⟨SlottedPage.usableSpace p, ?_, hge⟩
    rw [Pages.lookup_middle hpre, if_pos rfl]
    rfl

/-- A tuple that has no room in the last page is in a new page if it is inserted at all. -/
theorem insertTuple_next (hs : Holds file s store l)
    (hmax : tuple.data.length ≤ SlottedPage.maxInsertSize)
    (hno : ¬ LastFits l tuple.data.length) {rid : RecordId} {b : BufferPoolManager δ}
    {h : TableHeap} (he : s.heap.insertTuple s.pool tuple = .ok (some rid, b, h)) :
    b.nextPageId = add32 s.pool.nextPageId 1 := by
  obtain ⟨pre, p, rfl⟩ := hs.chain.exists_last
  have hstored := hs.chain.stored.1
  have hfull : ¬ SlottedPage.Fits (SlottedPage.slots p) tuple.data.length := fun hfits =>
    hno ⟨pre, _, p, rfl, hfits⟩
  have hq := SlottedPage.insertTuple_full hs.chain.page.1 hmax hfull
  rcases hs.sharing.pool.fetchPage hstored (hs.stored.pins _) with ⟨hf, _⟩ |
    ⟨f, b₁, hf, hp, htable, hnext, _⟩
  · rw [TableHeap.insertTuple, writePage, hf, ok_bind] at he
    cases he
  · rw [TableHeap.insertTuple, writePage, hf, ok_bind] at he
    rw [← hp.data_eq hstored htable] at hq
    rw [← hnext]
    refine insertLoop_full ?_ hq he
    exact hp.backs.structural.congr rfl rfl rfl rfl rfl

/-- Space for a tuple and a slot is not more than a page has. -/
theorem size_le_of_candidate (hs : Holds file s store l) {size : Nat} {i : PageId}
    (h : s.heap.IsCandidate size i) : size ≤ 4064 := by
  obtain ⟨u, hu, hge⟩ := h
  rw [hs.recorded] at hu
  obtain ⟨p, hp, rfl⟩ := Option.map_eq_some_iff.mp hu
  obtain ⟨pre, post, rfl, _⟩ := List.lookup_eq_some_iff.mp hp
  have hadd := hs.chain.page.1.usableSpace_add
  simp only [headerSize, slotSize, pageSize] at hadd hge
  omega

/-- The last page can be written exactly if it is resident or a frame can be had. -/
theorem reuses_iff (hs : Holds file s store l) (tuple : Tuple) (hpos : 0 < tuple.data.length)
    (hmax : tuple.data.length ≤ SlottedPage.maxInsertSize) :
    Reuses file s tuple ↔ s.heap.FitsLast s.pool tuple.data.length ∧
      (s.pool.pageTable ⟨file, s.heap.lastPageId⟩ ≠ none ∨ ¬ Full s.pool) := by
  have hfits := hs.stored.fitsLast_iff hmax
  have hfull : s.pool.fetchPage file s.heap.lastPageId = .ok (none, s.pool) ↔ _ :=
    hs.sharing.pool.backs.structural.fetchPage_none_iff file s.heap.lastPageId
  constructor
  · rintro ⟨rid, b, h, he, _, hnext⟩
    refine ⟨?_, ?_⟩
    · by_contra hno
      have hnew := hs.insertTuple_next hmax (fun hl => hno (hfits.mpr hl)) he
      exact add32_one_ne hs.sharing.next_le (hnew.symm.trans hnext)
    · by_contra hno
      push Not at hno
      rw [TableHeap.insertTuple, writePage, hs.fileId, hfull.mpr ⟨rfl, hno⟩, ok_bind] at he
      cases he
  · rintro ⟨hl, hframe⟩
    obtain ⟨pre, i, p, rfl, hp⟩ := hfits.mp hl
    rcases hs.chain.insertTuple_fits hs.sharing.pool hpos hmax hp (hs.stored.pins _) with
      ⟨_, hwrite, _⟩ | ⟨q, b, he, hkept, _⟩
    · rw [← hs.chain.last_eq, hs.fileId] at hwrite
      obtain ⟨_, hnone, hall⟩ := hfull.mp hwrite
      exact absurd hall (hframe.resolve_left fun hne => hne hnone)
    · exact ⟨_, b, _, he, hs.mem_handed_iff.mpr (by simp), hkept.next⟩

end Holds

/-! ## Tables of tuples of one size -/

section
variable {c : PagedTable PageId (List UInt8)} {i : PageId} {t : SlotTable (List UInt8)} {n k : Nat}

theorem capacity_mul_le (n : Nat) : capacity n * (n + 8) ≤ 4072 := Nat.div_mul_le_self _ _

theorem bytesUsed_of_size (hsize : ∀ j bytes, t.get j = some bytes → bytes.length = n) :
    SlottedPage.bytesUsed t = n * t.countP Option.isSome := by
  have hsum : SlottedPage.bytesUsed t =
      ((List.range t.length).map fun j => (t.get j).elim 0 List.length).sum := rfl
  have hmap : ((List.range t.length).map fun j => (t.get j).elim 0 List.length) =
      t.map fun o => o.elim 0 List.length := by
    conv_rhs => rw [← SlotTable.map_get_range t]
    rw [List.map_map]
    rfl
  have hmem : ∀ o ∈ t, ∀ bytes, o = some bytes → bytes.length = n := by
    intro o ho bytes he
    obtain ⟨j, hj, rfl⟩ := List.mem_iff_getElem.mp ho
    exact hsize j bytes (by simp [SlotTable.get, hj, he])
  rw [hsum, hmap]
  clear hsum hmap hsize
  induction t with
  | nil => rfl
  | cons o t ih =>
      rw [List.map_cons, List.sum_cons, ih fun o' ho' => hmem o' (List.mem_cons_of_mem _ ho'),
        List.countP_cons]
      cases o with
      | none => simp
      | some bytes =>
          have hlen := hmem (some bytes) List.mem_cons_self bytes rfl
          simp [hlen, Nat.mul_add, Nat.add_comm]

/-- A page has room for one more of its tuples, unless it has had as many as it can hold. -/
theorem fits_of_lt_capacity (hsize : ∀ j bytes, t.get j = some bytes → bytes.length = n)
    (hlen : t.length ≤ capacity n) (hlive : t.countP Option.isSome < capacity n) :
    SlottedPage.Fits t n ∧ (t.free + 1 ≤ capacity n) := by
  have hcap := capacity_mul_le n
  have hfree : t.free + 1 ≤ capacity n := by
    have hle := t.free_le
    rcases t.free_lt_or_full with hhole | hfull
    · omega
    · omega
  refine ⟨?_, hfree⟩
  unfold SlottedPage.Fits
  rw [bytesUsed_of_size hsize]
  have hslots : max t.length (t.free + 1) ≤ capacity n := Nat.max_le.mpr ⟨hlen, hfree⟩
  have hbytes : n * t.countP Option.isSome + n ≤ n * capacity n := by
    rw [← Nat.mul_succ]
    exact Nat.mul_le_mul_left n hlive
  have hsum : capacity n * (n + 8) = n * capacity n + 8 * capacity n := by
    rw [Nat.mul_add, Nat.mul_comm, Nat.mul_comm (capacity n) 8]
  simp only [headerSize, slotSize, pageSize]
  omega

theorem AtMost.entries_le (h : AtMost n k (mapOf c)) (hnodup : (c.map Prod.fst).Nodup) :
    (PagedTable.entries c).length ≤ k ∧ ∀ e ∈ PagedTable.entries c, e.2.length = n := by
  obtain ⟨hsize, rids, hlen, hmem⟩ := h
  have hget : ∀ e ∈ PagedTable.entries c, mapOf c (Entry.rid e) = some e.2 := fun e he =>
    (PagedTable.mem_entries_iff hnodup).mp he
  refine ⟨?_, fun e he => hsize _ _ (hget e he)⟩
  have hsub : (PagedTable.entries c).map Entry.rid ⊆ rids := by
    intro rid hr
    obtain ⟨e, he, rfl⟩ := List.mem_map.mp hr
    refine hmem _ ?_
    rw [hget e he]
    simp
  have hle := ((nodup_rids hnodup).subperm hsub).length_le
  rw [List.length_map] at hle
  exact Nat.le_trans hle hlen

theorem atMost_mapOf (hnodup : (c.map Prod.fst).Nodup) {bytes : List UInt8}
    (hbytes : bytes.length = n) (hsame : ∀ p ∈ c, ∀ o ∈ p.2, o = none ∨ o = some bytes)
    (hlive : (c.map fun p => p.2.countP Option.isSome).sum ≤ k) : AtMost n k (mapOf c) := by
  have hentry : ∀ rid bytes', mapOf c rid = some bytes' →
      ((rid.pageId, rid.slotNum), bytes') ∈ PagedTable.entries c := fun rid bytes' hr =>
    (PagedTable.mem_entries_iff hnodup).mpr hr
  refine ⟨fun rid bytes' hr => ?_,
    (PagedTable.entries c).map Entry.rid, ?_, fun rid hr => ?_⟩
  · obtain ⟨u, hu, hget⟩ := PagedTable.mem_entries.mp (hentry rid bytes' hr)
    have hlt := SlotTable.lt_length_of_get hget
    have hmem : some bytes' ∈ u := by
      rw [SlotTable.get, List.getElem?_eq_getElem hlt, Option.join_some] at hget
      rw [← hget]
      exact List.getElem_mem hlt
    rcases hsame _ hu _ hmem with he | he
    · cases he
    · cases he
      exact hbytes
  · rw [List.length_map, PagedTable.length_entries]
    exact hlive
  · obtain ⟨bytes', hb⟩ := Option.ne_none_iff_exists'.mp hr
    exact List.mem_map.mpr ⟨_, hentry rid bytes' hb, rfl⟩

theorem not_fits_full {bytes : List UInt8} (hbytes : bytes.length = n) :
    ¬ SlottedPage.Fits (List.replicate (capacity n) (some bytes)) n := by
  have hmore : 4072 < (capacity n + 1) * (n + 8) :=
    (Nat.div_lt_iff_lt_mul (by omega)).mp (Nat.lt_succ_self _)
  have hused := bytesUsed_of_size (t := List.replicate (capacity n) (some bytes)) (n := n)
    fun j bytes' hget => SlotTable.eq_of_get_replicate hget ▸ hbytes
  have hcount : (List.replicate (capacity n) (some bytes)).countP Option.isSome = capacity n := by
    rw [List.countP_replicate]
    rfl
  have hsum : (capacity n + 1) * (n + 8) = n * capacity n + n + 8 * (capacity n + 1) := by ring
  unfold SlottedPage.Fits
  rw [hused, hcount, SlotTable.free_replicate, List.length_replicate]
  simp only [headerSize, slotSize, pageSize]
  omega

/-- With no more live tuples than a page can hold, the table stays on its first page. -/
theorem Within.one_page (hk : k ≤ capacity n) (hr : Within file (fun s => AtMost n k s.map) s) :
    ∃ store l i t, Holds file s store l ∧ l.contents = [(i, t)] ∧ t.length ≤ capacity n := by
  induction hr with
  | create hs hopen hroom hr _ =>
      obtain ⟨store, hsharing, hnone⟩ := hs.sharing
      rcases Holds.create hsharing hnone hopen hroom with ⟨m, he, _⟩ |
        ⟨h, b, store', p, he, _, hholds, hslots, _⟩
      · cases he.symm.trans hr
      · cases he.symm.trans hr
        refine ⟨_, _, _, _, hholds, rfl, ?_⟩
        rw [hslots]
        exact Nat.zero_le _
  | @step s t _ hstep hp ih =>
      obtain ⟨store, l, i, u, hs, hl, hlen⟩ := ih
      obtain ⟨store', l', hs', heffect⟩ := hs.step hstep
      refine ⟨store', l', i, ?_⟩
      cases heffect with
      | same h => exact ⟨u, hs', h.trans hl, hlen⟩
      | @erases x h =>
          rw [hl] at h
          by_cases hx : i = x.1
          · refine ⟨u.erase x.2, hs', ?_, by rwa [SlotTable.length_erase]⟩
            rw [h, PagedTable.erase, List.map_singleton, if_pos hx]
          · refine ⟨u, hs', ?_, hlen⟩
            rw [h, PagedTable.erase, List.map_singleton, if_neg hx]
      | @adds bytes x hadds hfits =>
          have hmap : t.map = mapOf l'.contents := funext hs'.map
          rw [hmap] at hp
          obtain ⟨hcount, hsize⟩ := hp.entries_le hs'.nodup
          have hperm := hadds.entries_perm
          have hbytes : bytes.length = n := hsize _ (hperm.mem_iff.mpr List.mem_cons_self)
          have hlive : u.countP Option.isSome < capacity n := by
            rw [hperm.length_eq, List.length_cons, PagedTable.length_entries, hl] at hcount
            simp only [List.map_cons, List.map_nil, List.sum_cons, List.sum_nil] at hcount
            omega
          have hsized : ∀ j bytes, u.get j = some bytes → bytes.length = n := by
            intro j bytes' hget
            refine hsize ((i, j), bytes') (hperm.mem_iff.mpr (List.mem_cons_of_mem _ ?_))
            rw [hl]
            exact PagedTable.mem_entries.mpr ⟨u, List.mem_singleton.mpr rfl, hget⟩
          obtain ⟨hroom, hfree⟩ := fits_of_lt_capacity hsized hlen hlive
          have hmem := hfits ((lastFits_iff (show l.contents = [] ++ [(i, u)] from hl)).mpr
            (hbytes ▸ hroom))
          rw [hl, ← List.nil_append [(i, u)]] at hadds hmem
          obtain ⟨_, hl'⟩ := hadds.of_mem hmem
          refine ⟨u.insert bytes, hs', hl', ?_⟩
          rw [SlotTable.length_insert]
          exact Nat.max_le.mpr ⟨hlen, hfree⟩

/-! ## A table that grows -/

/-- `m` pages whose tuples are all deleted. -/
def emptied (n m : Nat) : PagedTable PageId (List UInt8) :=
  (List.range m).map fun i => (i, List.replicate (capacity n) none)

/-- The last page of a table gets more copies of its tuple, up to its capacity. -/
theorem Led.fill {P : (RecordId → Option (List UInt8)) → Prop}
    (pre : PagedTable PageId (List UInt8)) {bytes : List UInt8} (hbytes : bytes.length = n)
    (hn : 1 ≤ n) (hn' : n ≤ 4064)
    (hP : ∀ b ≤ capacity n, P (mapOf (pre ++ [(i, List.replicate b (some bytes))])))
    {b : Nat} (hb : b ≤ capacity n) {s : HeapState δ}
    (h : Led file P s (pre ++ [(i, List.replicate b (some bytes))])) :
    ∃ s' : HeapState δ,
      Led file P s' (pre ++ [(i, List.replicate (capacity n) (some bytes))]) := by
  induction hleft : capacity n - b generalizing b s with
  | zero =>
      obtain rfl : b = capacity n := by omega
      exact ⟨s, h⟩
  | succ left ih =>
      have hsize : ∀ j bytes', SlotTable.get (List.replicate b (some bytes)) j = some bytes' →
          bytes'.length = n := fun j bytes' hget => SlotTable.eq_of_get_replicate hget ▸ hbytes
      have hcount : (List.replicate b (some bytes)).countP Option.isSome = b := by
        rw [List.countP_replicate]
        rfl
      obtain ⟨hfits, _⟩ := fits_of_lt_capacity hsize (by rw [List.length_replicate]; omega)
        (by rw [hcount]; omega)
      obtain ⟨s', h'⟩ := Led.insert pre bytes (pre ++ [(i, List.replicate (b + 1) (some bytes))]) h
        (by omega) (by omega) (fun hno => absurd (hbytes ▸ hfits) hno) (.inl (hbytes ▸ hfits)) (by
          rw [hbytes, if_pos hfits, SlotTable.insert_replicate]) (hP (b + 1) (by omega))
      exact ih (by omega) h' (by omega)

/-- A page of copies of a tuple is emptied. -/
theorem Led.empty {P : (RecordId → Option (List UInt8)) → Prop}
    (pre post : PagedTable PageId (List UInt8)) {bytes : List UInt8}
    (hnodup : ((pre ++ (i, t) :: post).map Prod.fst).Nodup) {a r : Nat}
    (hP : ∀ a' ≤ a + r, ∀ r' ≤ r, P (mapOf (pre ++
      (i, List.replicate a' none ++ List.replicate r' (some bytes)) :: post)))
    {s : HeapState δ}
    (h : Led file P s (pre ++
      (i, List.replicate a none ++ List.replicate r (some bytes)) :: post)) :
    ∃ s' : HeapState δ, Led file P s' (pre ++ (i, List.replicate (a + r) none) :: post) := by
  induction r generalizing a s with
  | zero =>
      rw [List.replicate_zero, List.append_nil] at h
      exact ⟨s, h⟩
  | succ r ih =>
      obtain ⟨s', h'⟩ := h.delete ⟨i, a⟩ (pre ++
        (i, List.replicate (a + 1) none ++ List.replicate r (some bytes)) :: post)
        ⟨_, List.mem_append_right _ List.mem_cons_self, by simp⟩ (by
          rw [PagedTable.erase_middle (by simpa using hnodup), SlotTable.erase_replicate])
        (hP (a + 1) (by omega) r (by omega))
      rw [show a + (r + 1) = (a + 1) + r by omega]
      exact ih (fun a' ha' r' hr' => hP a' (by omega) r' (by omega)) h'

theorem emptied_succ (n m : Nat) :
    emptied n (m + 1) = emptied n m ++ [(m, List.replicate (capacity n) none)] := by
  rw [emptied, emptied, List.range_succ, List.map_append]
  rfl

theorem length_emptied (n m : Nat) : (emptied n m).length = m := by
  rw [emptied, List.length_map, List.length_range]

theorem map_fst_emptied (n m : Nat) : (emptied n m).map Prod.fst = List.range m := by
  rw [emptied, List.map_map]
  exact List.map_id _

theorem live_emptied (n m : Nat) :
    ((emptied n m).map fun p => p.2.countP Option.isSome).sum = 0 := by
  rw [List.sum_eq_zero]
  intro v hv
  obtain ⟨p, hp, rfl⟩ := List.mem_map.mp hv
  obtain ⟨j, _, rfl⟩ := List.mem_map.mp hp
  simp [List.countP_replicate]

/-- Behind emptied pages, the live tuples are in the rest. -/
theorem atMost_emptied {bytes : List UInt8} (hbytes : bytes.length = n) {m : Nat}
    {rest : PagedTable PageId (List UInt8)} (hkeys : rest.map Prod.fst = List.range' m rest.length)
    (hsame : ∀ p ∈ rest, ∀ o ∈ p.2, o = none ∨ o = some bytes)
    (hlive : (rest.map fun p => p.2.countP Option.isSome).sum ≤ k) :
    AtMost n k (mapOf (emptied n m ++ rest)) := by
  refine atMost_mapOf ?_ hbytes ?_ ?_
  · rw [List.map_append, map_fst_emptied, hkeys, List.range_eq_range']
    refine List.nodup_append'.mpr ⟨List.nodup_range', List.nodup_range', ?_⟩
    intro j hj hj'
    rw [List.mem_range'_1] at hj hj'
    omega
  · intro p hp o ho
    rcases List.mem_append.mp hp with hp | hp
    · obtain ⟨j, _, rfl⟩ := List.mem_map.mp hp
      exact .inl (List.eq_of_mem_replicate ho)
    · exact hsame p hp o ho
  · rw [List.map_append, List.sum_append, live_emptied, Nat.zero_add]
    exact hlive

theorem eq_some_of_mem_replicate {b : Nat} {bytes : List UInt8} {o : Option (List UInt8)}
    (ho : o ∈ List.replicate b (some bytes)) : o = none ∨ o = some bytes :=
  .inr (List.eq_of_mem_replicate ho)

/-- If one page cannot hold the live tuples, the table gets any number of pages. -/
theorem exists_grown {d : δ} (hopen : opened d file) (hn : 1 ≤ n) (hn' : n ≤ 4064)
    (hk : capacity n < k) {m : Nat} (hm : m < invalidPageId) :
    ∃ s : HeapState δ, Led file (fun map => AtMost n k map) s (emptied n m ++
      [(m, List.replicate (capacity n) (some (List.replicate n 0)))]) := by
  generalize hbytes : List.replicate n (0 : UInt8) = bytes
  have hlen : bytes.length = n := by rw [← hbytes, List.length_replicate]
  have hcap : 1 ≤ capacity n := (Nat.one_le_div_iff (by omega)).mpr (by omega)
  have hlast : ∀ m, ∀ b ≤ capacity n,
      AtMost n k (mapOf (emptied n m ++ [(m, List.replicate b (some bytes))])) := by
    intro m b hb
    refine atMost_emptied hlen rfl (fun p hp o ho => ?_) ?_
    · cases List.mem_singleton.mp hp
      exact eq_some_of_mem_replicate ho
    · simp [List.countP_replicate]
      omega
  induction m with
  | zero =>
      obtain ⟨s, hs⟩ : ∃ s : HeapState δ, Led file (fun map => AtMost n k map) s [(0, [])] :=
        Led.create 2 d hopen (by decide) (by decide)
          ⟨nofun, [], Nat.zero_le _, fun rid hr => absurd rfl hr⟩
      exact Led.fill (emptied n 0) hlen hn hn' (hlast 0) (Nat.zero_le _) hs
  | succ m ih =>
      obtain ⟨s, hs⟩ := ih (by omega)
      have htwo : ∀ t : SlotTable (List UInt8), (∀ o ∈ t, o = none ∨ o = some bytes) →
          t.countP Option.isSome ≤ capacity n →
          AtMost n k (mapOf (emptied n m ++ [(m, t), (m + 1, [some bytes])])) := by
        intro t ht hcount
        refine atMost_emptied hlen rfl (fun p hp o ho => ?_) ?_
        · rcases List.mem_cons.mp hp with rfl | hp
          · exact ht o ho
          · cases List.mem_singleton.mp hp
            exact .inr (List.mem_singleton.mp ho)
        · simp
          omega
      obtain ⟨s₁, h₁⟩ := Led.insert (emptied n m) bytes (emptied n m ++
        [(m, List.replicate (capacity n) (some bytes)), (m + 1, [some bytes])]) hs (by omega)
        (by omega) (fun _ => by simpa [length_emptied] using hm)
        (.inr ⟨0, by rw [SlotTable.get_replicate bytes hcap]; simp⟩)
        (by rw [hlen, if_neg (not_fits_full hlen)]; simp [length_emptied])
        (htwo _ (fun _ ho => eq_some_of_mem_replicate ho) (by simp [List.countP_replicate]))
      obtain ⟨s₂, h₂⟩ := Led.empty (t := []) (emptied n m) [(m + 1, [some bytes])] (by
          have hkeys := List.nodup_range (n := m + 2)
          rw [List.range_succ, List.range_succ, List.append_assoc] at hkeys
          rw [List.map_append, map_fst_emptied]
          exact hkeys) (fun a _ r hr => htwo _ (fun o ho => by
            rcases List.mem_append.mp ho with ho | ho
            · exact .inl (List.eq_of_mem_replicate ho)
            · exact eq_some_of_mem_replicate ho) (by
            simp [List.countP_append, List.countP_replicate]
            exact hr)) (a := 0) (r := capacity n) h₁
      rw [Nat.zero_add] at h₂
      rw [List.append_cons, ← emptied_succ] at h₂
      exact Led.fill (emptied n (m + 1)) hlen hn hn' (hlast (m + 1)) hcap h₂

end

/-! ## The map and the bound -/

section
variable {d : δ} {n k : Nat}

/-- The number of pages has a bound exactly if one page can hold the live tuples. -/
theorem pageCount_bounded_iff (hopen : opened d file) (hn : 1 ≤ n) (hn' : n ≤ 4064) :
    (∃ bound < invalidPageId, ∀ s : HeapState δ, Within file (fun s => AtMost n k s.map) s →
      s.pageCount file ≤ bound) ↔ k ≤ capacity n := by
  constructor
  · rintro ⟨bound, hlt, hbound⟩
    by_contra hk
    obtain ⟨s, hs⟩ := exists_grown hopen hn hn' (Nat.not_le.mp hk) hlt
    obtain ⟨store, l, hholds, hl⟩ := hs.holds
    have hcount := hbound s hs.within
    rw [hholds.pageCount_eq, ← Pages.length_contents, hl, List.length_append, length_emptied]
      at hcount
    exact Nat.not_succ_le_self bound hcount
  · intro hk
    refine ⟨1, by decide, fun s hs => ?_⟩
    obtain ⟨store, l, i, t, hholds, hl, _⟩ := hs.one_page hk
    rw [hholds.pageCount_eq, ← Pages.length_contents, hl]
    exact Nat.le_refl 1

theorem LedTo.isCandidate {P : (RecordId → Option (List UInt8)) → Prop}
    {c : PagedTable PageId (List UInt8)} {i m : PageId} {t : SlotTable (List UInt8)} {size : Nat}
    (h : LedTo file P s c m) (hmem : (i, t) ∈ c)
    (hroom : headerSize + slotSize * t.length + SlottedPage.bytesUsed t + (size + slotSize) ≤
      pageSize) : s.heap.IsCandidate size i := by
  obtain ⟨store, l, hs, rfl⟩ := h.holds
  obtain ⟨⟨j, p⟩, hx, he⟩ := List.mem_map.mp hmem
  cases he
  obtain ⟨pre, post, rfl⟩ := List.append_of_mem hx
  refine (hs.isCandidate_iff size j).mpr ⟨hs.mem_handed_iff.mpr (by simp), p, ?_, ?_⟩
  · rw [← hs.fileId]
    exact hs.sharing.pool.stored_eq hs.chain.stored.1
  · have hadd := hs.chain.page.1.usableSpace_add
    dsimp only at hroom
    rw [SlottedPage.length_slots, SlottedPage.bytesUsed_slots] at hroom
    omega

/-- Although a page of the map has the space for a tuple, the tuple goes to a page of the table
exactly if the last page has room for it and can be written. The number of pages of a table of
tuples of `n` bytes has a bound exactly if one page can hold those that are live. -/
theorem freeSpaceMap_used_iff (file : FileId) (d : δ) (hopen : opened d file) :
    (∀ (s : HeapState δ) (tuple : Tuple), Reachable file s → 1 ≤ tuple.storageSize →
      (∃ pageId, s.heap.IsCandidate tuple.storageSize pageId) →
        (Reuses file s tuple ↔ s.heap.FitsLast s.pool tuple.storageSize ∧
          (s.pool.pageTable ⟨file, s.heap.lastPageId⟩ ≠ none ∨ ¬ Full s.pool))) ∧
      ∀ n k, 1 ≤ n → n ≤ 4064 →
        ((∃ bound < invalidPageId, ∀ s : HeapState δ, Within file (fun s => AtMost n k s.map) s →
          s.pageCount file ≤ bound) ↔ k ≤ capacity n) := by
  refine ⟨fun s tuple hr hpos hcandidate => ?_, fun n k hn hn' => pageCount_bounded_iff hopen hn hn'⟩
  obtain ⟨store, l, hs⟩ := hr.holds
  obtain ⟨i, hi⟩ := hcandidate
  exact hs.reuses_iff tuple hpos (Nat.le_trans (hs.size_le_of_candidate hi) (by decide))

/-- The first of two pages has space for one byte and for eight, the last one for seven at most. -/
theorem freeSpaceMap_used_iff_two_pages : ∃ (s : HeapState Disk.PageMap) (long : List UInt8),
    Reachable 0 s ∧ s.map = mapOf (used 1 long) ∧
    (s.heap.IsCandidate 1 1 ∧ Reuses 0 s ⟨[1], .invalid⟩) ∧
    (s.heap.IsCandidate 8 1 ∧ ¬ Reuses 0 s ⟨[1, 2, 3, 4, 5, 6, 7, 8], .invalid⟩) ∧
    (∃ bound < invalidPageId, ∀ s : HeapState Disk.PageMap,
      Within 0 (fun s => AtMost 4000 1 s.map) s → s.pageCount 0 ≤ bound) ∧
    ¬ ∃ bound < invalidPageId, ∀ s : HeapState Disk.PageMap,
      Within 0 (fun s => AtMost 4000 2 s.map) s → s.pageCount 0 ≤ bound := by
  obtain ⟨s, long, hlen, hs, _⟩ := exists_used
  obtain ⟨hreuse, hbound⟩ := freeSpaceMap_used_iff (δ := Disk.PageMap) 0 .zero trivial
  have hone : s.heap.IsCandidate 1 1 := hs.isCandidate List.mem_cons_self (by decide)
  have height : s.heap.IsCandidate 8 1 := hs.isCandidate List.mem_cons_self (by decide)
  obtain ⟨store, l, hholds, hl⟩ := hs.holds
  have hfits : ∀ size ≤ SlottedPage.maxInsertSize, s.heap.FitsLast s.pool size ↔ size ≤ 7 := by
    intro size hsize
    rw [hholds.stored.fitsLast_iff hsize,
      lastFits_iff (hl.trans (used_eq_append 1 long)), fits_used hlen]
  have hno : ¬ Full s.pool := by
    obtain ⟨f, _, hf, _⟩ := hs.two
    exact hholds.sharing.pool.not_full_iff.mpr ⟨f, hf⟩
  refine ⟨s, long, hs.reachable, hs.map, ⟨hone, ?_⟩, ⟨height, ?_⟩,
    (hbound 4000 1 (by decide) (by decide)).mpr (by decide),
    fun h => absurd ((hbound 4000 2 (by decide) (by decide)).mp h) (by decide)⟩
  · exact (hreuse s ⟨[1], .invalid⟩ hs.reachable (by decide) ⟨1, hone⟩).mpr
      ⟨(hfits 1 (by decide)).mpr (by decide), .inr hno⟩
  · intro h
    obtain ⟨hlast, _⟩ := (hreuse s ⟨[1, 2, 3, 4, 5, 6, 7, 8], .invalid⟩ hs.reachable (by decide)
      ⟨1, height⟩).mp h
    exact absurd ((hfits 8 (by decide)).mp hlast) (by decide)

/-- The first page is empty again, and the last page is full. A tuple goes to a third page. With two
live tuples of this size at most, the table grows without bound. -/
theorem freeSpaceMap_not_used : (∃ (s : HeapState Disk.PageMap) (tuple : Tuple), Reachable 0 s ∧
    TwoUnpinned s.pool ∧ s.pool.HasRoom ∧ s.heap.IsCandidate tuple.storageSize 0 ∧
      ∃ rid b h, s.heap.insertTuple s.pool tuple = .ok (some rid, b, h) ∧ rid.pageId = 2 ∧
        ¬ Reuses 0 s tuple) ∧
    ∀ bound < invalidPageId, ∃ s : HeapState Disk.PageMap,
      Within 0 (fun s => AtMost 4000 2 s.map) s ∧ bound < s.pageCount 0 := by
  constructor
  · generalize hbytes : List.replicate 4000 (0 : UInt8) = bytes
    have hlen : bytes.length = 4000 := by rw [← hbytes, List.length_replicate]
    have hno : ¬ SlottedPage.Fits [some bytes] 4000 := by
      rw [SlottedPage.fits_singleton]
      omega
    have hempty : SlottedPage.Fits [] 4000 := by decide
    obtain ⟨s₀, h₀⟩ := exists_led 0
    obtain ⟨s₁, h₁⟩ := Led.insert [] bytes [(0, [some bytes])] h₀ (by omega) (by omega)
      (fun _ => by decide) (.inl (by rwa [hlen])) (by rw [hlen, if_pos hempty]; rfl) trivial
    obtain ⟨s₂, h₂⟩ := Led.insert [] bytes [(0, [some bytes]), (1, [some bytes])] h₁ (by omega)
      (by omega) (fun _ => (by decide : 1 < invalidPageId)) (.inr ⟨0, by simp [SlotTable.get]⟩)
      (by rw [hlen, if_neg hno]; rfl) trivial
    obtain ⟨s₃, h₃⟩ := h₂.delete ⟨0, 0⟩ [(0, [none]), (1, [some bytes])]
      ⟨_, List.mem_cons_self, by simp⟩ (by simp [PagedTable.erase, SlotTable.erase]) trivial
    obtain ⟨store, l, hs, hl⟩ := h₃.holds
    have hnone := hs.reuses_iff ⟨bytes, .invalid⟩ (by dsimp only; omega)
      (by dsimp only; rw [hlen]; decide)
    have hl' : l.contents = [(0, [none])] ++ [(1, [some bytes])] := hl
    rw [hs.stored.fitsLast_iff (by dsimp only; rw [hlen]; decide), lastFits_iff hl', hlen] at hnone
    obtain ⟨rid, b, h', _, _, he, _, _, _, hcase⟩ := hs.insert_last hl' bytes (by omega) (by omega)
      h₃.two (fun _ => h₃.hasRoom (by decide : 2 < invalidPageId)) (.inr ⟨0, by simp [SlotTable.get]⟩)
    rw [hlen, if_neg hno, h₃.next] at hcase
    refine ⟨s₃, ⟨bytes, .invalid⟩, h₃.reachable, h₃.twoUnpinned,
      h₃.hasRoom (by decide : 2 < invalidPageId), ?_, rid, b, h', he, hcase.1,
      fun hr => hno (hnone.mp hr).1⟩
    rw [Tuple.storageSize, hlen]
    exact h₃.isCandidate List.mem_cons_self (by decide)
  · intro bound hbound
    obtain ⟨s, hs⟩ := exists_grown (k := 2) (d := Disk.PageMap.zero) trivial (by decide : 1 ≤ 4000)
      (by decide) (by decide) hbound
    obtain ⟨store, l, hholds, hl⟩ := hs.holds
    refine ⟨s, hs.within, ?_⟩
    rw [hholds.pageCount_eq, ← Pages.length_contents, hl, List.length_append, length_emptied]
    exact Nat.lt_succ_self bound

end

end HeapState

end TurtleDb.Table
