import TurtleDb.Table.FiniteMap

/-!
# Opening an existing table

A table is flushed and opened again in a new pool, where it is alone. The new pool gives out page
ids from 0 on, and so may give out one that is in the table.
-/

namespace TurtleDb.Table

open TurtleDb.Lib TurtleDb.Buffer TurtleDb.Buffer.BufferPoolManager TurtleDb.Page LawfulPageDisk

/-- A heap alone in its pool, with the tuples that are to be in it. -/
structure OpenTable (δ : Type) where
  pool : BufferPoolManager δ
  heap : TableHeap
  live : List (RecordId × List UInt8)

variable {δ : Type} [PageDisk δ] [LawfulPageDisk δ]

omit [PageDisk δ] [LawfulPageDisk δ] in
/-- The rows are what is live in the heap. -/
def HeapState.Lists (s : HeapState δ) (rows : List (RecordId × List UInt8)) : Prop :=
  (rows.map Prod.fst).Nodup ∧ ∀ rid bytes, (rid, bytes) ∈ rows ↔ s.map rid = some bytes

/-- Page `i` is one of the table. -/
def Uses (b : BufferPoolManager δ) (file : FileId) (firstPageId i : PageId) : Prop :=
  Relation.ReflTransGen (HeapState.Next b file) firstPageId i

/-- With `n` more pages in the table its frames still have bytes of their own. -/
def Apart (b : BufferPoolManager δ) (file : FileId) (firstPageId : PageId) (n : Nat) : Prop :=
  b.frameCount ≤ frameLimit ∨ ∃ pages : List PageId,
    (∀ i, Uses b file firstPageId i → i ∈ pages) ∧ pages.length + n ≤ frameLimit

theorem Apart.roomFor {b : BufferPoolManager δ} {file : FileId} {firstPageId : PageId} {n : Nat}
    {store : PageKey → Option PageData} (h : Apart b file firstPageId n)
    (huses : ∀ k, store k ≠ none → k.fileId = file ∧ Uses b file firstPageId k.pageId) :
    RoomFor b.frameCount store n := by
  rcases h with hsmall | ⟨pages, hpages, hlen⟩
  · exact .inl hsmall
  · refine .inr ⟨pages.map fun i => ⟨file, i⟩, fun k hk => ?_, by rwa [List.length_map]⟩
    obtain ⟨hfile, hmem⟩ := huses k hk
    exact List.mem_map.mpr ⟨k.pageId, hpages _ hmem, by rw [← hfile]⟩

namespace OpenTable

/-- The tuple fits into the last page, or the next page id is not that of a page of the table. -/
def CanInsert (s : OpenTable δ) (tuple : Tuple) : Prop :=
  s.heap.FitsLast s.pool tuple.storageSize ∨
    ¬ Uses s.pool s.heap.fileId s.heap.firstPageId s.pool.nextPageId ∧
      s.pool.nextPageId < invalidPageId ∧ Apart s.pool s.heap.fileId s.heap.firstPageId 1

/-- The table is opened, and tuples are inserted with success as long as `C` holds. -/
inductive Run (d : δ) (poolSize fuel : Nat) (file : FileId) (firstPageId : PageId)
    (rows : List (RecordId × List UInt8)) (C : OpenTable δ → Tuple → Prop) :
    OpenTable δ → Prop where
  | openExisting {h b} (hr : TableHeap.openExisting fuel (BufferPoolManager.create poolSize d)
      file firstPageId = .ok (h, b)) : Run d poolSize fuel file firstPageId rows C ⟨b, h, rows⟩
  | insertTuple {s tuple rid b h} (hs : Run d poolSize fuel file firstPageId rows C s)
      (hpos : 0 < tuple.data.length) (hmax : tuple.data.length ≤ SlottedPage.maxInsertSize)
      (hc : C s tuple) (hr : s.heap.insertTuple s.pool tuple = .ok (some rid, b, h)) :
      Run d poolSize fuel file firstPageId rows C ⟨b, h, (rid, tuple.data) :: s.live⟩

/-- The links from page to page run into no cycle. -/
def Acyclic (s : OpenTable δ) : Prop :=
  ∀ i, Uses s.pool s.heap.fileId s.heap.firstPageId i →
    ¬ Relation.TransGen (HeapState.Next s.pool s.heap.fileId) i i

/-- An iteration ends, with the tuples that are to be in the table. -/
def Iterates (s : OpenTable δ) : Prop :=
  ∃ fuel rows b, s.heap.scan fuel s.pool = .ok (rows, b) ∧
    (rows.map fun r => (r.1, r.2.data)).Perm s.live

/-- The heap is the chain of the pages `l`, and these are all that the pool stores. -/
structure Intact (s : OpenTable δ) (store : PageKey → Option PageData) (l : Pages) : Prop where
  stored : Stored s.pool s.heap (fun _ => 0) (fun _ => False) store l
  only : ∀ k, store k ≠ none → k.fileId = s.heap.fileId ∧ k.pageId ∈ l.map Prod.fst
  frame : 0 < s.pool.frameCount
  live : ((PagedTable.entries l.contents).map fun e => (Entry.rid e, e.2)).Perm s.live

namespace Intact

variable {s : OpenTable δ} {store : PageKey → Option PageData} {l : Pages} {tuple : Tuple}

theorem not_full (hs : Intact s store l) : ¬ Full s.pool :=
  hs.stored.pool.not_full_iff.mpr ⟨0, hs.frame, fun _ _ => rfl⟩

theorem uses_iff (hs : Intact s store l) {i : PageId} :
    Uses s.pool s.heap.fileId s.heap.firstPageId i ↔ i ∈ l.map Prod.fst :=
  (hs.stored.linked.mem_iff_reached hs.stored.first_ne).symm

theorem acyclic (hs : Intact s store l) : s.Acyclic := fun _ hi =>
  hs.stored.linked.acyclic (hs.uses_iff.mp hi)

theorem iterates (hs : Intact s store l) : s.Iterates := by
  obtain ⟨b, he, _⟩ := hs.stored.chain.scan hs.stored.pool hs.stored.pins (.frame hs.not_full)
    (Nat.lt_succ_of_le (Nat.le_add_right l.length (PagedTable.entries l.contents).length))
    (Nat.lt_succ_of_le (Nat.le_add_left _ _))
  refine ⟨_, _, b, he, ?_⟩
  rw [List.map_map]
  exact hs.live

/-- What the condition on an insert says about the store. -/
theorem canGrow (hs : Intact s store l) (hc : s.CanInsert tuple)
    (hmax : tuple.data.length ≤ SlottedPage.maxInsertSize)
    (hno : ¬ LastFits l tuple.data.length) : CanGrow s.pool s.heap store := by
  rcases hc with hfits | ⟨hunused, hvalid, hapart⟩
  · exact absurd ((hs.stored.fitsLast_iff hmax).mp hfits) hno
  · refine ⟨?_, hvalid, ?_⟩
    · by_contra hne
      exact hunused (hs.uses_iff.mpr (hs.only _ hne).2)
    · exact hapart.roomFor fun k hk => ⟨(hs.only k hk).1, hs.uses_iff.mpr (hs.only k hk).2⟩

theorem insertTuple (hs : Intact s store l) {rid : RecordId} {b : BufferPoolManager δ}
    {h : TableHeap} (hpos : 0 < tuple.data.length)
    (hmax : tuple.data.length ≤ SlottedPage.maxInsertSize) (hc : s.CanInsert tuple)
    (hr : s.heap.insertTuple s.pool tuple = .ok (some rid, b, h)) :
    ∃ store' l', Intact ⟨b, h, (rid, tuple.data) :: s.live⟩ store' l' := by
  rcases hs.stored.insertTuple hpos hmax (hs.canGrow hc hmax) with ⟨⟨_, he⟩, _⟩ | ⟨_, he, _⟩ |
    ⟨rid', b', h', store', l', he, hlead, hadds, hcase⟩
  · cases he.symm.trans hr
  · cases he.symm.trans hr
  · cases he.symm.trans hr
    refine ⟨store', l', hlead.stored, fun k hk => ?_, ?_, ?_⟩
    · have hsub : ∀ i ∈ l.map Prod.fst, i ∈ l'.map Prod.fst := by
        intro i hi
        rw [← Pages.map_fst_contents] at hi ⊢
        exact hadds.subset hi
      rw [hlead.same.fileId]
      rcases hcase with ⟨_, _, _, hstore⟩ | ⟨_, rfl, _, hstore⟩
      · obtain ⟨hfile, hmem⟩ := hs.only k ((hstore k).mp hk)
        exact ⟨hfile, hsub _ hmem⟩
      · rcases (hstore k).mp hk with hk | rfl
        · obtain ⟨hfile, hmem⟩ := hs.only k hk
          exact ⟨hfile, hsub _ hmem⟩
        · obtain ⟨t, ht, _⟩ := hadds.place (.inr rfl)
          refine ⟨rfl, ?_⟩
          rw [← Pages.map_fst_contents]
          exact List.mem_map.mpr ⟨_, ht, rfl⟩
    · exact hlead.steady.frameCount ▸ hs.frame
    · refine (hadds.entries_perm.map _).trans ?_
      rw [List.map_cons]
      exact hs.live.cons _

end Intact

end OpenTable

/-! ## Opening -/

section

variable {b : BufferPoolManager δ} {h : TableHeap} {held : PageKey → Nat}
  {pending : PageKey → Prop} {store : PageKey → Option PageData} {l pre post : Pages} {i : PageId}
  {p : PageData} {fuel : Nat}

/-- The loop of the constructor runs to the last page. -/
theorem Chain.findLastPage (hp : Pool b held pending store)
    (hc : Chain h store (pre ++ (i, p) :: post)) (hheld : ∀ k, held k ≠ 2147483647)
    (hno : ¬ Full b) (hfuel : post.length < fuel) :
    ∃ b', TableHeap.findLastPage h.fileId fuel b i = .ok (some h.lastPageId, b') ∧
      Kept b b' held pending store := by
  induction post generalizing pre i p b fuel with
  | nil =>
      obtain ⟨fuel, rfl⟩ := Nat.exists_eq_succ_of_ne_zero (Nat.ne_of_gt hfuel)
      rcases hp.readPage hc.stored.1 (hheld _) with ⟨he, _⟩ | ⟨g, b₁, he, hdata, hkept⟩
      · exact absurd (readPage_none hp he).2.1 hno
      · refine ⟨_, ?_, hkept⟩
        simp only [TableHeap.findLastPage, he, ok_bind, hdata, hc.next_last, ne_eq,
          not_true_eq_false, if_false, hc.last_eq]
        rfl
  | cons x post ih =>
      obtain ⟨j, q⟩ := x
      obtain ⟨fuel, rfl⟩ :=
        Nat.exists_eq_succ_of_ne_zero (Nat.ne_of_gt (Nat.zero_lt_of_lt hfuel))
      rcases hp.readPage hc.stored.1 (hheld _) with ⟨he, _⟩ | ⟨g, b₁, he, hdata, hkept⟩
      · exact absurd (readPage_none hp he).2.1 hno
      · have hnext := hc.next_middle
        rw [List.append_cons] at hc
        obtain ⟨b', hr, hkept'⟩ := ih hkept.pool hc
          (hp.not_full_steady hkept.pool hkept.steady hno) (Nat.lt_of_succ_lt_succ hfuel)
        refine ⟨b', ?_, hkept.trans hkept'⟩
        simp only [TableHeap.findLastPage, he, ok_bind, hdata, hnext, ne_eq, hc.stored.2,
          not_false_eq_true, if_true]
        exact hr

end

namespace HeapState

variable {file : FileId} {s : HeapState δ} {store : PageKey → Option PageData} {l : Pages}
  {b : BufferPoolManager δ} {poolSize : Nat}

theorem not_writing (hr : Reachable file s) {k : PageKey} (hk : s.writing k) : k.fileId ≠ file := by
  induction hr generalizing k with
  | create hs _ _ _ _ => exact hs.not_writing hk
  | step _ hstep _ ih =>
      cases hstep with
      | others ho => exact ho.not_writing (fun _ => ih) hk
      | insertTuple _ _ _ _ => exact ih hk
      | markDelete _ _ => exact ih hk
      | getTuple _ _ => exact ih hk

omit [PageDisk δ] [LawfulPageDisk δ] in
theorem Lists.perm {rows rows' : List (RecordId × List UInt8)} (h : s.Lists rows)
    (h' : s.Lists rows') : rows.Perm rows' :=
  (List.perm_ext_iff_of_nodup h.1.of_map h'.1.of_map).mpr fun ⟨rid, bytes⟩ =>
    (h.2 rid bytes).trans (h'.2 rid bytes).symm

namespace Holds

theorem lists (hs : Holds file s store l) :
    s.Lists ((PagedTable.entries l.contents).map fun e => (Entry.rid e, e.2)) := by
  refine ⟨?_, fun rid bytes => ?_⟩
  · rw [List.map_map]
    exact nodup_rids hs.nodup
  · rw [hs.map, List.mem_map]
    constructor
    · rintro ⟨e, he, hx⟩
      cases hx
      exact (PagedTable.mem_entries_iff hs.nodup).mp he
    · intro hget
      have hmem : ((rid.pageId, rid.slotNum), bytes) ∈ PagedTable.entries l.contents :=
        (PagedTable.mem_entries_iff hs.nodup).mpr hget
      exact ⟨_, hmem, rfl⟩

/-- After a flush the disk has the table, and a new pool over it stores it. -/
theorem reopen (hr : Reachable file s) (hs : Holds file s store l)
    (hflush : s.pool.flushAllPages = .ok b)
    (hapart : Apart (BufferPoolManager.create poolSize b.diskManager) file s.heap.firstPageId 0) :
    ∃ store', Stored (BufferPoolManager.create poolSize b.diskManager) s.heap (fun _ => 0)
        (fun _ => False) store' l ∧
      ∀ k, store' k ≠ none → k.fileId = file ∧ k.pageId ∈ l.map Prod.fst := by
  obtain ⟨b', he, hbacks, _, _, _, _, hdisk⟩ := hs.sharing.pool.backs.flushAllPages
  cases he.symm.trans hflush
  generalize hstore' : (fun k : PageKey =>
    if k.fileId = file ∧ k.pageId ∈ l.map Prod.fst then store k else none) = store'
  have hsome : ∀ k, store' k ≠ none → k.fileId = file ∧ k.pageId ∈ l.map Prod.fst ∧
      store' k = store k := by
    intro k hk
    rw [← hstore'] at hk ⊢
    dsimp only at hk ⊢
    split at hk
    · exact ⟨‹_ ∧ _›.1, ‹_ ∧ _›.2, if_pos ‹_›⟩
    · exact absurd rfl hk
  have hpage : ∀ x ∈ l, store' ⟨file, x.1⟩ = store ⟨file, x.1⟩ := by
    intro x hx
    rw [← hstore']
    exact if_pos ⟨rfl, List.mem_map.mpr ⟨x, hx, rfl⟩⟩
  have hcontent : ∀ k data, store' k = some data → content b.diskManager k = some data := by
    intro k data hk
    obtain ⟨hfile, _, hsame⟩ := hsome k (by rw [hk]; simp)
    exact hdisk k data (hsame ▸ hk) fun hw => not_writing hr hw hfile
  have hchain : Chain s.heap store' l := by
    refine ⟨hs.chain.linked.congr fun x hx => ?_, hs.chain.last, hs.chain.pages⟩
    rw [hs.fileId]
    exact hpage x hx
  have hroom : RoomFor (BufferPoolManager.create poolSize b.diskManager).frameCount store' 0 := by
    have hlinked : Linked
        (fun i => (BufferPoolManager.create poolSize b.diskManager).stored ⟨file, i⟩)
        SlottedPage.getNextPageId invalidPageId s.heap.firstPageId l := by
      refine hs.chain.linked.congr fun x hx => ?_
      have hx' := (hs.chain.linked.node_eq hx).1
      rw [hs.fileId] at hx' ⊢
      rw [hx']
      exact hcontent _ _ ((hpage x hx).trans hx')
    refine hapart.roomFor fun k hk => ⟨(hsome k hk).1, ?_⟩
    exact (hlinked.mem_iff_reached hs.stored.first_ne).mp (hsome k hk).2.1
  refine ⟨store', ⟨.createOver poolSize _ hcontent (fun k hk => ?_) (fun k hk => ?_) hroom, hchain,
    fun _ => by decide⟩, fun k hk => ⟨(hsome k hk).1, (hsome k hk).2.1⟩⟩
  · exact hbacks.opened k ((hsome k hk).2.2 ▸ hk)
  · exact hbacks.valid k ((hsome k hk).2.2 ▸ hk)

end Holds

end HeapState

namespace OpenTable

variable {d : δ} {poolSize fuel : Nat} {file : FileId} {firstPageId : PageId}
  {rows : List (RecordId × List UInt8)} {t : OpenTable δ}

theorem openExisting {h : TableHeap} {store : PageKey → Option PageData} {l : Pages}
    (hs : Stored (BufferPoolManager.create poolSize d) h (fun _ => 0) (fun _ => False) store l)
    (hframe : 0 < (BufferPoolManager.create poolSize d).frameCount)
    (hfuel : l.length ≤ fuel) :
    ∃ h' b, TableHeap.openExisting fuel (BufferPoolManager.create poolSize d) h.fileId
        h.firstPageId = .ok (h', b) ∧
      Stored b h' (fun _ => 0) (fun _ => False) store l ∧ SameTable h h' ∧
      b.frameCount = (BufferPoolManager.create poolSize d).frameCount ∧ b.nextPageId = 0 := by
  have hno : ¬ Full (BufferPoolManager.create poolSize d) :=
    hs.pool.not_full_iff.mpr ⟨0, hframe, fun _ _ => rfl⟩
  cases l with
  | nil => cases hs.chain.last
  | cons x post =>
      have hc : Chain h store ([] ++ x :: post) := hs.chain
      obtain ⟨b, hr, hkept⟩ := hc.findLastPage hs.pool hs.pins hno hfuel
      rw [← hs.chain.first_eq] at hr
      have hchain : Chain { h with freeSpaceMap := fun _ => none } store (x :: post) :=
        ⟨hs.chain.linked, hs.chain.last, hs.chain.pages⟩
      refine ⟨_, b, ?_, ⟨hkept.pool, hchain, hs.pins⟩, ⟨rfl, rfl⟩, hkept.steady.frameCount,
        hkept.next⟩
      rw [TableHeap.openExisting, hr]
      rfl

theorem Intact.openExisting {s : HeapState δ} {store : PageKey → Option PageData} {l : Pages}
    {b : BufferPoolManager δ} (hr : HeapState.Reachable file s)
    (hs : HeapState.Holds file s store l) (hflush : s.pool.flushAllPages = .ok b)
    (hrows : s.Lists rows)
    (hframe : 0 < (BufferPoolManager.create poolSize b.diskManager).frameCount)
    (hapart : Apart (BufferPoolManager.create poolSize b.diskManager) file s.heap.firstPageId 0)
    (hfuel : s.pageCount file ≤ fuel) :
    ∃ h b' store', TableHeap.openExisting fuel (BufferPoolManager.create poolSize b.diskManager)
        file s.heap.firstPageId = .ok (h, b') ∧
      Intact ⟨b', h, rows⟩ store' l ∧ SameTable s.heap h ∧
      b'.frameCount = (BufferPoolManager.create poolSize b.diskManager).frameCount ∧
      b'.nextPageId = 0 := by
  obtain ⟨store', hstored, honly⟩ := hs.reopen hr hflush hapart
  rw [hs.pageCount_eq] at hfuel
  obtain ⟨h, b', he, hopened, hsame, hcount, hnext⟩ :=
    OpenTable.openExisting hstored hframe hfuel
  rw [hs.fileId] at he
  refine ⟨h, b', store', he, ⟨hopened, fun k hk => ?_, hcount ▸ hframe, hs.lists.perm hrows⟩, hsame,
    hcount, hnext⟩
  obtain ⟨hfile, hmem⟩ := honly k hk
  exact ⟨hfile.trans (hs.fileId.symm.trans hsame.fileId.symm), hmem⟩

/-- From a table that is opened as it was, each insert keeps it intact. -/
theorem Run.intact (h : Run d poolSize fuel file firstPageId rows CanInsert t)
    (hopen : ∀ h b, TableHeap.openExisting fuel (BufferPoolManager.create poolSize d) file
      firstPageId = .ok (h, b) → ∃ store l, Intact ⟨b, h, rows⟩ store l) :
    ∃ store l, Intact t store l := by
  induction h with
  | openExisting hr => exact hopen _ _ hr
  | insertTuple _ hpos hmax hc hr ih =>
      obtain ⟨store, l, hs⟩ := ih
      exact hs.insertTuple hpos hmax hc hr

end OpenTable

open OpenTable in
/-- A table that was flushed and is opened again is intact as long as no insert is given the id of
one of its pages. -/
theorem reopened_intact (file : FileId) (s : HeapState δ) (hr : HeapState.Reachable file s)
    (b : BufferPoolManager δ) (hflush : s.pool.flushAllPages = .ok b)
    (rows : List (RecordId × List UInt8)) (hrows : s.Lists rows) (poolSize fuel : Nat)
    (hframe : 0 < (BufferPoolManager.create poolSize b.diskManager).frameCount)
    (hapart : Apart (BufferPoolManager.create poolSize b.diskManager) file s.heap.firstPageId 0)
    (hfuel : s.pageCount file ≤ fuel) :
    (∃ h b', TableHeap.openExisting fuel (BufferPoolManager.create poolSize b.diskManager) file
        s.heap.firstPageId = .ok (h, b')) ∧
      ∀ t, Run b.diskManager poolSize fuel file s.heap.firstPageId rows CanInsert t →
        t.Acyclic ∧ t.Iterates := by
  obtain ⟨store, l, hs⟩ := hr.holds
  obtain ⟨h, b', store', he, hopened, _⟩ :=
    Intact.openExisting hr hs hflush hrows hframe hapart hfuel
  refine ⟨⟨h, b', he⟩, fun t ht => ?_⟩
  obtain ⟨_, _, hintact⟩ := ht.intact fun h'' b'' he' => by
    cases he.symm.trans he'
    exact ⟨store', l, hopened⟩
  exact ⟨hintact.acyclic, hintact.iterates⟩

open OpenTable in
/-- A table with live and deleted tuples on the pages 1 and 2 is opened again. The next tuple has no
room in the last page and goes to a new page with the id 0. -/
theorem reopened_intact_used : ∃ (s : HeapState Disk.PageMap) (b : BufferPoolManager Disk.PageMap)
    (long : List UInt8) (rows : List (RecordId × List UInt8)) (t : OpenTable Disk.PageMap),
      HeapState.Reachable 0 s ∧ s.map = HeapState.mapOf (HeapState.used 1 long) ∧
      s.pool.flushAllPages = .ok b ∧ s.Lists rows ∧
      Run b.diskManager 2 (s.pageCount 0) 0 s.heap.firstPageId rows CanInsert t ∧
      t.live = (⟨0, 0⟩, long) :: rows ∧ t.Acyclic ∧ t.Iterates := by
  obtain ⟨s, long, hlen, hled, _⟩ := HeapState.exists_used
  have hpos : 0 < long.length := hlen ▸ (by decide)
  have hmax : long.length ≤ SlottedPage.maxInsertSize := hlen ▸ (by decide)
  obtain ⟨store, l, hs, hl⟩ := hled.holds
  obtain ⟨b, hflush, _⟩ := hs.sharing.pool.backs.flushAllPages
  obtain ⟨rows, hrows⟩ : ∃ rows, s.Lists rows := ⟨_, hs.lists⟩
  have hframe : 0 < (BufferPoolManager.create 2 b.diskManager).frameCount :=
    (by decide : 0 < trunc32 2)
  have hapart : Apart (BufferPoolManager.create 2 b.diskManager) 0 s.heap.firstPageId 0 :=
    .inl (by decide : trunc32 2 ≤ frameLimit)
  obtain ⟨h, b', store', hopen, hopened, hsame, hcount, hnext⟩ :=
    Intact.openExisting hled.reachable hs hflush hrows hframe hapart (Nat.le_refl _)
  have htwo : b'.frameCount = 2 := hcount
  have hpages : l.map Prod.fst = [1, 2] := by
    rw [← Pages.map_fst_contents, hl]
    rfl
  have hcan : CanInsert ⟨b', h, rows⟩ ⟨long, .invalid⟩ := by
    refine .inr ⟨?_, by rw [hnext]; decide, .inl (by rw [htwo]; decide)⟩
    rw [hnext, hopened.uses_iff, hpages]
    decide
  have hl' := hl.trans (HeapState.used_eq_append 1 long)
  have hno : ¬ LastFits l long.length := by
    rw [HeapState.lastFits_iff hl', HeapState.fits_used hlen]
    omega
  have hsome : ¬ LastEmpty l := by
    rw [HeapState.lastEmpty_iff hopened.stored.chain hl']
    exact fun hnone => nomatch hnone 0
  have hobtain : TwoObtainable b' fun _ => 0 :=
    ⟨0, 1, ⟨by rw [htwo]; decide, fun _ _ => rfl⟩, ⟨by rw [htwo]; decide, fun _ _ => rfl⟩, by decide⟩
  rcases hopened.stored.insertTuple hpos hmax (hopened.canGrow hcan hmax) with
    ⟨_, _, hwhy⟩ | ⟨_, _, _, hfew⟩ | ⟨rid, b₂, h₂, _, _, hins, _, _, hcase⟩
  · rcases hwhy with hzero | hlong
    · exact absurd hzero hsome
    · exact absurd hlong (by dsimp only; omega)
  · exact absurd hobtain hfew
  · rcases hcase with ⟨hfits, _⟩ | ⟨_, hrid, _⟩
    · exact absurd hfits hno
    · have hrun := Run.insertTuple (.openExisting hopen) hpos hmax hcan hins
      rw [hrid, hnext] at hrun
      exact ⟨s, b, long, rows, _, hled.reachable, hled.map, hflush, hrows, hrun, rfl,
        (reopened_intact 0 s hled.reachable b hflush _ hrows 2 _ hframe hapart
          (Nat.le_refl _)).2 _ hrun⟩

/-! ## A page id that is in use -/

section

variable {b b' : BufferPoolManager δ} {h : TableHeap} {i : PageId} {f : FrameId}
  {it it' : TableIterator} {n k fuel : Nat}

omit [LawfulPageDisk δ] in
/-- An iterator on the last page, which is in the pool. -/
theorem advanceToValid_last (htable : b.pageTable ⟨h.fileId, i⟩ = some f) (hi : i ≠ invalidPageId)
    (hnext : SlottedPage.getNextPageId (b.data f) = invalidPageId) (hid : it.currentId = ⟨i, n⟩)
    (hk : TableIterator.skipDeleted (b.data f) n (SlottedPage.slotCount (b.data f) - n) = k)
    (hr : it.advanceToValid h fuel b = .ok (it', b')) :
    b'.pageTable = b.pageTable ∧ b'.data f = b.data f ∧
      (it'.currentId = TableHeap.finish ∨
        k < SlottedPage.slotCount (b.data f) ∧ it'.currentId = ⟨i, k⟩) := by
  cases fuel with
  | zero => cases hr
  | succ fuel =>
      unfold TableIterator.advanceToValid readPage fetchPage at hr
      simp only [hid, hi, if_false, htable] at hr
      split at hr
      · cases hr
      · simp only [ok_bind] at hr
        generalize hb₁ : (b.setPage f _).recordPin f i = b₁ at hr
        have hsame : b₁.pageTable = b.pageTable ∧ b₁.data f = b.data f := by
          rw [← hb₁]
          exact ⟨rfl, rfl⟩
        obtain ⟨htable₂, hdata₂, _⟩ :=
          unpinPage_keeps b₁ (b₁.pages f).fileId (b₁.pages f).pageId false
        have hsame₂ : (ReadPageGuard.drop b₁ f).pageTable = b.pageTable ∧
            (ReadPageGuard.drop b₁ f).data f = b.data f :=
          ⟨htable₂.trans hsame.1, (congrFun hdata₂ _).trans hsame.2⟩
        rw [hsame.2, hk, hnext] at hr
        split at hr
        · obtain ⟨bytes, _, he⟩ := bind_eq_ok.mp hr
          cases he
          exact ⟨hsame₂.1, hsame₂.2, .inr ⟨‹_›, rfl⟩⟩
        · cases fuel with
          | zero => cases hr
          | succ fuel =>
              rw [TableIterator.advanceToValid, if_pos rfl] at hr
              cases hr
              exact ⟨hsame₂.1, hsame₂.2, .inl rfl⟩

omit [LawfulPageDisk δ] in
theorem visit_finish {steps : Nat} {rows : List (RecordId × Tuple)}
    (hid : it.currentId = TableHeap.finish)
    (hr : TableHeap.visit fuel h steps b it = .ok (rows, b')) : rows = [] := by
  cases steps with
  | zero => cases hr
  | succ steps =>
      rw [TableHeap.visit, if_pos hid] at hr
      cases hr
      rfl

omit [LawfulPageDisk δ] in
theorem length_scan_le {rows : List (RecordId × Tuple)}
    (htable : b.pageTable ⟨h.fileId, h.firstPageId⟩ = some f) (hi : h.firstPageId ≠ invalidPageId)
    (hnext : SlottedPage.getNextPageId (b.data f) = invalidPageId)
    (hcount : SlottedPage.slotCount (b.data f) = 1) (hr : h.scan fuel b = .ok (rows, b')) :
    rows.length ≤ 1 := by
  obtain ⟨⟨it, b₁⟩, hstart, hvisit⟩ := bind_eq_ok.mp hr
  rw [TableHeap.start, TableIterator.make, if_pos hi] at hstart
  obtain ⟨htable₁, hdata₁, hcase⟩ := advanceToValid_last htable hi hnext rfl rfl hstart
  rcases hcase with hfinish | ⟨hlt, hid⟩
  · rw [visit_finish hfinish hvisit]
    exact Nat.zero_le 1
  -- the tuple of the one slot, and then the end
  rw [hcount, Nat.lt_one_iff] at hlt
  rw [hcount, hlt] at hid
  change TableHeap.visit fuel h fuel b₁ it = .ok (rows, b') at hvisit
  generalize hsteps : fuel = steps at hvisit
  cases steps with
  | zero => cases hvisit
  | succ steps =>
      have hne : it.currentId ≠ TableHeap.finish := by
        rw [hid]
        exact fun he => hi (congrArg RecordId.pageId he)
      rw [TableHeap.visit, if_neg hne] at hvisit
      obtain ⟨⟨it₂, b₂⟩, hinc, hrest⟩ := bind_eq_ok.mp hvisit
      obtain ⟨⟨rest, b₃⟩, hrest, hrows⟩ := bind_eq_ok.mp hrest
      cases hrows
      rw [← hdata₁] at hnext hcount
      rw [← htable₁] at htable
      obtain ⟨_, _, hcase⟩ := advanceToValid_last htable hi hnext (by rw [hid]) rfl hinc
      rcases hcase with hfinish | ⟨hlt, _⟩
      · rw [visit_finish hfinish hrest]
        exact Nat.le_refl 1
      · rw [hcount] at hlt
        exact absurd hlt (Nat.lt_irrefl 1)

end

/-- In a pool of two frames the full page 0 is replaced by a new page 0. -/
theorem insertTuple_replaces {b : BufferPoolManager Disk.PageMap} {h : TableHeap}
    {store : PageKey → Option PageData} {p : PageData} {bytes : List UInt8}
    (hs : Stored b h (fun _ => 0) (fun _ => False) store [(0, p)])
    (honly : ∀ k, store k ≠ none → k ∈ [(⟨h.fileId, 0⟩ : PageKey)]) (hcount : b.frameCount = 2)
    (hnext : b.nextPageId = 0) (hslots : SlottedPage.slots p = [some bytes])
    (hlen : bytes.length = 4064) :
    ∃ rid b' h', h.insertTuple b ⟨bytes, .invalid⟩ = .ok (some rid, b', h') ∧ SameTable h h' ∧
      b'.pageTable ⟨h.fileId, 0⟩ = some 1 ∧ SlottedPage.slotCount (b'.data 1) = 1 ∧
      SlottedPage.getNextPageId (b'.data 1) = invalidPageId := by
  have hc : Chain h store ([] ++ [(0, p)]) := hs.chain
  have hp := hc.stored.1
  have hlast := hc.last_eq
  rcases hs.pool.fetchPage hp (hs.pins ⟨h.fileId, 0⟩) with ⟨_, hall⟩ |
    ⟨g, b₁, he, hp₁, hg, hnext₁, hst⟩
  · obtain ⟨k, _, hk⟩ := hall 0 (by rw [hcount]; exact Nat.two_pos)
    exact absurd hk (Nat.lt_irrefl 0)
  have hdata := hp₁.data_eq hp hg
  obtain rfl : g = 0 := Nat.lt_one_iff.mp (hp₁.frame_lt honly hg)
  have hfree : (b₁.setData 0 p).freeFrames = [1] := by
    have hfree := hp₁.free_of_resident honly (List.nodup_singleton _) fun k hk => by
      rw [List.mem_singleton.mp hk, hg]
      simp
    rw [hst.frameCount, hcount] at hfree
    exact hfree
  have hstruct : Structural (b₁.setData 0 p) none :=
    hp₁.backs.structural.congr rfl rfl rfl rfl rfl
  obtain ⟨b₂, hn, _, _, hzero⟩ := Client.newPage_head hstruct hfree h.fileId
  obtain ⟨_, _, _, htable, _⟩ := hstruct.newPage_head hfree hn
  have hid : (b₁.setData 0 p).nextPageId = 0 := hnext₁.trans hnext
  rw [hid] at hn htable
  obtain ⟨hq, hfull⟩ := HeapState.insertTuple_full_page hc.page.1 hslots hlen
  subst hdata
  obtain ⟨rid, b', h', hins, hgrown⟩ := HeapState.insertTuple_grows ⟨bytes, .invalid⟩
    (hlen ▸ (by decide) : 0 < bytes.length) (Nat.le_of_eq hlen) (by rw [hlast]; exact he) hq hfull
    hn hzero (by decide) (by decide)
  refine ⟨rid, b', h', hins, hgrown.same, ?_, ?_, hgrown.next⟩
  · rw [hgrown.table, htable, Function.update_self]
  · rw [← SlottedPage.length_slots, hgrown.slots]
    rfl

open OpenTable in
/-- A tuple that fills the first page is flushed, and the table opened again. The next such tuple
gets a new page with the id 0, which takes the place of the first page. -/
theorem reopened_loses : ∃ (s : HeapState Disk.PageMap) (b : BufferPoolManager Disk.PageMap)
    (rows : List (RecordId × List UInt8)) (t : OpenTable Disk.PageMap), HeapState.Reachable 0 s ∧
      s.pool.flushAllPages = .ok b ∧ s.Lists rows ∧
      Run b.diskManager 2 (s.pageCount 0) 0 s.heap.firstPageId rows (fun _ _ => True) t ∧
      ¬ t.Iterates := by
  generalize hbytes : List.replicate 4064 (0 : UInt8) = bytes
  have hlen : bytes.length = 4064 := by rw [← hbytes, List.length_replicate]
  have hempty : SlottedPage.Fits [] bytes.length := SlottedPage.fits_nil.mpr (Nat.le_of_eq hlen)
  obtain ⟨s₀, h₀⟩ := HeapState.exists_led 0
  obtain ⟨s, hled⟩ := HeapState.Led.insert [] bytes [(0, [some bytes])] h₀ (by omega) (by omega)
    (fun _ => by decide) (.inl hempty) (by rw [if_pos hempty]; rfl) trivial
  obtain ⟨store, l, hs, hl⟩ := hled.holds
  obtain ⟨b, hflush, _⟩ := hs.sharing.pool.backs.flushAllPages
  obtain ⟨rows, hrows⟩ : ∃ rows, s.Lists rows := ⟨_, hs.lists⟩
  have hapart : Apart (BufferPoolManager.create 2 b.diskManager) 0 s.heap.firstPageId 0 :=
    .inl (by decide : trunc32 2 ≤ frameLimit)
  have hframe : 0 < (BufferPoolManager.create 2 b.diskManager).frameCount :=
    (by decide : 0 < trunc32 2)
  obtain ⟨h, b', store', hopen, hopened, hsame, hcount, hnext⟩ :=
    Intact.openExisting hled.reachable hs hflush hrows hframe hapart (Nat.le_refl _)
  obtain ⟨⟨i, p⟩, rfl, hx⟩ := List.map_eq_singleton_iff.mp hl
  obtain ⟨rfl, hslots⟩ := Prod.mk.inj hx
  have hfile : h.fileId = 0 := hsame.fileId.trans hs.fileId
  have hfirst : h.firstPageId = 0 := hopened.stored.chain.first_eq
  have hone : ∀ k, store' k ≠ none → k ∈ [(⟨h.fileId, 0⟩ : PageKey)] := by
    rintro ⟨kfile, kpage⟩ hk
    obtain ⟨hkfile, hkpage⟩ := hopened.only _ hk
    rw [List.mem_singleton, PageKey.mk.injEq]
    exact ⟨hkfile, List.mem_singleton.mp hkpage⟩
  obtain ⟨rid, b'', h', hins, hsame', htable, hslot, hlast⟩ := insertTuple_replaces hopened.stored hone
    (hcount.trans (by decide : trunc32 2 = 2)) hnext hslots hlen
  refine ⟨s, b, rows, _, hled.reachable, hflush, hrows, .insertTuple (.openExisting hopen)
    (hlen ▸ (by decide) : 0 < bytes.length) (hlen ▸ (by decide)) trivial hins, ?_⟩
  rintro ⟨fuel, rows', b₃, hscan, hperm⟩
  have hfirst' : h'.firstPageId = 0 := hsame'.firstPageId.trans hfirst
  have hle : rows'.length ≤ 1 := by
    refine length_scan_le ?_ ?_ hlast hslot hscan
    · rw [hsame'.fileId, hfirst']
      exact htable
    · rw [hfirst']
      decide
  have hmem : ((⟨0, 0⟩ : RecordId), bytes) ∈ rows := by
    rw [hrows.2, hs.map, PagedTable.get_of_mem hs.nodup List.mem_cons_self, hslots]
    simp [SlotTable.get]
  have hpos := List.length_pos_of_mem hmem
  have hlen' := hperm.length_eq
  rw [List.length_map, List.length_cons] at hlen'
  rw [hlen'] at hle
  exact Nat.not_lt.mpr (Nat.le_of_succ_le_succ hle) hpos

end TurtleDb.Table
