import TurtleDb.Table.ScanRuns
import TurtleDb.Table.TupleCount

/-!
# Scans of a table that changes

A scan reads page after page, and between its steps tuples of the table may be deleted. It stands at
a tuple all the while, so what it has still to read is not touched by a delete of another one.
-/

namespace TurtleDb.Table

open TurtleDb.Lib TurtleDb.Buffer TurtleDb.Buffer.BufferPoolManager TurtleDb.Page

theorem Reads.erase {c : PagedTable PageId (List UInt8)} {it : TableIterator} {rows : List Entry}
    (hr : Reads c it rows) {x : PageId × Nat} (hx : x ∉ rows.map Prod.fst) :
    Reads (PagedTable.erase c x) it rows := by
  refine ⟨?_, hr.recordId, hr.current, hr.finished⟩
  rw [PagedTable.ahead_erase, hr.ahead]
  refine List.filter_eq_self.mpr fun e he => ?_
  have hne : e.1 ≠ x := fun heq => hx (heq ▸ List.mem_map.mpr ⟨e, he, rfl⟩)
  simpa using hne

namespace HeapState

variable {δ : Type} [PageDisk δ] [LawfulPageDisk δ] {file : FileId} {s t : HeapState δ}
  {store : PageKey → Option PageData} {l : Pages} {b : BufferPoolManager δ} {h : TableHeap}
  {it it' : TableIterator} {rid : RecordId} {f : FrameId} {i : PageId} {fuel : Nat}

/-! ## The pool after a step -/

/-- Reading a page of the table is a step of a run, as `get_tuple` makes it. -/
theorem Reachable.readPage (hr : Reachable file s) (hfile : s.heap.fileId = file)
    (hi : ⟨file, i⟩ ∈ s.handed) (he : s.pool.readPage file i = .ok (some f, b)) :
    Reachable file { s with pool := ReadPageGuard.drop b f } := by
  obtain ⟨r, hget⟩ : ∃ r, s.heap.getTuple s.pool ⟨i, 0⟩ .empty = .ok (r, ReadPageGuard.drop b f) := by
    rw [TableHeap.getTuple, hfile, he, ok_bind]
    dsimp only
    cases SlottedPage.tuple (b.data f) ⟨i, 0⟩ with
    | error fault => exact ⟨_, rfl⟩
    | ok bytes => exact ⟨_, rfl⟩
  have hpage : (⟨file, (⟨i, 0⟩ : RecordId).pageId⟩ : PageKey) ∈ s.handed := hi
  exact .step hr (.getTuple hpage hget) trivial

/-- The iterator is on a page of the table, or at the end. -/
def OnTable (file : FileId) (s : HeapState δ) (it : TableIterator) : Prop :=
  it.currentId.pageId = invalidPageId ∨ ⟨file, it.currentId.pageId⟩ ∈ s.handed

/-- A page of the table leads to another one, or to the end. -/
theorem Holds.next_mem (hs : Holds file s store l) {p : PageData} (hx : (i, p) ∈ l) :
    SlottedPage.getNextPageId p = invalidPageId ∨
      ⟨file, SlottedPage.getNextPageId p⟩ ∈ s.handed := by
  obtain ⟨pre, post, rfl⟩ := List.append_of_mem hx
  cases post with
  | nil => exact .inl hs.chain.next_last
  | cons y post =>
      obtain ⟨j, q⟩ := y
      rw [hs.mem_handed_iff, hs.chain.next_middle]
      exact .inr (by simp)

/-- Wherever the iterator stops, the run goes on. -/
theorem Reachable.advanceToValid (hr : Reachable file s) (hit : OnTable file s it)
    (he : TableIterator.advanceToValid s.heap fuel s.pool it = .ok (it', b)) :
    Reachable file { s with pool := b } ∧ Steady s.pool b s.held ∧
      b.nextPageId = s.pool.nextPageId ∧ OnTable file s it' := by
  induction fuel generalizing s it with
  | zero => cases he
  | succ fuel ih =>
      rw [TableIterator.advanceToValid] at he
      by_cases hend : it.currentId.pageId = invalidPageId
      · rw [if_pos hend] at he
        cases he
        exact ⟨hr, .refl _ _, rfl, .inl rfl⟩
      · have hi := hit.resolve_left hend
        obtain ⟨store, l, hs⟩ := hr.holds
        obtain ⟨⟨i, p⟩, hx, hxi⟩ := List.mem_map.mp (hs.mem_pages hi)
        have hstored := (hs.chain.linked.node_eq hx).1
        rw [if_neg hend, ← hxi] at he
        rcases hs.sharing.pool.readPage (k := ⟨s.heap.fileId, i⟩) hstored (hs.stored.pins _) with
          ⟨hread, _⟩ | ⟨f, b₁, hread, hdata, hkept⟩
        · rw [hread] at he
          cases he
          exact ⟨hr, .refl _ _, rfl, hit⟩
        · have hr₁ : Reachable file { s with pool := ReadPageGuard.drop b₁ f } := by
            refine hr.readPage hs.fileId ?_ (by rw [← hs.fileId]; exact hread)
            rw [← hxi] at hi
            exact hi
          rw [hread, ok_bind] at he
          simp only [hdata] at he
          split at he
          · obtain ⟨bytes, _, he⟩ := bind_eq_ok.mp he
            cases he
            refine ⟨hr₁, hkept.steady, hkept.next, .inr ?_⟩
            rw [← hxi] at hi
            exact hi
          · have hnext : OnTable file { s with pool := ReadPageGuard.drop b₁ f }
                { it with currentId := ⟨SlottedPage.getNextPageId p, 0⟩ } := hs.next_mem hx
            obtain ⟨hr', hst, hid, hit'⟩ := ih hr₁ hnext he
            exact ⟨hr', hkept.steady.trans hst, hid.trans hkept.next, hit'⟩

theorem Reachable.start (hr : Reachable file s) (he : s.heap.start fuel s.pool = .ok (it, b)) :
    Reachable file { s with pool := b } ∧ Steady s.pool b s.held ∧
      b.nextPageId = s.pool.nextPageId ∧ OnTable file s it := by
  rw [TableHeap.start, TableIterator.make] at he
  split at he
  · refine hr.advanceToValid (.inr ?_) he
    obtain ⟨store, l, hs⟩ := hr.holds
    obtain ⟨x, post, rfl⟩ : ∃ x post, l = x :: post := by
      obtain ⟨pre, p, rfl⟩ := hs.chain.exists_last
      exact List.exists_cons_of_ne_nil (by simp)
    rw [hs.mem_handed_iff, hs.chain.first_eq]
    exact List.mem_cons_self
  · cases he
    exact ⟨hr, .refl _ _, rfl, .inl (not_not.mp ‹_›)⟩

/-- What can be read stays so as long as the pinned pages stay in their frames. -/
theorem Holds.canRead_steady (hs : Holds file s store l) {store' : PageKey → Option PageData}
    {l' : Pages} (ht : Holds file t store' l') (hheld : t.held = s.held)
    (hwriting : t.writing = s.writing) (hhanded : t.handed = s.handed)
    (hst : Steady s.pool t.pool s.held) (hcan : CanRead file s) :
    CanRead file t := by
  by_cases hfull : Full s.pool
  · refine .inr fun i hi => ?_
    obtain ⟨f, hf⟩ := Option.ne_none_iff_exists'.mp (hcan.resolve_left (not_not.mpr hfull) i
      (hhanded ▸ hi))
    rw [hst.table _ f (hs.sharing.pool.held_pos_of_full hfull hf) hf]
    exact Option.some_ne_none f
  · have hp := ht.sharing.pool
    rw [hheld, hwriting] at hp
    exact .inl (hs.sharing.pool.not_full_steady hp hst hfull)

/-! ## Deletes -/

theorem Holds.markDelete_live (hs : Holds file s store l) (hcan : CanRead file s)
    (hlive : s.map rid ≠ none) :
    ∃ b h store' l', s.heap.markDelete s.pool rid = .ok (.ok true, b, h) ∧
      Steady s.pool b s.held ∧ Holds file (s.deleted rid (.ok true) b h) store' l' ∧
      l'.contents = PagedTable.erase l.contents (rid.pageId, rid.slotNum) := by
  obtain ⟨bytes, hb⟩ := Option.ne_none_iff_exists'.mp hlive
  rw [hs.map] at hb
  have hplace := PagedTable.Place.of_get hb
  have hrid : ⟨file, rid.pageId⟩ ∈ s.handed := by
    obtain ⟨t, ht, _⟩ := hplace
    rw [hs.mem_handed_iff, ← Pages.map_fst_contents]
    exact List.mem_map.mpr ⟨_, ht, rfl⟩
  rcases hs.markDelete hrid with ⟨he, _⟩ | ⟨b, h, store', l', he, hst, hs', hl', _⟩ |
    ⟨m, b, _, _, hno⟩
  · -- The page could not be written, so it is not in the pool, which is full.
    exfalso
    have hblocked : s.pool.pageTable ⟨file, rid.pageId⟩ = none ∧ Full s.pool := by
      rw [TableHeap.markDelete, writePage, hs.fileId] at he
      cases hf : s.pool.fetchPage file rid.pageId with
      | error fault =>
          rw [hf] at he
          cases he
      | ok r =>
          rw [hf, ok_bind] at he
          obtain ⟨_ | f, b⟩ := r
          · exact ((hs.sharing.pool.backs.structural.fetchPage_none_iff _ _).mp hf).2
          · dsimp only at he
            split at he <;> cases he
    exact hcan.elim (fun hno => hno hblocked.2) fun hres => hres _ hrid hblocked.1
  · exact ⟨b, h, store', l', he, hst, hs', hl'⟩
  · exact absurd hplace hno

end HeapState

end TurtleDb.Table
