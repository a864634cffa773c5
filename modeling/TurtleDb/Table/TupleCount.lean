import Mathlib.Data.Set.Card
import TurtleDb.Table.HeapRuns

/-!
# How many tuples a heap has

Each call of a heap in a run, and what it does to the number of live tuples.
-/

namespace TurtleDb.Table

open TurtleDb.Lib TurtleDb.Buffer TurtleDb.Buffer.BufferPoolManager TurtleDb.Page

namespace HeapState

variable {δ : Type}

/-- The record ids that have a tuple. -/
def live (s : HeapState δ) : Set RecordId := { rid | s.map rid ≠ none }

noncomputable def liveCount (s : HeapState δ) : Nat := s.live.ncard

/-- How often the tuple is in the table. -/
noncomputable def copies (s : HeapState δ) (bytes : List UInt8) : Nat :=
  { rid | s.map rid = some bytes }.ncard

variable [PageDisk δ] [LawfulPageDisk δ]

/-- The tuple has a byte at least, it is not too large for the arithmetic of a page, and it fits into
the last page unless a new one has room. -/
def CanInsert (s : HeapState δ) (tuple : Tuple) : Prop :=
  0 < tuple.data.length ∧ tuple.data.length ≤ SlottedPage.maxInsertSize ∧
    (s.heap.FitsLast s.pool tuple.data.length ∨ s.pool.HasRoom)

variable {file : FileId} {s : HeapState δ} {tuple : Tuple} {rid : RecordId}
  {b : BufferPoolManager δ} {h : TableHeap}

theorem Reachable.finite_live (hr : Reachable file s) : s.live.Finite := by
  obtain ⟨store, l, hs⟩ := hr.holds
  refine ((PagedTable.entries l.contents).map fun e =>
    RecordId.mk e.1.1 e.1.2).finite_toSet.subset ?_
  intro rid hrid
  obtain ⟨bytes, hb⟩ := Option.ne_none_iff_exists'.mp hrid
  rw [hs.map] at hb
  exact List.mem_map.mpr ⟨((rid.pageId, rid.slotNum), bytes),
    (PagedTable.mem_entries_iff hs.nodup).mpr hb, rfl⟩

theorem Reachable.finite_copies (hr : Reachable file s) (bytes : List UInt8) :
    { rid | s.map rid = some bytes }.Finite :=
  hr.finite_live.subset fun _ hrid hnone => nomatch hrid.symm.trans hnone

/-! ## Inserts -/

theorem Reachable.insertTuple_some (hr : Reachable file s) (hcan : s.CanInsert tuple)
    (he : s.heap.insertTuple s.pool tuple = .ok (some rid, b, h)) : s.map rid = none := by
  obtain ⟨store, l, hs⟩ := hr.holds
  rcases hs.insertTuple tuple hcan.1 hcan.2.1 hcan.2.2 with ⟨⟨m, he'⟩, _⟩ | ⟨b', he', _⟩ |
    ⟨rid', b', h', store', l', he', _, _, hadds, _⟩
  · cases he.symm.trans he'
  · cases he.symm.trans he'
  · cases he.symm.trans he'
    rw [hs.map]
    exact hadds.get_eq_none hs.nodup

theorem Reachable.inserted (hr : Reachable file s) (hcan : s.CanInsert tuple)
    {r : Option RecordId} (he : s.heap.insertTuple s.pool tuple = .ok (r, b, h)) :
    Reachable file (s.inserted file tuple r b h) :=
  .step hr (.insertTuple hcan.1 hcan.2.1 hcan.2.2 he) trivial

theorem Reachable.liveCount_inserted (hr : Reachable file s) (hcan : s.CanInsert tuple)
    {r : Option RecordId} (he : s.heap.insertTuple s.pool tuple = .ok (r, b, h)) :
    (s.inserted file tuple r b h).liveCount = s.liveCount + if r.isSome then 1 else 0 := by
  cases r with
  | none => rfl
  | some rid =>
      have hnone := hr.insertTuple_some hcan he
      have hlive : (s.inserted file tuple (some rid) b h).live = insert rid s.live := by
        ext rid'
        by_cases hrid : rid' = rid
        · subst hrid
          simp [live, HeapState.inserted]
        · simp [live, HeapState.inserted, hrid]
      have hnot : rid ∉ s.live := fun hmem => absurd hnone hmem
      rw [liveCount, hlive, Set.ncard_insert_of_notMem hnot hr.finite_live]
      rfl

theorem Reachable.copies_inserted (hr : Reachable file s) (hcan : s.CanInsert tuple)
    (he : s.heap.insertTuple s.pool tuple = .ok (some rid, b, h)) (bytes : List UInt8) :
    (s.inserted file tuple (some rid) b h).copies bytes =
      s.copies bytes + if tuple.data = bytes then 1 else 0 := by
  have hnone := hr.insertTuple_some hcan he
  have hnot : rid ∉ { rid | s.map rid = some bytes } := fun hmem => nomatch hnone.symm.trans hmem
  by_cases hdata : tuple.data = bytes
  · have hset : { rid' | (s.inserted file tuple (some rid) b h).map rid' = some bytes } =
        insert rid { rid | s.map rid = some bytes } := by
      ext rid'
      by_cases hrid : rid' = rid
      · subst hrid
        simp [HeapState.inserted, hdata]
      · simp [HeapState.inserted, hrid]
    rw [copies, hset, Set.ncard_insert_of_notMem hnot (hr.finite_copies bytes), if_pos hdata]
    rfl
  · have hset : { rid' | (s.inserted file tuple (some rid) b h).map rid' = some bytes } =
        { rid | s.map rid = some bytes } := by
      ext rid'
      by_cases hrid : rid' = rid
      · subst hrid
        simp [HeapState.inserted, hdata, hnone]
      · simp [HeapState.inserted, hrid]
    rw [copies, hset, if_neg hdata]
    rfl

/-! ## Deletes -/

theorem Reachable.deleted (hr : Reachable file s) (hrid : ⟨file, rid.pageId⟩ ∈ s.handed)
    {r : Except Fault Bool} (he : s.heap.markDelete s.pool rid = .ok (r, b, h)) :
    Reachable file (s.deleted rid r b h) := .step hr (.markDelete hrid he) trivial

theorem Reachable.liveCount_deleted (hr : Reachable file s) (ok : Bool) (b : BufferPoolManager δ)
    (h : TableHeap) :
    s.liveCount = (s.deleted rid (.ok ok) b h).liveCount +
      if ok && (s.map rid).isSome then 1 else 0 := by
  cases ok with
  | false => rfl
  | true =>
      have hlive : (s.deleted rid (.ok true) b h).live = s.live \ {rid} := by
        ext rid'
        by_cases hrid : rid' = rid
        · subst hrid
          simp [live, HeapState.deleted]
        · simp [live, HeapState.deleted, hrid]
      unfold liveCount
      rw [hlive, Bool.true_and]
      cases hmap : s.map rid with
      | some bytes =>
          have hmem : rid ∈ s.live := fun hnone => nomatch hmap.symm.trans hnone
          exact (Set.ncard_sdiff_singleton_add_one hmem hr.finite_live).symm
      | none =>
          have hnot : rid ∉ s.live := fun hmem => hmem hmap
          rw [Set.sdiff_singleton_eq_self hnot]
          rfl

theorem Reachable.copies_deleted (hr : Reachable file s) {old : List UInt8}
    (hold : s.map rid = some old) (b : BufferPoolManager δ) (h : TableHeap) (bytes : List UInt8) :
    s.copies bytes = (s.deleted rid (.ok true) b h).copies bytes + if old = bytes then 1 else 0 := by
  have hset : { rid' | (s.deleted rid (.ok true) b h).map rid' = some bytes } =
      { rid | s.map rid = some bytes } \ {rid} := by
    ext rid'
    by_cases hrid : rid' = rid
    · subst hrid
      simp [HeapState.deleted]
    · simp [HeapState.deleted, hrid]
  unfold copies
  rw [hset]
  by_cases hdata : old = bytes
  · have hmem : rid ∈ { rid | s.map rid = some bytes } := hdata ▸ hold
    rw [if_pos hdata, Set.ncard_sdiff_singleton_add_one hmem (hr.finite_copies bytes)]
  · have hnot : rid ∉ { rid | s.map rid = some bytes } := fun hmem =>
      hdata (Option.some.inj (hold.symm.trans hmem))
    rw [if_neg hdata, Set.sdiff_singleton_eq_self hnot]
    rfl

theorem Reachable.mem_handed (hr : Reachable file s) (hlive : rid ∈ s.live) :
    ⟨file, rid.pageId⟩ ∈ s.handed := by
  obtain ⟨store, l, hs⟩ := hr.holds
  obtain ⟨bytes, hb⟩ := Option.ne_none_iff_exists'.mp hlive
  rw [hs.map] at hb
  obtain ⟨t, ht, _⟩ := PagedTable.Place.of_get hb
  rw [hs.mem_handed_iff, ← Pages.map_fst_contents]
  exact List.mem_map.mpr ⟨_, ht, rfl⟩

end HeapState

end TurtleDb.Table
