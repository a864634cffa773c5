import TurtleDb.Table.LiveInserts
import TurtleDb.Table.RowSizes

/-!
# Tables that take the next row

A table of rows of fixed sizes, with two frames to be had and numbers for more pages, takes each of
these rows. Reads, deletes and inserts leave it so, with one number less for a row that came.
-/

namespace TurtleDb.Table

open TurtleDb.Lib TurtleDb.Buffer TurtleDb.Buffer.BufferPoolManager TurtleDb.Page

namespace HeapState

variable {δ : Type} [PageDisk δ] [LawfulPageDisk δ] {file : FileId} {s t u : HeapState δ}
  {store : PageKey → Option PageData} {l : Pages} {M : (RecordId → Option (List UInt8)) → Prop}
  {b : BufferPoolManager δ} {h : TableHeap} {it it' : TableIterator} {rid : RecordId} {f : FrameId}
  {i : PageId} {tuple : Tuple} {lo hi m fuel : Nat}

/-! ## Reads -/

/-- `t` is `s` after pages were read, in a run in which the tuples have `M`. -/
structure ReadTo (file : FileId) (M : (RecordId → Option (List UInt8)) → Prop) (s t : HeapState δ) :
    Prop where
  browsed : Browsed file s t
  within : Within file (fun s => M s.map) t

/-- The iterator is at the end, or on a page of the table. -/
def OnPage (file : FileId) (s : HeapState δ) (it : TableIterator) : Prop :=
  it.currentId = TableHeap.finish ∨ ⟨file, it.currentId.pageId⟩ ∈ s.handed

namespace ReadTo

theorem refl (hr : Within file (fun s => M s.map) s) : ReadTo file M s s :=
  ⟨.refl hr.reachable, hr⟩

theorem trans (h : ReadTo file M s t) (h' : ReadTo file M t u) : ReadTo file M s u :=
  ⟨h.browsed.trans h'.browsed, h'.within⟩

theorem readPage (hr : Within file (fun s => M s.map) s) (hs : Holds file s store l)
    (hi : ⟨file, i⟩ ∈ s.handed) (he : s.pool.readPage file i = .ok (some f, b))
    (hkept : Kept s.pool (ReadPageGuard.drop b f) s.held s.writing store) :
    ReadTo file M s { s with pool := ReadPageGuard.drop b f } := by
  obtain ⟨r, hget⟩ :
      ∃ r, s.heap.getTuple s.pool ⟨i, 0⟩ .empty = .ok (r, ReadPageGuard.drop b f) := by
    rw [TableHeap.getTuple, hs.fileId, he, ok_bind]
    dsimp only
    cases SlottedPage.tuple (b.data f) ⟨i, 0⟩ with
    | error fault => exact ⟨_, rfl⟩
    | ok bytes => exact ⟨_, rfl⟩
  have hpage : (⟨file, (⟨i, 0⟩ : RecordId).pageId⟩ : PageKey) ∈ s.handed := hi
  have hwithin : Within file (fun s => M s.map) { s with pool := ReadPageGuard.drop b f } :=
    .step hr (.getTuple hpage hget) hr.last
  exact ⟨⟨rfl, hwithin.reachable, ⟨store, store, l, hs, hs.of_kept hkept⟩, hkept.steady, hkept.next⟩,
    hwithin⟩

/-- The induction is on the pages gone over. -/
theorem advanceToValid (hr : Within file (fun s => M s.map) s)
    (hit : it.currentId.pageId = invalidPageId ∨ ⟨file, it.currentId.pageId⟩ ∈ s.handed)
    (he : TableIterator.advanceToValid s.heap fuel s.pool it = .ok (it', b)) :
    ReadTo file M s { s with pool := b } ∧ OnPage file s it' := by
  induction fuel generalizing s it with
  | zero => cases he
  | succ fuel ih =>
      rw [TableIterator.advanceToValid] at he
      by_cases hend : it.currentId.pageId = invalidPageId
      · rw [if_pos hend] at he
        cases he
        exact ⟨.refl hr, .inl rfl⟩
      · have hi := hit.resolve_left hend
        obtain ⟨store, l, hs⟩ := hr.holds
        obtain ⟨⟨i, p⟩, hx, hxi⟩ := List.mem_map.mp (hs.mem_pages hi)
        have hstored := (hs.chain.linked.node_eq hx).1
        rw [if_neg hend, ← hxi] at he
        rw [← hxi] at hi
        rcases hs.sharing.pool.readPage (k := ⟨s.heap.fileId, i⟩) hstored (hs.stored.pins _) with
          ⟨hread, _⟩ | ⟨f, b₁, hread, hdata, hkept⟩
        · -- There is no frame for the page, and the iterator stays in front of it.
          rw [hread] at he
          cases he
          exact ⟨.refl hr, .inr (hxi ▸ hi)⟩
        · have hr₁ : ReadTo file M s { s with pool := ReadPageGuard.drop b₁ f } :=
            readPage hr hs hi (by rw [← hs.fileId]; exact hread) hkept
          rw [hread, ok_bind] at he
          simp only [hdata] at he
          split at he
          · obtain ⟨bytes, _, he⟩ := bind_eq_ok.mp he
            cases he
            exact ⟨hr₁, .inr hi⟩
          · obtain ⟨hr', hit'⟩ := ih (s := { s with pool := ReadPageGuard.drop b₁ f }) hr₁.within
              (hs.next_mem hx) he
            exact ⟨hr₁.trans hr', hit'⟩

theorem start (hr : Within file (fun s => M s.map) s)
    (he : s.heap.start fuel s.pool = .ok (it, b)) :
    ReadTo file M s { s with pool := b } ∧ OnPage file s it := by
  rw [TableHeap.start, TableIterator.make] at he
  split at he
  · refine advanceToValid hr (.inr ?_) he
    obtain ⟨store, l, hs⟩ := hr.holds
    obtain ⟨x, post, rfl⟩ : ∃ x post, l = x :: post := by
      obtain ⟨pre, p, rfl⟩ := hs.chain.exists_last
      exact List.exists_cons_of_ne_nil (by simp)
    rw [hs.mem_handed_iff, hs.chain.first_eq]
    exact List.mem_cons_self
  · cases he
    have hid : s.heap.firstPageId = invalidPageId := not_not.mp ‹¬_›
    exact ⟨.refl hr, .inl (congrArg (RecordId.mk · 0) hid)⟩

theorem increment (hr : Within file (fun s => M s.map) s) (hit : OnPage file s it)
    (he : it.increment fuel s.heap s.pool = .ok (it', b)) :
    ReadTo file M s { s with pool := b } ∧ OnPage file s it' := by
  refine advanceToValid hr ?_ he
  exact hit.imp_left fun hfin => congrArg RecordId.pageId hfin

end ReadTo

/-! ## Ready tables -/

/-- In the run to here the rows had `lo` to `hi` bytes. Two frames can be had, and numbers for `m`
more pages. -/
structure Ready (file : FileId) (lo hi : Nat) (s : HeapState δ) (m : Nat) : Prop where
  within : Within file (fun s => Sized lo hi s.map) s
  two : TwoObtainable s.pool s.held
  room : s.pool.HasRoomFor m

theorem Within.ready (hr : Within file (fun s => Sized lo hi s.map) s) (htwo : TwoUnpinned s.pool)
    (hroom : s.pool.HasRoomFor m) : Ready file lo hi s m := by
  obtain ⟨store, l, hs⟩ := hr.holds
  exact ⟨hr, hs.twoObtainable_iff.mp htwo, hroom⟩

theorem Led.ready {c : PagedTable PageId (List UInt8)} (h : Led file (Sized lo hi) s c)
    (hids : c.length + m ≤ invalidPageId) : Ready file lo hi s m :=
  ⟨h.within, h.two, by rw [h.next]; exact hids, .inl h.small⟩

namespace Ready

theorem twoUnpinned (hs : Ready file lo hi s m) : TwoUnpinned s.pool := by
  obtain ⟨store, l, hholds⟩ := hs.within.holds
  exact hholds.twoObtainable_iff.mpr hs.two

theorem spacious (hs : Ready file lo hi s m) : ∃ c, Spacious file s c m := by
  obtain ⟨store, l, hholds⟩ := hs.within.holds
  exact ⟨l.contents, hs.within.reachable, ⟨store, l, hholds, rfl⟩, hs.two, hs.room⟩

theorem mono (hs : Ready file lo hi s m) {k : Nat} (hle : k ≤ m) : Ready file lo hi s k :=
  ⟨hs.within, hs.two, hs.room.used rfl (Nat.add_le_add_left hle _)⟩

theorem canRead (hs : Ready file lo hi s m) : CanRead file s := by
  obtain ⟨store, l, hholds⟩ := hs.within.holds
  obtain ⟨f, _, hf, _⟩ := hs.two
  exact .inl (hholds.sharing.pool.not_full_iff.mpr ⟨f, hf⟩)

/-- Where the pinned pages stay and no page was made, the frames and the numbers stay too. -/
theorem steady (hs : Ready file lo hi s m) (ht : Within file (fun s => Sized lo hi s.map) t)
    (hheld : t.held = s.held) (hst : Steady s.pool t.pool s.held)
    (hnext : t.pool.nextPageId = s.pool.nextPageId) : Ready file lo hi t m := by
  obtain ⟨store, l, hholds⟩ := hs.within.holds
  refine ⟨ht, ?_, hs.room.used hst.frameCount (Nat.le_of_eq (by rw [hnext]))⟩
  rw [hheld]
  exact hholds.stored.twoObtainable hst hs.two

theorem readTo (hs : Ready file lo hi s m) (h : ReadTo file (Sized lo hi) s t) :
    Ready file lo hi t m :=
  hs.steady h.within (by rw [h.browsed.same]) h.browsed.steady h.browsed.next

theorem deleted (hs : Ready file lo hi s m) (hrid : ⟨file, rid.pageId⟩ ∈ s.handed)
    {r : Except Fault Bool} (he : s.heap.markDelete s.pool rid = .ok (r, b, h)) :
    Ready file lo hi (s.deleted rid r b h) m := by
  obtain ⟨store, l, hholds⟩ := hs.within.holds
  have hsized : Sized lo hi (s.deleted rid r b h).map := by
    intro rid' bytes hget
    refine hs.within.last rid' bytes ?_
    rcases r with _ | _ | _
    · exact hget
    · exact hget
    · by_cases hr : rid' = rid
      · have hnone : (s.deleted rid (.ok true) b h).map rid' = none := by
          rw [hr]
          exact Function.update_self _ _ _
        cases hnone.symm.trans hget
      · exact (Function.update_of_ne hr _ _).symm.trans hget
  have hwithin : Within file (fun s => Sized lo hi s.map) (s.deleted rid r b h) :=
    .step hs.within (.markDelete hrid he) hsized
  have hpool : Steady s.pool b s.held ∧ b.nextPageId = s.pool.nextPageId := by
    rcases hholds.markDelete hrid with ⟨he', _⟩ | ⟨b', h', _, _, he', hst, _, _, _, hnext⟩ |
      ⟨_, b', he', hkept, _⟩
    · cases he.symm.trans he'
      exact ⟨.refl _ _, rfl⟩
    · cases he.symm.trans he'
      exact ⟨hst, hnext⟩
    · cases he.symm.trans he'
      exact ⟨hkept.steady, hkept.next⟩
  exact hs.steady hwithin rfl hpool.1 hpool.2

theorem insertTuple (hs : Ready file lo hi s (m + 1)) (hroom : SlotsLeaveRoom lo hi) (hlo : 1 ≤ lo)
    (hhi : hi ≤ 4064) (hge : lo ≤ tuple.data.length) (hle : tuple.data.length ≤ hi) :
    ∃ rid b h, s.heap.insertTuple s.pool tuple = .ok (some rid, b, h) ∧ s.CanInsert tuple ∧
      Ready file lo hi (s.inserted file tuple (some rid) b h) m := by
  obtain ⟨c, hc⟩ := hs.spacious
  obtain ⟨store, l, hholds, _⟩ := hc.holds
  obtain ⟨pre, i, slots, rfl⟩ := hc.exists_last
  obtain ⟨rid, b, h, he, hwithin⟩ := hs.within.insertTuple_sized hroom hlo hhi hge hle
    (hholds.twoObtainable_iff.mpr hs.two) hs.room.hasRoom
  rcases hc.insertTuple (Nat.lt_of_lt_of_le hlo hge) (Nat.le_trans hle hhi) with
    ⟨⟨message, he'⟩, _⟩ | ⟨rid', b', h', c', he', hcan, hc', _⟩
  · cases he.symm.trans he'
  · cases he.symm.trans he'
    exact ⟨rid, b, h, he, hcan, hwithin, hc'.two, hc'.room⟩

end Ready

end HeapState

end TurtleDb.Table
