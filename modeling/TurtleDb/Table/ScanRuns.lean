import TurtleDb.Table.HeapRuns

/-!
# Runs of a scan

A scan takes turns with the other clients of the pool, which leave its table alone. It visits the
live tuples in their order as long as each of its steps can read its pages. A page that cannot be
read stops it for ever.
-/

namespace TurtleDb.Table

open TurtleDb.Lib TurtleDb.Buffer TurtleDb.Buffer.BufferPoolManager TurtleDb.Page

namespace HeapState

variable {δ : Type} [PageDisk δ] [LawfulPageDisk δ]

omit [PageDisk δ] [LawfulPageDisk δ] in
/-- No record id comes twice, and each comes with the live tuple that is stored there. -/
def Genuine (s : HeapState δ) (rows : List (RecordId × Tuple)) : Prop :=
  (rows.map Prod.fst).Nodup ∧ ∀ r ∈ rows, s.map r.1 = some r.2.data

omit [PageDisk δ] [LawfulPageDisk δ] in
/-- A frame has no pin, or else the whole table is in the pool. -/
def CanRead (file : FileId) (s : HeapState δ) : Prop :=
  ¬ Full s.pool ∨ ∀ i, ⟨file, i⟩ ∈ s.handed → s.pool.pageTable ⟨file, i⟩ ≠ none

/-- The number of steps that a scan may take. -/
def stepBound (file : FileId) (s : HeapState δ) : Nat := s.slotCount file + s.pageCount file + 1

/-- The runs of an iterator from `begin` on, with what it has visited, in which it never asks for a
page that cannot be read. -/
inductive Scanning (file : FileId) (s : HeapState δ) (fuel : Nat) :
    Shared δ → TableIterator → List (RecordId × Tuple) → Prop where
  | start {it b} (hserved : Served s.pool file 1 ⟨s.heap.firstPageId, 0⟩)
      (hr : s.heap.start fuel s.pool = .ok (it, b)) :
      Scanning file s fuel { s.toShared with pool := b } it []
  | others {t t' it rows} (h : Scanning file s fuel t it rows) (ho : Others file t t') :
      Scanning file s fuel t' it rows
  | increment {t it rows it' b} (h : Scanning file s fuel t it rows)
      (hne : it.currentId ≠ TableHeap.finish)
      (hserved : Served t.pool file 1 ⟨it.currentId.pageId, add32 it.currentId.slotNum 1⟩)
      (hr : it.increment fuel s.heap t.pool = .ok (it', b)) :
      Scanning file s fuel { t with pool := b } it' (rows ++ [(it.currentId, it.currentTuple)])

omit [LawfulPageDisk δ] in
/-- What was visited is live. At the end it is everything, and before it there is a next step. -/
def GoesOn (file : FileId) (s : HeapState δ) (fuel : Nat) (t : Shared δ) (it : TableIterator)
    (visited : List (RecordId × Tuple)) : Prop :=
  s.Genuine visited ∧ visited.length ≤ s.slotCount file ∧
    if it.currentId = TableHeap.finish then ∀ rid, s.map rid ≠ none → rid ∈ visited.map Prod.fst
    else visited.length < s.slotCount file ∧
      (Served t.pool file 1 ⟨it.currentId.pageId, add32 it.currentId.slotNum 1⟩ →
        ∃ it' b, it.increment fuel s.heap t.pool = .ok (it', b))

/-- The iterator has visited `rows` and has the rest of the entries still to read. -/
structure Stands (file : FileId) (h : TableHeap) (l : Pages) (t : Shared δ) (it : TableIterator)
    (rows rest : List Entry) (store : PageKey → Option PageData) : Prop where
  sharing : Sharing t store
  chain : Chain h store l
  fileId : h.fileId = file
  reads : Reads l.contents it rest
  entries : PagedTable.entries l.contents = rows ++ rest

variable {file : FileId} {s : HeapState δ} {store : PageKey → Option PageData} {l : Pages}
  {h : TableHeap} {t t' : Shared δ} {b : BufferPoolManager δ} {it : TableIterator}
  {rows rest : List Entry} {e : Entry} {fuel n : Nat}

/-! ## One step -/

namespace Stands

theorem pins (hs : Stands file h l t it rows rest store) (k : PageKey) : t.held k ≠ 2147483647 :=
  Nat.ne_of_lt (hs.sharing.pins k)

theorem others (hs : Stands file h l t it rows rest store) (ho : Others file t t') :
    ∃ store', Stands file h l t' it rows rest store' := by
  obtain ⟨store', hsharing, hsame⟩ := hs.sharing.others ho
  refine ⟨store', hsharing, hs.chain.of_same_file fun i => ?_, hs.fileId, hs.reads, hs.entries⟩
  rw [hs.fileId]
  exact hsame i

/-- Another client pins a page of the table. A frame is left for the scan. -/
theorem pinned (hs : Stands file h l t it rows rest store) {i : PageId} (hi : ⟨file, i⟩ ∈ t.handed)
    (hpin : t.held ⟨file, i⟩ + 1 < 2147483647) (htwo : TwoObtainable t.pool t.held) :
    ∃ t', Others file t t' ∧ t'.held = Function.update t.held ⟨file, i⟩ (t.held ⟨file, i⟩ + 1) ∧
      ¬ Full t'.pool := by
  obtain ⟨f, g, hf, hg, hne⟩ := htwo
  obtain ⟨data, hdata⟩ := Option.ne_none_iff_exists'.mp ((hs.sharing.handed _).mpr hi)
  rcases hs.sharing.pool.fetchPage hdata (hs.pins _) with ⟨_, hall⟩ | ⟨_, b, he, hp, _, _, hst⟩
  · exact absurd hf hall.not_obtainable
  · obtain ⟨f', hf'⟩ := hs.sharing.pool.obtainable_pinned hst hf hg hne (t.held ⟨file, i⟩ + 1)
    exact ⟨_, .fetchPage hi hpin he, rfl, hp.not_full_iff.mpr ⟨f', hf'⟩⟩

theorem rest_ne_nil (hs : Stands file h l t it rows rest store)
    (hne : it.currentId ≠ TableHeap.finish) : ∃ e rest', rest = e :: rest' := by
  cases rest with
  | nil => exact absurd (hs.reads.finished rfl) hne
  | cons e rest' => exact ⟨e, rest', rfl⟩

theorem ne_finish (hs : Stands file h l t it rows (e :: rest) store) :
    it.currentId ≠ TableHeap.finish := by
  rw [(hs.reads.current e rest rfl).1]
  exact hs.chain.rid_ne_finish hs.reads.mem_entries

theorem increment (hs : Stands file h l t it rows (e :: rest) store) (hfuel : l.length < fuel)
    (hserved : Served t.pool file (n + 1)
      ⟨it.currentId.pageId, add32 it.currentId.slotNum 1⟩) :
    ∃ it' b, it.increment fuel h t.pool = .ok (it', b) ∧
      Stands file h l { t with pool := b } it' (rows ++ [e]) rest store ∧
      Served b file n ⟨it'.currentId.pageId, add32 it'.currentId.slotNum 1⟩ := by
  rw [← hs.fileId] at hserved ⊢
  obtain ⟨it', b, hr, hkept, hreads, hbehind⟩ :=
    hs.chain.increment hs.sharing.pool hs.pins hserved hs.reads hfuel
  refine ⟨it', b, hr, ⟨hs.sharing.kept hkept fun _ => Iff.rfl, hs.chain, rfl, hreads, ?_⟩, hbehind⟩
  rw [hs.entries]
  simp

end Stands

namespace Holds

theorem begins (hs : Holds file s store l) (hfuel : l.length < fuel)
    (hserved : Served s.pool file (n + 1) ⟨s.heap.firstPageId, 0⟩) :
    ∃ it b, s.heap.start fuel s.pool = .ok (it, b) ∧
      Stands file s.heap l { s.toShared with pool := b } it [] (PagedTable.entries l.contents)
        store ∧
      Served b file n ⟨it.currentId.pageId, add32 it.currentId.slotNum 1⟩ ∧
      Steady s.pool b s.held := by
  have hserved' := hserved
  rw [← hs.fileId] at hserved'
  obtain ⟨it, b, hr, hkept, hreads, hbehind⟩ :=
    hs.chain.start hs.sharing.pool hs.stored.pins hserved' hfuel
  rw [hs.fileId] at hbehind
  exact ⟨it, b, hr, ⟨hs.sharing.kept hkept fun _ => Iff.rfl, hs.chain, hs.fileId, hreads, rfl⟩,
    hbehind, hkept.steady⟩

theorem genuine (hs : Holds file s store l)
    (he : PagedTable.entries l.contents = rows ++ rest) : s.Genuine (rows.map Entry.row) := by
  constructor
  · have hnodup := nodup_rids hs.nodup
    rw [he, List.map_append] at hnodup
    rw [List.map_map]
    exact (List.nodup_append'.mp hnodup).1
  · intro r hr
    obtain ⟨e, hmem, rfl⟩ := List.mem_map.mp hr
    rw [hs.map]
    refine (PagedTable.mem_entries_iff hs.nodup).mp ?_
    rw [he]
    exact List.mem_append_left _ hmem

theorem entries_le (hs : Holds file s store l) :
    (PagedTable.entries l.contents).length ≤ s.slotCount file := by
  rw [PagedTable.length_entries, hs.slotCount_eq]
  exact List.sum_le_sum fun p _ => List.countP_le_length

theorem mem_rids_iff (hs : Holds file s store l) {rid : RecordId} :
    rid ∈ (PagedTable.entries l.contents).map Entry.rid ↔ s.map rid ≠ none := by
  rw [hs.map, List.mem_map]
  constructor
  · rintro ⟨e, he, rfl⟩
    have hget := (PagedTable.mem_entries_iff hs.nodup).mp he
    show PagedTable.get l.contents e.1.1 e.1.2 ≠ none
    rw [hget]
    simp
  · intro hlive
    obtain ⟨bytes, hb⟩ := Option.ne_none_iff_exists'.mp hlive
    exact ⟨((rid.pageId, rid.slotNum), bytes), (PagedTable.mem_entries_iff hs.nodup).mpr hb, rfl⟩

end Holds

/-! ## Whole runs -/

theorem Scanning.stands (hs : Holds file s store l) (hfuel : l.length < fuel)
    {visited : List (RecordId × Tuple)} (hr : Scanning file s fuel t it visited) :
    ∃ rows rest store', visited = rows.map Entry.row ∧
      Stands file s.heap l t it rows rest store' := by
  induction hr with
  | start hserved hr =>
      obtain ⟨it, b, he, hstands, _⟩ := hs.begins hfuel hserved
      cases he.symm.trans hr
      exact ⟨[], _, _, rfl, hstands⟩
  | others _ ho ih =>
      obtain ⟨rows, rest, store', hrows, hstands⟩ := ih
      obtain ⟨store'', hstands'⟩ := hstands.others ho
      exact ⟨rows, rest, store'', hrows, hstands'⟩
  | increment _ hne hserved hr ih =>
      obtain ⟨rows, rest, store', hrows, hstands⟩ := ih
      obtain ⟨e, rest, rfl⟩ := hstands.rest_ne_nil hne
      obtain ⟨hid, htuple⟩ := hstands.reads.current e rest rfl
      obtain ⟨it', b, he, hstands', _⟩ := hstands.increment hfuel hserved
      cases he.symm.trans hr
      refine ⟨rows ++ [e], rest, store', ?_, hstands'⟩
      rw [hrows, hid, htuple, List.map_append]
      rfl

/-- In every state of such a run what was visited is live, with at most one step for each slot, and
the next step, if it can read its pages, returns. -/
theorem Scanning.goesOn (hr : Reachable file s) (hfuel : s.pageCount file < fuel)
    {visited : List (RecordId × Tuple)} (h : Scanning file s fuel t it visited) :
    GoesOn file s fuel t it visited := by
  obtain ⟨store, l, hs⟩ := hr.holds
  rw [hs.pageCount_eq] at hfuel
  obtain ⟨rows, rest, store', rfl, hstands⟩ := h.stands hs hfuel
  have hlen := hs.entries_le
  rw [hstands.entries, List.length_append] at hlen
  refine ⟨hs.genuine hstands.entries, ?_, ?_⟩
  · rw [List.length_map]
    omega
  · cases rest with
    | nil =>
        rw [if_pos (hstands.reads.finished rfl)]
        intro rid hlive
        have hmem := hs.mem_rids_iff.mpr hlive
        rw [hstands.entries, List.append_nil] at hmem
        rw [List.map_map]
        exact hmem
    | cons e rest =>
        rw [if_neg hstands.ne_finish, List.length_map]
        refine ⟨?_, fun hserved => ?_⟩
        · rw [List.length_cons] at hlen
          omega
        · obtain ⟨it', b, he, _⟩ := hstands.increment hfuel hserved
          exact ⟨it', b, he⟩

/-! ## A scan with no one else in the pool -/

theorem Holds.canRead_iff (hs : Holds file s store l) : CanRead file s ↔ ¬ Full s.pool ∨
    ∀ x ∈ l, s.pool.pageTable ⟨s.heap.fileId, x.1⟩ ≠ none := by
  unfold CanRead
  rw [hs.fileId]
  constructor
  · rintro (hno | hres)
    · exact .inl hno
    · exact .inr fun x hx => hres _ (hs.mem_handed_iff.mpr (List.mem_map.mpr ⟨x, hx, rfl⟩))
  · rintro (hno | hres)
    · exact .inl hno
    · refine .inr fun i hi => ?_
      obtain ⟨x, hx, rfl⟩ := List.mem_map.mp (hs.mem_handed_iff.mp hi)
      exact hres x hx

/-- If every page can be read, so can any number of tuples. -/
theorem Holds.served (hs : Holds file s store l) (hcan : CanRead file s) (n : Nat) :
    Served s.pool file n ⟨s.heap.firstPageId, 0⟩ := by
  rcases hs.canRead_iff.mp hcan with hno | hres
  · exact .frame hno
  · have hc := hs.chain
    rw [← hs.fileId]
    cases l with
    | nil => cases hc.last
    | cons x post =>
        rw [hc.first_eq]
        exact (show Chain s.heap store ([] ++ x :: post) from hc).served hs.sharing.pool hres n 0

/-- Otherwise there is a page that cannot be read. -/
theorem Holds.exists_blocked (hs : Holds file s store l) (hcan : ¬ CanRead file s) :
    Full s.pool ∧ ∃ pre j p post, l = pre ++ (j, p) :: post ∧
      s.pool.pageTable ⟨s.heap.fileId, j⟩ = none := by
  rw [hs.canRead_iff] at hcan
  push Not at hcan
  obtain ⟨hfull, ⟨j, p⟩, hx, hnone⟩ := hcan
  obtain ⟨pre, post, rfl⟩ := List.append_of_mem hx
  exact ⟨hfull, pre, j, p, post, rfl, hnone⟩

/-- A scan that cannot read a page does not end. -/
theorem Holds.scan_blocked (hs : Holds file s store l) (hcan : ¬ CanRead file s) (fuel : Nat)
    (r : List (RecordId × Tuple) × BufferPoolManager δ) : s.heap.scan fuel s.pool ≠ .ok r := by
  intro he
  obtain ⟨hfull, pre, j, p, post, rfl, hnone⟩ := hs.exists_blocked hcan
  rw [TableHeap.scan] at he
  cases hr : s.heap.start fuel s.pool with
  | error fault =>
      rw [hr] at he
      cases he
  | ok begun =>
      obtain ⟨it, b⟩ := begun
      rw [hr, ok_bind] at he
      obtain ⟨hit, hkept⟩ := hs.chain.start_blocked hs.sharing.pool hs.stored.pins hfull hnone hr
      obtain ⟨hfull', hnone'⟩ := hs.sharing.pool.blocked_kept hkept hfull hnone
      exact hs.chain.visit_blocked hkept.pool hs.stored.pins hfull' hnone' hit _ _ he

theorem Holds.scan (hs : Holds file s store l) (hcan : CanRead file s) :
    ∃ b, s.heap.scan (stepBound file s) s.pool =
      .ok ((PagedTable.entries l.contents).map Entry.row, b) := by
  have hlen := hs.entries_le
  have hpages := hs.pageCount_eq
  have hserved := hs.served hcan ((PagedTable.entries l.contents).length + 1)
  rw [← hs.fileId] at hserved
  obtain ⟨b, he, _⟩ := hs.chain.scan hs.sharing.pool hs.stored.pins hserved
    (show l.length < stepBound file s by rw [stepBound]; omega)
    (show (PagedTable.entries l.contents).length < stepBound file s by rw [stepBound]; omega)
  exact ⟨b, he⟩

theorem scan_iff (hr : Reachable file s) :
    (∃ rows b, s.heap.scan (stepBound file s) s.pool = .ok (rows, b) ∧ s.Genuine rows) ↔
      CanRead file s := by
  obtain ⟨store, l, hs⟩ := hr.holds
  constructor
  · rintro ⟨rows, b, he, _⟩
    by_contra hcan
    exact hs.scan_blocked hcan _ _ he
  · intro hcan
    obtain ⟨b, he⟩ := hs.scan hcan
    exact ⟨_, b, he, hs.genuine (List.append_nil _).symm⟩

/-- Another client takes the only frame. -/
theorem Holds.evicted (hs : Holds file s store l) (hr : Reachable file s)
    (hcount : s.pool.frameCount = 1) {f : FrameId} (ho : Obtainable s.pool s.held f)
    {other : FileId} (hother : other ≠ file) (hopen : LawfulPageDisk.opened s.pool.diskManager other)
    (hids : s.pool.nextPageId + 1 < invalidPageId) :
    ∃ t : HeapState δ, Reachable file t ∧ t.heap = s.heap ∧ t.map = s.map ∧ Full t.pool ∧
      t.pool.HasRoom ∧ ∀ i, t.pool.pageTable ⟨file, i⟩ = none := by
  have hsmall : s.pool.frameCount ≤ frameLimit := by
    rw [hcount]
    decide
  have hroom : s.pool.HasRoom := ⟨Nat.lt_of_succ_lt hids, .inl hsmall⟩
  rcases hs.sharing.pool.newPage (hs.sharing.fresh other) (Nat.ne_of_lt hroom.1) hopen
    (hs.sharing.roomFor hroom) with ⟨_, hall⟩ | ⟨g, b, he, hp, hg, hnext, hst⟩
  · exact absurd ho hall.not_obtainable
  have hcount' : b.frameCount = 1 := hst.frameCount.trans hcount
  rw [add32_of_lt (Nat.lt_trans hids (by decide))] at hnext
  have hzero : ∀ k f, b.pageTable k = some f → f = 0 := fun k f hf => by
    have hlt := (hp.backs.structural.table k f hf).1
    rw [hcount'] at hlt
    exact Nat.lt_one_iff.mp hlt
  refine ⟨{ s with toShared := _ }, .step hr (.others (.newPage hother hopen hroom he)) trivial, rfl,
    rfl, ?_, ⟨hnext ▸ hids, .inl (hst.frameCount ▸ hsmall)⟩, fun i => ?_⟩
  · intro f hf
    have hf : f < 1 := hcount' ▸ hf
    rw [Nat.lt_one_iff.mp hf, ← hzero _ g hg, hp.backs.pinned _ g hg, Function.update_self]
    decide
  · by_contra hne
    obtain ⟨f, hf⟩ := Option.ne_none_iff_exists'.mp hne
    have hsame := hzero _ f hf
    rw [← hzero _ g hg] at hsame
    have hkey := hp.backs.structural.table_inj (hsame ▸ hf) hg
    exact hother (congrArg PageKey.fileId hkey).symm

/-- A new table in a pool of one frame, which another client has taken. -/
theorem exists_evicted (d : δ) {other : FileId} (hother : other ≠ file)
    (hopen : LawfulPageDisk.opened d file) (hother' : ∀ d : δ, LawfulPageDisk.opened d other) :
    ∃ t : HeapState δ, Reachable file t ∧ (∀ rid, t.map rid = none) ∧ t.heap.fileId = file ∧
      t.heap.firstPageId = 0 ∧ Full t.pool ∧ t.pool.HasRoom ∧
      ∀ i, t.pool.pageTable ⟨file, i⟩ = none := by
  have hs := Sharing.create 1 d
  have hroom : (BufferPoolManager.create 1 d).HasRoom :=
    ⟨(by decide : 0 < invalidPageId), .inl (by decide : 1 ≤ frameLimit)⟩
  have ho : Obtainable (BufferPoolManager.create 1 d) (fun _ => 0) 0 :=
    ⟨Nat.one_pos, fun _ _ => rfl⟩
  rcases Holds.create hs (fun _ => rfl) hopen hroom with ⟨m, _, hall⟩ |
    ⟨h, b, store, p, he, hst, hholds, _, hnext⟩
  · exact absurd ho hall.not_obtainable
  have hcount : b.frameCount = 1 := hst.frameCount
  have hids : b.nextPageId + 1 < invalidPageId := by
    rw [hnext]
    exact (by decide : 2 < invalidPageId)
  obtain ⟨t, hr, hheap, hmap, hfull, hroom', hnone⟩ := hholds.evicted
    (.create (.create 1 d) hopen hroom he trivial) hcount (hs.pool.obtainable_steady hst ho) hother
    (hother' _) hids
  refine ⟨t, hr, fun rid => hmap ▸ rfl, ?_, ?_, hfull, hroom', hnone⟩
  · rw [hheap]
    exact hholds.fileId
  · rw [hheap]
    exact hholds.chain.first_eq

/-- Another client pins a page of the table, and takes the other frame. -/
theorem Holds.cornered (hs : Holds file s store l) (hr : Reachable file s)
    (hcount : s.pool.frameCount = 2) (htwo : TwoObtainable s.pool s.held)
    {i : PageId} (hi : ⟨file, i⟩ ∈ s.handed) (hpin : s.held ⟨file, i⟩ + 1 < 2147483647)
    {other : FileId}
    (hother : other ≠ file) (hopen : ∀ d : δ, LawfulPageDisk.opened d other)
    (hids : s.pool.nextPageId + 1 < invalidPageId) :
    ∃ t : HeapState δ, Reachable file t ∧ t.heap = s.heap ∧ t.map = s.map ∧ Full t.pool ∧
      t.pool.HasRoom ∧ t.pool.pageTable ⟨file, i⟩ ≠ none ∧
      ∀ j, j ≠ i → t.pool.pageTable ⟨file, j⟩ = none := by
  have hsmall : s.pool.frameCount ≤ frameLimit := by
    rw [hcount]
    decide
  obtain ⟨f₁, f₂, ho₁, ho₂, hne⟩ := htwo
  obtain ⟨data, hdata⟩ := Option.ne_none_iff_exists'.mp ((hs.sharing.handed _).mpr hi)
  rcases hs.sharing.pool.fetchPage hdata (Nat.ne_of_lt (hs.sharing.pins _)) with
    ⟨_, hall⟩ | ⟨f, b, he, _, hf, hnext, hst⟩
  · exact absurd ho₁ hall.not_obtainable
  obtain ⟨g, ho⟩ := hs.sharing.pool.obtainable_pinned hst ho₁ ho₂ hne (s.held ⟨file, i⟩ + 1)
  have hsharing := hs.sharing.others_fetchPage hi hpin he
  have hroom : b.HasRoom := ⟨hnext ▸ Nat.lt_of_succ_lt hids, .inl (hst.frameCount ▸ hsmall)⟩
  rcases hsharing.pool.newPage (hsharing.fresh other) (Nat.ne_of_lt hroom.1) (hopen _)
    (hsharing.roomFor hroom) with ⟨_, hall⟩ | ⟨g, b', he', hp, hg, hnext', hst'⟩
  · exact absurd ho hall.not_obtainable
  have hcount' : b'.frameCount = 2 := hst'.frameCount.trans (hst.frameCount.trans hcount)
  have hf' : b'.pageTable ⟨file, i⟩ = some f := hst'.table _ f (by simp) hf
  have hfg : f ≠ g := by
    rintro rfl
    exact hother (congrArg PageKey.fileId (hp.backs.structural.table_inj hf' hg)).symm
  -- The two frames are those of the two pages.
  have hframes : ∀ x < b'.frameCount, x = f ∨ x = g := by
    intro x hx
    have hlt := (hp.backs.structural.table _ f hf').1
    have hlt' := (hp.backs.structural.table _ g hg).1
    rw [hcount'] at hx hlt hlt'
    unfold FrameId at *
    omega
  rw [hnext, add32_of_lt (Nat.lt_trans hids (by decide))] at hnext'
  refine ⟨{ s with toShared := _ }, .step (.step hr (.others (.fetchPage hi hpin he)) trivial)
    (.others (.newPage hother (hopen _) hroom he')) trivial, rfl, rfl, ?_,
    ⟨hnext' ▸ hids, .inl (hst'.frameCount ▸ hst.frameCount ▸ hsmall)⟩, ?_, fun j hj => ?_⟩
  · intro x hx
    rcases hframes x hx with rfl | rfl
    · rw [hp.backs.pinned _ _ hf', Function.update_of_ne fun hkey =>
        hother (congrArg PageKey.fileId hkey).symm]
      simp only [Function.update_self]
      omega
    · rw [hp.backs.pinned _ _ hg, Function.update_self]
      decide
  · exact fun hnone => nomatch hf'.symm.trans hnone
  · by_contra hne'
    obtain ⟨x, hx⟩ := Option.ne_none_iff_exists'.mp hne'
    rcases hframes x (hp.backs.structural.table _ x hx).1 with rfl | rfl
    · exact hj (congrArg PageKey.pageId (hp.backs.structural.table_inj hx hf'))
    · exact hother (congrArg PageKey.fileId (hp.backs.structural.table_inj hx hg)).symm

end HeapState

end TurtleDb.Table
