import TurtleDb.Catalog.Tables
import TurtleDb.Lib.Cursor
import TurtleDb.Table.Reopen

/-!
# Restarting a database

The destructor of the pool writes back what was changed. A later process has the files, a disk
manager and a pool of its own, and opens the tables from their first pages. As long as it only reads,
it finds them as they were.
-/

namespace TurtleDb.Table

open TurtleDb.Lib TurtleDb.Buffer TurtleDb.Buffer.BufferPoolManager

section
variable {δ : Type} [PageDisk δ] {b : BufferPoolManager δ} {file : FileId} {first : PageId}
  {fuel fuel' : Nat}

theorem TableHeap.findLastPage_mono {r : Option PageId × BufferPoolManager δ}
    (hr : findLastPage file fuel b first = .ok r) (hle : fuel ≤ fuel') :
    findLastPage file fuel' b first = .ok r := by
  induction fuel generalizing fuel' b first with
  | zero => cases hr
  | succ fuel ih =>
      match fuel', hle with
      | fuel' + 1, hle =>
        rw [findLastPage] at hr ⊢
        obtain ⟨⟨frame, b'⟩, hread, hr⟩ := bind_eq_ok.mp hr
        rw [hread, ok_bind]
        cases frame with
        | none => exact hr
        | some frame =>
            dsimp only at hr ⊢
            split at hr
            · rw [if_pos ‹_›]
              exact ih hr (Nat.le_of_succ_le_succ hle)
            · rwa [if_neg ‹_›]

theorem TableHeap.openExisting_mono {r : TableHeap × BufferPoolManager δ}
    (hr : openExisting fuel b file first = .ok r) (hle : fuel ≤ fuel') :
    openExisting fuel' b file first = .ok r := by
  rw [openExisting] at hr ⊢
  obtain ⟨r', hlast, hr⟩ := bind_eq_ok.mp hr
  rw [findLastPage_mono hlast hle]
  exact hr

/-! ## No call changes the file of a heap -/

variable {h h' : TableHeap} {b' : BufferPoolManager δ} {tuple : Tuple} {rid : RecordId}

theorem TableHeap.create_fileId (hr : create b file = .ok (h, b')) : h.fileId = file := by
  rw [create] at hr
  obtain ⟨⟨page, b₁⟩, _, hr⟩ := bind_eq_ok.mp hr
  cases page with
  | none => cases hr
  | some page =>
      dsimp only at hr
      split at hr <;> cases hr <;> rfl

theorem TableHeap.insertLoop_fileId {frame : FrameId} {r : Option RecordId}
    (hr : insertLoop tuple fuel b h frame = .ok (r, b', h')) : h'.fileId = h.fileId := by
  induction fuel generalizing b h frame with
  | zero => cases hr
  | succ fuel ih =>
      rw [insertLoop] at hr
      obtain ⟨⟨rid, page⟩, _, hr⟩ := bind_eq_ok.mp hr
      cases rid with
      | some rid =>
          cases hr
          rfl
      | none =>
          dsimp only at hr
          split at hr
          · cases hr
          · obtain ⟨⟨page, b₁⟩, _, hr⟩ := bind_eq_ok.mp hr
            cases page with
            | none =>
                cases hr
                rfl
            | some page =>
                have hfile := ih hr
                exact hfile

theorem TableHeap.insertTuple_fileId {r : Option RecordId}
    (hr : h.insertTuple b tuple = .ok (r, b', h')) : h'.fileId = h.fileId := by
  rw [insertTuple] at hr
  obtain ⟨⟨frame, b₁⟩, _, hr⟩ := bind_eq_ok.mp hr
  cases frame with
  | none =>
      cases hr
      rfl
  | some frame => exact insertLoop_fileId hr

theorem TableHeap.markDelete_fileId {r : Except Fault Bool}
    (hr : h.markDelete b rid = .ok (r, b', h')) : h'.fileId = h.fileId := by
  rw [markDelete] at hr
  obtain ⟨⟨frame, b₁⟩, _, hr⟩ := bind_eq_ok.mp hr
  cases frame with
  | none =>
      cases hr
      rfl
  | some frame =>
      dsimp only at hr
      split at hr <;> cases hr <;> rfl

end

variable {δ : Type} [PageDisk δ] [LawfulPageDisk δ]

/-- A heap that is opened anew, in a pool that others read from too. -/
theorem Chain.openExisting {b : BufferPoolManager δ} {held : PageKey → Nat}
    {pending : PageKey → Prop} {store : PageKey → Option PageData} {h : TableHeap} {l : Pages}
    {fuel : Nat} (hp : Pool b held pending store) (hc : Chain h store l)
    (hheld : ∀ k, held k ≠ 2147483647) (hno : ¬ Full b) (hfuel : l.length ≤ fuel) :
    ∃ h' b', TableHeap.openExisting fuel b h.fileId h.firstPageId = .ok (h', b') ∧
      Chain h' store l ∧ Kept b b' held pending store := by
  cases l with
  | nil => cases hc.last
  | cons x post =>
      have hc' : Chain h store ([] ++ x :: post) := hc
      obtain ⟨b', hr, hkept⟩ := hc'.findLastPage hp hheld hno hfuel
      rw [← hc.first_eq] at hr
      refine ⟨{ h with freeSpaceMap := fun _ => none }, b', ?_, ⟨hc.linked, hc.last, hc.pages⟩, hkept⟩
      rw [TableHeap.openExisting, hr]
      rfl

end TurtleDb.Table

namespace TurtleDb.Catalog

open TurtleDb.Lib TurtleDb.Buffer TurtleDb.Buffer.BufferPoolManager TurtleDb.Disk TurtleDb.Page
  TurtleDb.Table TurtleDb.Table.HeapState LawfulPageDisk

namespace DatabaseState

/-! ## Writing back -/

section
variable {δ : Type} [PageDisk δ] [LawfulPageDisk δ] {s t : DatabaseState δ} {oid : TableOid}
  {info : TableInfo} {store : PageKey → Option PageData} {l : Pages} {b : BufferPoolManager δ}

omit [PageDisk δ] [LawfulPageDisk δ] in
/-- The clients have no bytes of a table to write. -/
def NotWriting (s : DatabaseState δ) : Prop :=
  ∀ oid info, s.registry.getTable oid = some info → ∀ k, s.writing k → k.fileId ≠ info.table.fileId

omit [PageDisk δ] [LawfulPageDisk δ] in
theorem NotWriting.put (h : s.NotWriting) (hget : s.registry.getTable oid = some info)
    {t : HeapState δ} (hwriting : t.writing = s.writing) (hfile : t.heap.fileId = info.table.fileId) :
    (s.put info t).NotWriting := by
  intro oid' info' hget' k hk
  have hk' : s.writing k := hwriting ▸ hk
  have hlookup := (TableRegistry.getTable_setTable s.registry info t.heap oid').symm.trans hget'
  split at hlookup
  · cases hlookup
    exact fun he => h oid info hget k hk' (he.trans hfile)
  · exact h oid' info' hlookup k hk'

variable [FileDisk δ] [LawfulFileDisk δ]

theorem Sound.notWriting_created (h : Sound s store) (hno : s.NotWriting) {name : Bytes}
    {schema : ColumnSchema} (hnew : s.registry.getTableNamed name = none)
    (hfile : LawfulFileDisk.creatable s.pool.diskManager (s.registry.tablePath name))
    (hoids : s.registry.nextTableOid + 1 < word32) {r : TableRegistry}
    (hr : s.registry.createTable s.pool name schema = (.ok info, r, b)) :
    (s.created info r b).NotWriting := by
  have hname := h.consistent.lookup_eq_none hnew
  obtain ⟨file, d, hcreate, hheap, rfl, hoid, rfl⟩ := TableRegistry.createTable_ok hname hr
  obtain ⟨_, _, hnewfile⟩ := LawfulFileDisk.created hfile hcreate
  have hnext : s.registry.nextTableOid < add32 s.registry.nextTableOid 1 := by
    rw [add32_of_lt hoids]
    exact Nat.lt_succ_self _
  obtain ⟨_, hget⟩ := h.consistent.emplace hname hoid hnext
  have hheapFile : info.table.fileId = file := TableHeap.create_fileId hheap
  intro oid' info' hget' k hk
  have hget₁ := (hget oid').symm.trans hget'
  have hk : s.writing k := hk
  split at hget₁
  · -- A page that is written to is one of an open file.
    cases hget₁
    rintro hsame
    have hbacks := h.sharing.pool.backs
    obtain ⟨f, hf⟩ : ∃ f, s.pool.pageTable k = some f := Option.ne_none_iff_exists'.mp fun hnone =>
      Nat.ne_of_gt (hbacks.pending_held k hk) (hbacks.unpinned k hnone)
    have hopen := hbacks.opened k (hbacks.bytes k f hf ▸ Option.some_ne_none _)
    rw [hsame, hheapFile] at hopen
    exact (hnewfile file rfl).1 hopen
  · exact hno oid' info' hget₁ k hk

theorem Reachable.notWriting (hr : Reachable s) : s.NotWriting := by
  induction hr with
  | create _ _ _ => exact fun _ _ hget => (nomatch hget)
  | step hr hs ih =>
      obtain ⟨store, h⟩ := hr.sound
      cases hs with
      | others _ hall => exact fun oid info hget k hk =>
          (hall oid info hget).not_writing (fun k hk => ih oid info hget k hk) hk
      | createTable hnew hfile hoids _ hcreate => exact h.notWriting_created ih hnew hfile hoids hcreate
      | refused hnew _ _ _ hcreate =>
          obtain ⟨_, _, _, rfl, rfl⟩ :=
            TableRegistry.createTable_error (h.consistent.lookup_eq_none hnew) hcreate
          exact ih
      | insertTuple hget _ _ _ hcall => exact ih.put hget rfl (TableHeap.insertTuple_fileId hcall)
      | markDelete hget _ hcall => exact ih.put hget rfl (TableHeap.markDelete_fileId hcall)
      | getTuple _ _ _ => exact ih

end

/-! ## Another process -/

section

variable {s : DatabaseState DiskManager} {d d' : DiskManager} {file file' : FileId} {path : String}
  {oid : TableOid} {info : TableInfo} {store : PageKey → Option PageData} {l : Pages}

/-- The pages of `d` that a pool may ask for. -/
noncomputable def pagesOf (d : DiskManager) (k : PageKey) : Option PageData :=
  if k.pageId = invalidPageId then none else fileContent d k

theorem pagesOf_content {k : PageKey} {data : PageData} (hk : pagesOf d k = some data) :
    content d k = some data := by
  unfold pagesOf at hk
  split at hk
  · cases hk
  · exact hk

theorem pagesOf_ne_none {k : PageKey} (hk : pagesOf d k ≠ none) :
    opened d k.fileId ∧ k.pageId ≠ invalidPageId := by
  obtain ⟨data, hdata⟩ := Option.ne_none_iff_exists'.mp hk
  refine ⟨?_, fun hid => hk (if_pos hid)⟩
  obtain ⟨path, hopen, _⟩ := fileContent_eq_some.mp (pagesOf_content hdata)
  exact ⟨path, hopen⟩

/-- A pool over a disk manager stores the pages of its files. -/
theorem pool_pagesOf {poolSize : Nat}
    (hsmall : (BufferPoolManager.create poolSize d).frameCount ≤ frameLimit) :
    Pool (BufferPoolManager.create poolSize d) (fun _ => 0) (fun _ => False) (pagesOf d) :=
  .createOver poolSize d (fun _ _ => pagesOf_content) (fun _ hk => (pagesOf_ne_none hk).1)
    (fun _ hk => (pagesOf_ne_none hk).2) (.inl hsmall)

/-- The chain of a heap is in its file, under whatever id this is opened. -/
theorem Chain.reopened {h : TableHeap} (hc : Chain h store l)
    (hdisk : ∀ x ∈ l, content d ⟨h.fileId, x.1⟩ = store ⟨h.fileId, x.1⟩)
    (hpath : OpenedAt d h.fileId path) (hfiles : d'.fileSystem = d.fileSystem)
    (hfile : OpenedAt d' file' path) :
    Chain { h with fileId := file' } (pagesOf d') l := by
  refine ⟨hc.linked.congr fun x hx => ?_, hc.last, hc.pages⟩
  obtain ⟨hstored, hvalid⟩ := hc.linked.node_eq hx
  obtain ⟨path', hopen, hsize, hdata⟩ := fileContent_eq_some.mp ((hdisk x hx).trans hstored)
  rw [hpath.path_eq hopen] at hsize hdata
  show pagesOf d' ⟨file', x.1⟩ = store ⟨h.fileId, x.1⟩
  rw [hstored, pagesOf, if_neg hvalid, fileContent_eq_some]
  exact ⟨path, hfile, by rw [hfiles]; exact hsize, by rw [hfiles]; exact hdata⟩

/-- What a later process with the disk manager `d'` does with the tables that `s` had at the end, in
the files of `d`: it opens them, in any order and under any file ids, and reads. -/
inductive Session (s : DatabaseState DiskManager) (d d' : DiskManager) (poolSize : Nat) :
    BufferPoolManager DiskManager → List (TableOid × TableHeap) → Prop where
  | create : Session s d d' poolSize (.create poolSize d') []
  | openExisting {b tables oid info path file fuel h b'} (hs : Session s d d' poolSize b tables)
      (hget : s.registry.getTable oid = some info) (hpath : OpenedAt d info.table.fileId path)
      (hfile : OpenedAt d' file path)
      (hr : TableHeap.openExisting fuel b file info.table.firstPageId = .ok (h, b')) :
      Session s d d' poolSize b' ((oid, h) :: tables)
  | getTuple {b tables oid info h rid tuple r b'} (hs : Session s d d' poolSize b tables)
      (hmem : (oid, h) ∈ tables) (hget : s.registry.getTable oid = some info)
      (hrid : ⟨info.table.fileId, rid.pageId⟩ ∈ s.handed)
      (hr : h.getTuple b rid tuple = .ok (r, b')) : Session s d d' poolSize b' tables
  | scan {b tables oid info h fuel rows b'} (hs : Session s d d' poolSize b tables)
      (hmem : (oid, h) ∈ tables) (hget : s.registry.getTable oid = some info)
      (hr : h.scan fuel b = .ok (rows, b')) : Session s d d' poolSize b' tables

/-- The heap answers as the table of `s` would. -/
structure ReadsBack (s : DatabaseState DiskManager) (info : TableInfo)
    (map : RecordId → Option (List UInt8)) (h : TableHeap) (b : BufferPoolManager DiskManager) :
    Prop where
  getTuple : ∀ rid tuple, ⟨info.table.fileId, rid.pageId⟩ ∈ s.handed →
    ∃ b', match map rid with
      | some bytes => h.getTuple b rid tuple = .ok (.ok (some { tuple with data := bytes }), b')
      | none => ∃ m, h.getTuple b rid tuple = .ok (.error (.raised m), b')
  scan : ∃ rows b', h.scan (stepBound info.table.fileId (s.table info)) b = .ok (rows, b') ∧
    (∀ row ∈ rows, map row.1 = some row.2.data) ∧
    (∀ rid, rid ∈ rows.map Prod.fst ↔ map rid ≠ none) ∧ (rows.map Prod.fst).Nodup

/-- The pool stores the files, no page is pinned, and the heaps that were opened are the tables. -/
structure Session.Keeps (s : DatabaseState DiskManager) (d' : DiskManager)
    (store : PageKey → Option PageData) (b : BufferPoolManager DiskManager)
    (tables : List (TableOid × TableHeap)) : Prop where
  pool : Pool b (fun _ => 0) (fun _ => False) (pagesOf d')
  frame : 0 < b.frameCount
  chains : ∀ oid h, (oid, h) ∈ tables → ∀ info, s.registry.getTable oid = some info →
    ∃ l, Chain h (pagesOf d') l ∧ Holds info.table.fileId (s.table info) store l

variable {b b' : BufferPoolManager DiskManager} {tables : List (TableOid × TableHeap)}
  {heap : TableHeap} {poolSize fuel : Nat} {rid : RecordId} {tuple : Tuple}

/-- What the destructor of the pool has left. -/
structure Left (s : DatabaseState DiskManager) (store : PageKey → Option PageData)
    (d : DiskManager) : Prop where
  sound : Sound s store
  tables : ∀ oid info, s.registry.getTable oid = some info →
    ∃ path l, OpenedAt d info.table.fileId path ∧ Holds info.table.fileId (s.table info) store l ∧
      ∀ x ∈ l, content d ⟨info.table.fileId, x.1⟩ = store ⟨info.table.fileId, x.1⟩

theorem Reachable.left (hr : Reachable s) :
    ∃ b store, s.pool.flushAllPages = .ok b ∧ Left s store b.diskManager := by
  obtain ⟨store, hs⟩ := hr.sound
  obtain ⟨b, he, hbacks, _, _, _, _, hdisk⟩ := hs.sharing.pool.backs.flushAllPages
  refine ⟨b, store, he, hs, fun oid info hget => ?_⟩
  obtain ⟨l, hl⟩ := hs.holds oid info hget
  have hstored : ∀ x ∈ l, store ⟨info.table.fileId, x.1⟩ = some x.2 := fun x hx =>
    (hl.chain.linked.node_eq hx).1
  obtain ⟨pre, p, rfl⟩ := hl.chain.exists_last
  obtain ⟨path, hopen⟩ := hbacks.opened ⟨info.table.fileId, info.table.lastPageId⟩
    (hstored _ (List.mem_append_right _ (List.mem_singleton.mpr rfl)) ▸ Option.some_ne_none p)
  refine ⟨path, _, hopen, hl, fun x hx => ?_⟩
  rw [hstored x hx]
  exact hdisk _ _ (hstored x hx) fun hw => hr.notWriting oid info hget _ hw rfl

namespace Session.Keeps

theorem not_full (h : Keeps s d' store b tables) : ¬ Full b :=
  h.pool.not_full_iff.mpr ⟨0, h.frame, fun _ _ => rfl⟩

theorem kept (h : Keeps s d' store b tables)
    (hk : BufferPoolManager.Kept b b' (fun _ => 0) (fun _ => False) (pagesOf d')) :
    Keeps s d' store b' tables :=
  ⟨hk.pool, hk.steady.frameCount ▸ h.frame, h.chains⟩

theorem stored (h : Keeps s d' store b tables) (hc : Chain heap (pagesOf d') l) :
    Stored b heap (fun _ => 0) (fun _ => False) (pagesOf d') l :=
  ⟨h.pool, hc, fun _ => by decide⟩

theorem openExisting (h : Keeps s d' store b tables) (hleft : Left s store d)
    (hget : s.registry.getTable oid = some info) (hpath : OpenedAt d info.table.fileId path)
    (hfiles : d'.fileSystem = d.fileSystem) (hfile : OpenedAt d' file path)
    (hfuel : (s.table info).pageCount info.table.fileId ≤ fuel) :
    ∃ heap b', TableHeap.openExisting fuel b file info.table.firstPageId = .ok (heap, b') ∧
      Keeps s d' store b' ((oid, heap) :: tables) := by
  obtain ⟨path', l, hpath', hl, hdisk⟩ := hleft.tables oid info hget
  rw [hl.pageCount_eq] at hfuel
  rw [hpath.path_eq hpath'] at hpath'
  have hc := Chain.reopened hl.chain hdisk hpath hfiles hfile
  obtain ⟨heap, b', hr, hc', hkept⟩ := hc.openExisting h.pool (fun _ => by decide) h.not_full hfuel
  have h' := h.kept hkept
  refine ⟨heap, b', hr, h'.pool, h'.frame, fun oid' heap' hmem info' hget' => ?_⟩
  rcases List.mem_cons.mp hmem with heq | hmem
  · cases heq
    cases hget.symm.trans hget'
    exact ⟨l, hc', hl⟩
  · exact h'.chains oid' heap' hmem info' hget'

theorem getTuple (h : Keeps s d' store b tables) (hmem : (oid, heap) ∈ tables)
    (hget : s.registry.getTable oid = some info) (hrid : ⟨info.table.fileId, rid.pageId⟩ ∈ s.handed)
    (tuple : Tuple) :
    ∃ b', BufferPoolManager.Kept b b' (fun _ => 0) (fun _ => False) (pagesOf d') ∧
      match (s.table info).map rid with
      | some bytes => heap.getTuple b rid tuple = .ok (.ok (some { tuple with data := bytes }), b')
      | none => ∃ m, heap.getTuple b rid tuple = .ok (.error (.raised m), b') := by
  obtain ⟨l, hc, hl⟩ := h.chains oid heap hmem info hget
  rw [hl.map]
  rcases (h.stored hc).getTuple (hl.mem_pages hrid) tuple with ⟨_, hall⟩ | hread
  · exact absurd hall (BufferPoolManager.AllPinned.not_obtainable · ⟨h.frame, fun _ _ => rfl⟩)
  · exact hread

theorem scan (h : Keeps s d' store b tables) (hmem : (oid, heap) ∈ tables)
    (hget : s.registry.getTable oid = some info) :
    ∃ l b', Holds info.table.fileId (s.table info) store l ∧
      heap.scan (stepBound info.table.fileId (s.table info)) b =
        .ok ((PagedTable.entries l.contents).map Entry.row, b') ∧
      BufferPoolManager.Kept b b' (fun _ => 0) (fun _ => False) (pagesOf d') := by
  obtain ⟨l, hc, hl⟩ := h.chains oid heap hmem info hget
  have hlen := hl.entries_le
  have hpages := hl.pageCount_eq
  obtain ⟨b', he, hkept⟩ := hc.scan h.pool (fun _ => by decide) (.frame h.not_full)
    (show l.length < stepBound info.table.fileId (s.table info) by rw [stepBound]; omega)
    (show (PagedTable.entries l.contents).length < stepBound info.table.fileId (s.table info) by
      rw [stepBound]; omega)
  exact ⟨l, b', hl, he, hkept⟩

theorem readsBack (h : Keeps s d' store b tables) (hleft : Left s store d)
    (hmem : (oid, heap) ∈ tables) (hget : s.registry.getTable oid = some info) :
    ReadsBack s info (s.maps oid) heap b := by
  have hmap : (s.table info).map = s.maps oid :=
    congrArg s.maps (hleft.sound.consistent.entry oid info hget).1
  constructor
  · intro rid tuple hrid
    obtain ⟨b', _, hread⟩ := h.getTuple hmem hget hrid tuple
    rw [hmap] at hread
    exact ⟨b', hread⟩
  · obtain ⟨l, b', hl, he, _⟩ := h.scan hmem hget
    have hgenuine := hl.genuine (List.append_nil _).symm
    refine ⟨_, b', he, fun row hrow => ?_, fun rid => ?_, hgenuine.1⟩
    · rw [← hmap]
      exact hgenuine.2 row hrow
    · rw [← hmap, List.map_map]
      exact hl.mem_rids_iff

end Session.Keeps

theorem Session.keeps (h : Session s d d' poolSize b tables) (hleft : Left s store d)
    (hfiles : d'.fileSystem = d.fileSystem)
    (hframe : 0 < (BufferPoolManager.create poolSize d').frameCount)
    (hsmall : (BufferPoolManager.create poolSize d').frameCount ≤ frameLimit) :
    Session.Keeps s d' store b tables := by
  induction h with
  | create => exact ⟨pool_pagesOf hsmall, hframe, fun _ _ hmem => absurd hmem List.not_mem_nil⟩
  | @openExisting b tables oid info path file fuel heap b' _ hget hpath hfile hr ih =>
      obtain ⟨heap', b₁, he, h'⟩ := ih.openExisting hleft hget hpath hfiles hfile
        (Nat.le_max_right fuel ((s.table info).pageCount info.table.fileId))
      cases he.symm.trans (TableHeap.openExisting_mono hr (Nat.le_max_left _ _))
      exact h'
  | @getTuple b tables oid info heap rid tuple r b' _ hmem hget hrid hr ih =>
      obtain ⟨b₁, hkept, hread⟩ := ih.getTuple hmem hget hrid tuple
      split at hread
      · cases hread.symm.trans hr
        exact ih.kept hkept
      · obtain ⟨m, hread⟩ := hread
        cases hread.symm.trans hr
        exact ih.kept hkept
  | @scan b tables oid info heap fuel rows b' _ hmem hget hr ih =>
      obtain ⟨l, b₁, _, he, hkept⟩ := ih.scan hmem hget
      have he' := TableHeap.scan_mono he (Nat.le_max_right fuel _)
      cases he'.symm.trans (TableHeap.scan_mono hr (Nat.le_max_left _ _))
      exact ih.kept hkept

/-- Whatever was done to the tables, after the destructor of the pool and in another process each of
them can be opened from the path of its file, and answers from its map. -/
theorem tables_survive (s : DatabaseState DiskManager) (hr : Reachable s) :
    ∃ b, s.pool.flushAllPages = .ok b ∧
      (∀ oid info, s.registry.getTable oid = some info →
        ∃ path, OpenedAt b.diskManager info.table.fileId path) ∧
      ∀ (d' : DiskManager) (poolSize : Nat), d'.fileSystem = b.diskManager.fileSystem →
        0 < (BufferPoolManager.create poolSize d').frameCount →
        (BufferPoolManager.create poolSize d').frameCount ≤ frameLimit →
        ∀ b' tables, Session s b.diskManager d' poolSize b' tables →
          (∀ oid heap info, (oid, heap) ∈ tables → s.registry.getTable oid = some info →
            ReadsBack s info (s.maps oid) heap b') ∧
          ∀ oid info path file, s.registry.getTable oid = some info →
            OpenedAt b.diskManager info.table.fileId path → OpenedAt d' file path →
            ∃ heap b'', TableHeap.openExisting ((s.table info).pageCount info.table.fileId) b' file
              info.table.firstPageId = .ok (heap, b'') := by
  obtain ⟨b, store, he, hleft⟩ := hr.left
  refine ⟨b, he, fun oid info hget => ?_, fun d' poolSize hfiles hframe hsmall b' tables hs => ?_⟩
  · obtain ⟨path, _, hopen, _⟩ := hleft.tables oid info hget
    exact ⟨path, hopen⟩
  · have h := hs.keeps hleft hfiles hframe hsmall
    refine ⟨fun oid heap info hmem hget => h.readsBack hleft hmem hget,
      fun oid info path file hget hpath hfile => ?_⟩
    obtain ⟨heap, b'', hr, _⟩ := h.openExisting hleft hget hpath hfiles hfile (Nat.le_refl _)
    exact ⟨heap, b'', hr⟩

/-- A tuple is inserted, and read in another process. -/
theorem tables_survive_row :
    ∃ (s : DatabaseState DiskManager) (info : TableInfo) (rid : RecordId)
      (b b' b'' : BufferPoolManager DiskManager) (path : String) (heap : TableHeap),
      Reachable s ∧ s.registry.getTable 0 = some info ∧ s.pool.flushAllPages = .ok b ∧
        TableHeap.openExisting ((s.table info).pageCount info.table.fileId)
          (BufferPoolManager.create 1 ((DiskManager.init b.diskManager.fileSystem).createFile path).2)
          0 info.table.firstPageId = .ok (heap, b') ∧
        heap.getTuple b' rid .empty = .ok (.ok (some ⟨[1], .invalid⟩), b'') := by
  obtain ⟨s, people, h, _, _, hfits, hget, _⟩ :=
    (open_zero (fun _ => File.empty) (ascii "db")).createTable (by decide)
      (show TableRegistry.getTableNamed _ (ascii "people") = none from rfl)
      ⟨rfl, fun _ _ h => (nomatch h)⟩ []
  obtain ⟨store, hs⟩ := h.reachable.sound
  obtain ⟨t, rid, info, hr, _, hsame, hget', hmaps, hrid, _⟩ :=
    hs.insertFits h.reachable (hget 0) h.two [1] (by decide) (by decide) hfits
  have hget' : t.registry.getTable 0 = some info := hget' 0
  have hmap : t.maps 0 rid = some [1] := by
    rw [hmaps, Function.update_self, Function.update_self]
  rw [← hsame.2.2.2] at hrid
  obtain ⟨b, hflush, hpaths, hsessions⟩ := tables_survive _ hr
  obtain ⟨path, hpath⟩ := hpaths 0 _ hget'
  have hopen : OpenedAt ((DiskManager.init b.diskManager.fileSystem).createFile path).2 0 path :=
    (openedAt_createFile (d := DiskManager.init b.diskManager.fileSystem) rfl
      fun _ _ hnone => (nomatch hnone)).1
  have hsession := hsessions ((DiskManager.init b.diskManager.fileSystem).createFile path).2 1 rfl
    Nat.one_pos (by decide : 1 ≤ frameLimit)
  obtain ⟨heap, b', hrun⟩ := (hsession _ [] .create).2 0 _ path 0 hget' hpath hopen
  have hreads := (hsession _ _ (.openExisting .create hget' hpath hopen hrun)).1 0 heap _
    List.mem_cons_self hget'
  obtain ⟨b'', hread⟩ := hreads.getTuple rid .empty hrid
  rw [hmap] at hread
  exact ⟨_, _, rid, b, b', b'', path, heap, hr, hget', hflush, hrun, hread⟩

end

end DatabaseState

end TurtleDb.Catalog
