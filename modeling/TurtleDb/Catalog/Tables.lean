import TurtleDb.Catalog.FileDisks
import TurtleDb.Table.FiniteMap
import TurtleDb.Table.Lemmas.Frames

/-!
# The tables of a database

Any number of tables share one pool, one disk manager and one counter of page ids. Whatever is
called on one of them, each is the finite map of its own inserts and deletes.
-/

namespace TurtleDb.Catalog

open TurtleDb.Lib TurtleDb.Buffer TurtleDb.Buffer.BufferPoolManager TurtleDb.Page TurtleDb.Table
  TurtleDb.Table.HeapState LawfulPageDisk

/-! ## Runs -/

/-- The pool with its tables, and what was inserted into each and not deleted. -/
structure DatabaseState (δ : Type) extends Shared δ where
  registry : TableRegistry
  maps : TableOid → RecordId → Option (List UInt8)

namespace DatabaseState

variable {δ : Type}

/-- One of the tables. -/
def table (s : DatabaseState δ) (info : TableInfo) : HeapState δ where
  toShared := s.toShared
  heap := info.table
  map := s.maps info.oid
  issued := []

/-- After a call on one of the tables. -/
def put (s : DatabaseState δ) (info : TableInfo) (t : HeapState δ) : DatabaseState δ where
  toShared := t.toShared
  registry := s.registry.setTable info t.heap
  maps := Function.update s.maps info.oid t.map

def inserted (s : DatabaseState δ) (info : TableInfo) (tuple : Tuple) (r : Option RecordId)
    (b : BufferPoolManager δ) (h : TableHeap) : DatabaseState δ :=
  s.put info ((s.table info).inserted info.table.fileId tuple r b h)

def deleted (s : DatabaseState δ) (info : TableInfo) (rid : RecordId) (r : Except Fault Bool)
    (b : BufferPoolManager δ) (h : TableHeap) : DatabaseState δ :=
  s.put info ((s.table info).deleted rid r b h)

/-- After `create_table` has made a table. -/
def created (s : DatabaseState δ) (info : TableInfo) (r : TableRegistry)
    (b : BufferPoolManager δ) : DatabaseState δ where
  toShared := (HeapState.created s.toShared info.table.fileId info.table b).toShared
  registry := r
  maps := Function.update s.maps info.oid fun _ => none

variable [PageDisk δ] [LawfulPageDisk δ] [FileDisk δ] [LawfulFileDisk δ]

/-- What happens to a database. The other clients of the pool leave the pages of all tables alone. A
new table has a path of its own, and there are OIDs and page ids left. -/
inductive Step : DatabaseState δ → DatabaseState δ → Prop where
  | others {s t file} (ho : Others file s.toShared t)
      (hall : ∀ oid info, s.registry.getTable oid = some info →
        Others info.table.fileId s.toShared t) : Step s { s with toShared := t }
  | createTable {s name schema info r b} (hnew : s.registry.getTableNamed name = none)
      (hfile : LawfulFileDisk.creatable s.pool.diskManager (s.registry.tablePath name))
      (hoids : s.registry.nextTableOid + 1 < word32) (hroom : s.pool.HasRoom)
      (hr : s.registry.createTable s.pool name schema = (.ok info, r, b)) :
      Step s (s.created info r b)
  | refused {s name schema fault r b} (hnew : s.registry.getTableNamed name = none)
      (hfile : LawfulFileDisk.creatable s.pool.diskManager (s.registry.tablePath name))
      (hoids : s.registry.nextTableOid + 1 < word32) (hroom : s.pool.HasRoom)
      (hr : s.registry.createTable s.pool name schema = (.error fault, r, b)) :
      Step s { s with pool := b, registry := r }
  | insertTuple {s oid info tuple r b h} (hget : s.registry.getTable oid = some info)
      (hpos : 0 < tuple.data.length) (hmax : tuple.data.length ≤ SlottedPage.maxInsertSize)
      (hroom : info.table.FitsLast s.pool tuple.data.length ∨ s.pool.HasRoom)
      (hr : info.table.insertTuple s.pool tuple = .ok (r, b, h)) :
      Step s (s.inserted info tuple r b h)
  | markDelete {s oid info rid r b h} (hget : s.registry.getTable oid = some info)
      (hrid : ⟨info.table.fileId, rid.pageId⟩ ∈ s.handed)
      (hr : info.table.markDelete s.pool rid = .ok (r, b, h)) : Step s (s.deleted info rid r b h)
  | getTuple {s oid info rid tuple r b} (hget : s.registry.getTable oid = some info)
      (hrid : ⟨info.table.fileId, rid.pageId⟩ ∈ s.handed)
      (hr : info.table.getTuple s.pool rid tuple = .ok (r, b)) : Step s { s with pool := b }

/-- The databases that runs lead to. -/
inductive Reachable : DatabaseState δ → Prop where
  | create (poolSize : Nat) (d : δ) (dbDir : Bytes) :
      Reachable ⟨⟨BufferPoolManager.create poolSize d, [], fun _ => 0, fun _ => False⟩,
        TableRegistry.empty dbDir, fun _ _ => none⟩
  | step {s t} (h : Reachable s) (hs : Step s t) : Reachable t

end DatabaseState

/-! ## Every run -/

namespace DatabaseState

variable {δ : Type} [PageDisk δ] [LawfulPageDisk δ] {s : DatabaseState δ} {oid : TableOid}
  {info : TableInfo} {store store' : PageKey → Option PageData} {l : Pages} {name : Bytes}
  {schema : ColumnSchema}

/-- The tables lie in files of their own, and each holds its map. -/
structure Sound (s : DatabaseState δ) (store : PageKey → Option PageData) : Prop where
  sharing : Sharing s.toShared store
  consistent : s.registry.Consistent
  files : ∀ oid info oid' info', s.registry.getTable oid = some info →
    s.registry.getTable oid' = some info' → info.table.fileId = info'.table.fileId → oid = oid'
  holds : ∀ oid info, s.registry.getTable oid = some info →
    ∃ l, Holds info.table.fileId (s.table info) store l

namespace Sound

/-- A call on one table, which keeps the pages of all other files. -/
theorem put (h : Sound s store) (hget : s.registry.getTable oid = some info) {t : HeapState δ}
    (ht : Holds info.table.fileId t store' l)
    (hpages : ∀ k p, k.fileId ≠ info.table.fileId → store k = some p → t.pool.stored k = some p)
    (hhanded : ∀ k, k.fileId ≠ info.table.fileId → (k ∈ t.handed ↔ k ∈ s.handed)) :
    Sound (s.put info t) store' := by
  have hoid := (h.consistent.entry oid info hget).1
  subst hoid
  have hcases : ∀ oid info', (s.put info t).registry.getTable oid = some info' →
      info' = { info with table := t.heap } ∧ oid = info.oid ∨
        s.registry.getTable oid = some info' ∧ oid ≠ info.oid := by
    intro oid info' hget'
    have heq := (TableRegistry.getTable_setTable s.registry info t.heap oid).symm.trans hget'
    split at heq
    · exact .inl ⟨(Option.some.inj heq).symm, ‹_›⟩
    · exact .inr ⟨heq, ‹_›⟩
  have hold : ∀ oid info', (s.put info t).registry.getTable oid = some info' →
      ∃ old, s.registry.getTable oid = some old ∧ old.table.fileId = info'.table.fileId := by
    intro oid info' hget'
    rcases hcases oid info' hget' with ⟨rfl, rfl⟩ | ⟨hget', _⟩
    · exact ⟨info, hget, ht.fileId.symm⟩
    · exact ⟨info', hget', rfl⟩
  refine ⟨ht.sharing, h.consistent.setTable hget t.heap,
    fun oid₁ info₁ oid₂ info₂ hget₁ hget₂ hfile => ?_, fun oid' info' hget' => ?_⟩
  · obtain ⟨old₁, hold₁, hfile₁⟩ := hold oid₁ info₁ hget₁
    obtain ⟨old₂, hold₂, hfile₂⟩ := hold oid₂ info₂ hget₂
    exact h.files oid₁ old₁ oid₂ old₂ hold₁ hold₂ (hfile₁.trans (hfile.trans hfile₂.symm))
  · rcases hcases oid' info' hget' with ⟨rfl, rfl⟩ | ⟨hget', hne⟩
    · have hfile : ({ info with table := t.heap } : TableInfo).table.fileId = info.table.fileId :=
        ht.fileId
      rw [hfile]
      exact ⟨l, ht.sharing, ht.chain, ht.recorded, ht.fileId, ht.complete,
        fun rid => (congrFun (Function.update_self _ _ _) rid).trans (ht.map rid),
        fun rid hrid => (nomatch hrid)⟩
    · obtain ⟨l', hs'⟩ := h.holds oid' info' hget'
      have hfile : info'.table.fileId ≠ info.table.fileId := fun heq =>
        hne (h.files oid' info' info.oid info hget' hget heq)
      have hs := hs'.elsewhere ht.sharing (fun i p hp => hpages _ p hfile hp)
        fun i => hhanded _ hfile
      have hmap : Function.update s.maps info.oid t.map info'.oid = s.maps info'.oid :=
        Function.update_of_ne (by rwa [(h.consistent.entry oid' info' hget').1]) _ _
      refine ⟨l', hs.sharing, hs.chain, hs.recorded, hs.fileId, hs.complete, fun rid => ?_,
        fun rid hrid => (nomatch hrid)⟩
      exact (congrFun hmap rid).trans (hs.map rid)

/-- A call that leaves the pages of all tables alone. -/
theorem others (h : Sound s store) {t : Shared δ} (ht : Sharing t store')
    (hall : ∀ oid info, s.registry.getTable oid = some info →
      ∃ store' l, Holds info.table.fileId { s.table info with toShared := t } store' l) :
    Sound { s with toShared := t } store' := by
  refine ⟨ht, h.consistent, h.files, fun oid info hget => ?_⟩
  obtain ⟨store₁, l, hs⟩ := hall oid info hget
  obtain rfl := sharing_unique hs.sharing ht
  exact ⟨l, hs⟩

theorem insertTuple (h : Sound s store) (hget : s.registry.getTable oid = some info) {tuple : Tuple}
    (hpos : 0 < tuple.data.length) (hmax : tuple.data.length ≤ SlottedPage.maxInsertSize)
    (hroom : info.table.FitsLast s.pool tuple.data.length ∨ s.pool.HasRoom) {r : Option RecordId}
    {b : BufferPoolManager δ} {heap : TableHeap}
    (hr : info.table.insertTuple s.pool tuple = .ok (r, b, heap)) :
    ∃ store', Sound (s.inserted info tuple r b heap) store' := by
  obtain ⟨l, hs⟩ := h.holds oid info hget
  have hpages : ∀ k p, k.fileId ≠ info.table.fileId → store k = some p → b.stored k = some p :=
    fun k p hk hp => hs.stored.insertTuple_elsewhere hpos hmax (fun hno => hs.canGrow
      (hroom.resolve_left fun hfits => hno ((hs.stored.fitsLast_iff hmax).mp hfits))) hr hk hp
  have hhanded : ∀ k, k.fileId ≠ info.table.fileId →
      (k ∈ ((s.table info).inserted info.table.fileId tuple r b heap).handed ↔ k ∈ s.handed) := by
    intro k hk
    unfold HeapState.inserted
    dsimp only
    split
    · exact Iff.rfl
    · exact ⟨fun hmem => (List.mem_cons.mp hmem).resolve_left fun heq =>
        hk (congrArg PageKey.fileId heq), List.mem_cons_of_mem _⟩
  rcases hs.insertTuple tuple hpos hmax hroom with ⟨⟨m, he⟩, _⟩ | ⟨b', he, _, _, hs'⟩ |
    ⟨rid, b', heap', store', l', he, _, hs', _⟩
  · cases he.symm.trans hr
  · cases he.symm.trans hr
    exact ⟨store, h.put hget hs' hpages hhanded⟩
  · cases he.symm.trans hr
    exact ⟨store', h.put hget hs' hpages hhanded⟩

theorem markDelete (h : Sound s store) (hget : s.registry.getTable oid = some info)
    {rid : RecordId} (hrid : ⟨info.table.fileId, rid.pageId⟩ ∈ s.handed) {r : Except Fault Bool}
    {b : BufferPoolManager δ} {heap : TableHeap}
    (hr : info.table.markDelete s.pool rid = .ok (r, b, heap)) :
    ∃ store', Sound (s.deleted info rid r b heap) store' := by
  obtain ⟨l, hs⟩ := h.holds oid info hget
  have hpages : ∀ k p, k.fileId ≠ info.table.fileId → store k = some p → b.stored k = some p :=
    fun k p hk hp => hs.stored.markDelete_elsewhere (hs.mem_pages hrid) hr hk hp
  have hput : ∀ store' l', Holds info.table.fileId ((s.table info).deleted rid r b heap) store' l' →
      Sound (s.deleted info rid r b heap) store' := fun store' l' hs' =>
    h.put hget hs' hpages fun _ _ => Iff.rfl
  rcases hs.markDelete hrid with ⟨he, _⟩ | ⟨b', heap', store', l', he, _, hs', _⟩ |
    ⟨m, b', he, hkept, _⟩
  · cases he.symm.trans hr
    exact ⟨store, hput store l hs⟩
  · cases he.symm.trans hr
    exact ⟨store', hput store' l' hs'⟩
  · cases he.symm.trans hr
    exact ⟨store, hput store l (hs.of_kept hkept)⟩

theorem getTuple (h : Sound s store) (hget : s.registry.getTable oid = some info) {rid : RecordId}
    (hrid : ⟨info.table.fileId, rid.pageId⟩ ∈ s.handed) {tuple : Tuple}
    {r : Except Fault (Option Tuple)} {b : BufferPoolManager δ}
    (hr : info.table.getTuple s.pool rid tuple = .ok (r, b)) : Sound { s with pool := b } store := by
  obtain ⟨l, hs⟩ := h.holds oid info hget
  have hkept : BufferPoolManager.Kept s.pool b s.held s.writing store := by
    rcases hs.getTuple hrid tuple with ⟨he, _⟩ | ⟨b', hkept, he⟩
    · cases he.symm.trans hr
      exact ⟨h.sharing.pool, .refl _ _, rfl⟩
    · cases hmap : (s.table info).map rid with
      | some bytes =>
          rw [hmap] at he
          cases he.symm.trans hr
          exact hkept
      | none =>
          rw [hmap] at he
          obtain ⟨m, he⟩ := he
          cases he.symm.trans hr
          exact hkept
  refine h.others (t := { s.toShared with pool := b }) (h.sharing.kept hkept fun _ => Iff.rfl)
    fun oid' info' hget' => ?_
  obtain ⟨l', hs'⟩ := h.holds oid' info' hget'
  exact ⟨store, l', hs'.of_kept hkept⟩

variable [FileDisk δ] [LawfulFileDisk δ]

/-- The disk manager opens a file that no table has. -/
theorem reopened (h : Sound s store)
    (hfile : LawfulFileDisk.creatable s.pool.diskManager (s.registry.tablePath name))
    {answer : Except Fault FileId} {d : δ}
    (hr : FileDisk.createFile s.pool.diskManager (s.registry.tablePath name) = (answer, d)) :
    Sound { s with pool := { s.pool with diskManager := d } } store := by
  obtain ⟨hopen, hcontent, _⟩ := LawfulFileDisk.created hfile hr
  have ht := sharing_reopened h.sharing hopen hcontent
  refine h.others (t := { s.toShared with pool := { s.pool with diskManager := d } }) ht
    fun oid info hget => ?_
  obtain ⟨l, hs⟩ := h.holds oid info hget
  exact ⟨store, l, hs.elsewhere ht (fun i p hp => ht.pool.stored_eq hp) fun _ => Iff.rfl⟩

omit [FileDisk δ] [LawfulFileDisk δ] in
theorem opened (h : Sound s store) (hget : s.registry.getTable oid = some info) :
    opened s.pool.diskManager info.table.fileId := by
  obtain ⟨l, hs⟩ := h.holds oid info hget
  obtain ⟨pre, p, rfl⟩ := hs.chain.exists_last
  exact h.sharing.pool.backs.opened _ (hs.chain.stored.1 ▸ Option.some_ne_none p)

theorem createTable (h : Sound s store) (hnew : s.registry.getTableNamed name = none)
    (hfile : LawfulFileDisk.creatable s.pool.diskManager (s.registry.tablePath name))
    (hoids : s.registry.nextTableOid + 1 < word32) (hroom : s.pool.HasRoom) {r : TableRegistry}
    {b : BufferPoolManager δ}
    (hr : s.registry.createTable s.pool name schema = (.ok info, r, b)) :
    ∃ store', Sound (s.created info r b) store' := by
  have hname := h.consistent.lookup_eq_none hnew
  obtain ⟨file, d, hcreate, hheap, rfl, hoid, rfl⟩ := TableRegistry.createTable_ok hname hr
  obtain ⟨_, _, hnewfile⟩ := LawfulFileDisk.created hfile hcreate
  obtain ⟨hnot, hopened⟩ := hnewfile file rfl
  have h₁ := h.reopened hfile hcreate
  have hnone : ∀ i, store ⟨file, i⟩ = none := fun i =>
    not_not.mp fun hne => hnot (h.sharing.pool.backs.opened _ hne)
  rcases Holds.create h₁.sharing hnone hopened hroom with ⟨m, he, _⟩ |
    ⟨heap, b', store', p, he, _, hs, _⟩
  · cases he.symm.trans hheap
  cases he.symm.trans hheap
  have hfileId : info.table.fileId = file := hs.fileId
  subst hfileId
  have hother : ∀ oid info', s.registry.getTable oid = some info' →
      info'.table.fileId ≠ info.table.fileId := fun oid info' hget heq =>
    hnot (heq ▸ h.opened hget)
  have hnext : s.registry.nextTableOid < add32 s.registry.nextTableOid 1 := by
    rw [add32_of_lt hoids]
    exact Nat.lt_succ_self _
  obtain ⟨hconsistent, hget⟩ := h.consistent.emplace hname hoid hnext
  refine ⟨store', hs.sharing, hconsistent, fun oid₁ info₁ oid₂ info₂ hget₁ hget₂ hsame => ?_,
    fun oid info' hget' => ?_⟩
  · have hget₁' := (hget oid₁).symm.trans hget₁
    have hget₂' := (hget oid₂).symm.trans hget₂
    split at hget₁' <;> split at hget₂'
    · exact Eq.trans ‹_› (Eq.symm ‹_›)
    · cases hget₁'
      exact absurd hsame.symm (hother _ _ hget₂')
    · cases hget₂'
      exact absurd hsame (hother _ _ hget₁')
    · exact h.files _ _ _ _ hget₁' hget₂' hsame
  · have hget'' := (hget oid).symm.trans hget'
    split at hget''
    · cases hget''
      exact ⟨_, hs.sharing, hs.chain, hs.recorded, hs.fileId, hs.complete,
        fun rid => (congrFun (Function.update_self _ _ _) rid).trans (hs.map rid),
        fun rid hrid => (nomatch hrid)⟩
    · obtain ⟨l, hs'⟩ := h₁.holds oid info' hget''
      have hs'' := hs'.elsewhere hs.sharing
        (fun i p hp => create_elsewhere h₁.sharing hopened hroom hheap hp) fun i => by
          refine ⟨fun hmem => (List.mem_cons.mp hmem).resolve_left fun heq => ?_,
            List.mem_cons_of_mem _⟩
          exact hother oid info' hget'' (congrArg PageKey.fileId heq)
      have hmap : Function.update s.maps info.oid (fun _ => none) info'.oid = s.maps info'.oid :=
        Function.update_of_ne (by rwa [(h.consistent.entry oid info' hget'').1]) _ _
      refine ⟨l, hs''.sharing, hs''.chain, hs''.recorded, hs''.fileId, hs''.complete,
        fun rid => ?_, fun rid hrid => (nomatch hrid)⟩
      exact (congrFun hmap rid).trans (hs''.map rid)

theorem refused (h : Sound s store) (hnew : s.registry.getTableNamed name = none)
    (hfile : LawfulFileDisk.creatable s.pool.diskManager (s.registry.tablePath name))
    (hoids : s.registry.nextTableOid + 1 < word32) {fault : Fault} {r : TableRegistry}
    {b : BufferPoolManager δ}
    (hr : s.registry.createTable s.pool name schema = (.error fault, r, b)) :
    Sound { s with pool := b, registry := r } store := by
  obtain ⟨answer, d, hcreate, rfl, rfl⟩ :=
    TableRegistry.createTable_error (h.consistent.lookup_eq_none hnew) hr
  have h₁ := h.reopened hfile hcreate
  refine ⟨h₁.sharing, ⟨fun oid info hget => ?_, h.consistent.named⟩, h₁.files, h₁.holds⟩
  obtain ⟨ho, hn, hlt⟩ := h.consistent.entry oid info hget
  refine ⟨ho, hn, Nat.lt_trans hlt ?_⟩
  show s.registry.nextTableOid < add32 s.registry.nextTableOid 1
  rw [add32_of_lt hoids]
  exact Nat.lt_succ_self _

theorem step (h : Sound s store) {t : DatabaseState δ} (hstep : Step s t) :
    ∃ store', Sound t store' := by
  cases hstep with
  | others ho hall =>
      obtain ⟨store', ht, _⟩ := h.sharing.others ho
      refine ⟨store', h.others ht fun oid info hget => ?_⟩
      obtain ⟨l, hs⟩ := h.holds oid info hget
      obtain ⟨store₁, hs₁⟩ := hs.others (hall oid info hget)
      exact ⟨store₁, l, hs₁⟩
  | createTable hnew hfile hoids hroom hr => exact h.createTable hnew hfile hoids hroom hr
  | refused hnew hfile hoids _ hr => exact ⟨store, h.refused hnew hfile hoids hr⟩
  | insertTuple hget hpos hmax hroom hr => exact h.insertTuple hget hpos hmax hroom hr
  | markDelete hget hrid hr => exact h.markDelete hget hrid hr
  | getTuple hget hrid hr => exact ⟨store, h.getTuple hget hrid hr⟩

end Sound

theorem Reachable.sound [FileDisk δ] [LawfulFileDisk δ] (hr : Reachable s) :
    ∃ store, Sound s store := by
  induction hr with
  | create poolSize d dbDir =>
      exact ⟨_, .create poolSize d, .empty dbDir, fun _ _ _ _ hget => (nomatch hget),
        fun _ _ hget => (nomatch hget)⟩
  | step _ hstep ih =>
      obtain ⟨store, h⟩ := ih
      exact h.step hstep

/-! ## Main results -/

variable [FileDisk δ] [LawfulFileDisk δ]

/-- The calls on a table answer from its map, and the run goes on with what they did to it. -/
structure AnswersFrom (s : DatabaseState δ) (info : TableInfo)
    (map : RecordId → Option (List UInt8)) : Prop where
  insertTuple : ∀ tuple : Tuple, 1 ≤ tuple.storageSize → tuple.storageSize ≤ 4064 →
    info.table.FitsLast s.pool tuple.storageSize ∨ s.pool.HasRoom →
    (∃ m, info.table.insertTuple s.pool tuple = .error (.terminated m)) ∨
      ∃ rid b h, info.table.insertTuple s.pool tuple = .ok (some rid, b, h) ∧ map rid = none ∧
        Reachable (s.inserted info tuple (some rid) b h)
  markDelete : ∀ rid, ⟨info.table.fileId, rid.pageId⟩ ∈ s.handed →
    ∃ r b h, info.table.markDelete s.pool rid = .ok (r, b, h) ∧
      (map rid ≠ none → r = .ok true) ∧ Reachable (s.deleted info rid r b h)
  getTuple : ∀ rid tuple, ⟨info.table.fileId, rid.pageId⟩ ∈ s.handed →
    ∃ b, Reachable { s with pool := b } ∧
      match map rid with
      | some bytes =>
          info.table.getTuple s.pool rid tuple = .ok (.ok (some { tuple with data := bytes }), b)
      | none => ∃ m, info.table.getTuple s.pool rid tuple = .ok (.error (.raised m), b)
  scan : ∃ rows b, info.table.scan (stepBound info.table.fileId (s.table info)) s.pool =
      .ok (rows, b) ∧ (∀ row ∈ rows, map row.1 = some row.2.data) ∧
    (∀ rid, rid ∈ rows.map Prod.fst ↔ map rid ≠ none) ∧ (rows.map Prod.fst).Nodup

theorem Reachable.answersFrom (hr : Reachable s) (hget : s.registry.getTable oid = some info)
    (htwo : TwoUnpinned s.pool) : AnswersFrom s info (s.maps oid) := by
  obtain ⟨store, h⟩ := hr.sound
  obtain ⟨l, hs⟩ := h.holds oid info hget
  have hmaps : (s.table info).map = s.maps oid :=
    congrArg s.maps (h.consistent.entry oid info hget).1
  have hobtain := hs.twoObtainable_iff.mp htwo
  obtain ⟨f, _, ho, _⟩ := hobtain
  have hpinned : ¬ AllPinned s.pool s.held := fun hall => hall.not_obtainable ho
  refine ⟨fun tuple hpos hmax hroom => ?_, fun rid hrid => ?_, fun rid tuple hrid => ?_, ?_⟩
  · have hle : tuple.data.length ≤ SlottedPage.maxInsertSize := Nat.le_trans hmax (by decide)
    rcases hs.insertTuple tuple hpos hle hroom with ⟨hterm, _⟩ | ⟨b, _, hno, _⟩ |
      ⟨rid, b, heap, store', l', he, _, _, hadds, _⟩
    · exact .inl hterm
    · exact absurd (hs.twoObtainable_iff.mp htwo) hno
    · refine .inr ⟨rid, b, heap, he, ?_, .step hr (.insertTuple hget hpos hle hroom he)⟩
      rw [← hmaps, hs.map]
      exact hadds.get_eq_none hs.nodup
  · rcases hs.markDelete hrid with ⟨_, hall⟩ | ⟨b, heap, _, _, he, _⟩ | ⟨m, b, he, _, hno⟩
    · exact absurd hall hpinned
    · exact ⟨_, b, heap, he, fun _ => rfl, .step hr (.markDelete hget hrid he)⟩
    · refine ⟨_, b, _, he, fun hlive => ?_, .step hr (.markDelete hget hrid he)⟩
      obtain ⟨bytes, hb⟩ := Option.ne_none_iff_exists'.mp hlive
      rw [← hmaps, hs.map] at hb
      exact absurd (PagedTable.Place.of_get hb) hno
  · rcases hs.getTuple hrid tuple with ⟨_, hall⟩ | ⟨b, _, hmatch⟩
    · exact absurd hall hpinned
    · rw [hmaps] at hmatch
      refine ⟨b, ?_, hmatch⟩
      cases hmap : s.maps oid rid with
      | some bytes =>
          rw [hmap] at hmatch
          exact .step hr (.getTuple hget hrid hmatch)
      | none =>
          rw [hmap] at hmatch
          obtain ⟨m, he⟩ := hmatch
          exact .step hr (.getTuple hget hrid he)
  · have hcan : CanRead info.table.fileId (s.table info) :=
      .inl (hs.sharing.pool.not_full_iff.mpr ⟨f, ho⟩)
    obtain ⟨b, he⟩ := hs.scan hcan
    obtain ⟨hnodup, hrows⟩ := hs.genuine (List.append_nil _).symm
    rw [hmaps] at hrows
    refine ⟨_, b, he, hrows, fun rid => ?_, hnodup⟩
    rw [List.map_map, ← hmaps]
    exact hs.mem_rids_iff

/-- What identifies a table stays. -/
def SameEntry (info info' : TableInfo) : Prop :=
  info'.name = info.name ∧ info'.schema = info.schema ∧ info'.oid = info.oid ∧
    info'.table.fileId = info.table.fileId

theorem Sound.kept (h : Sound s store) {t : DatabaseState δ} (hstep : Step s t)
    (hget : s.registry.getTable oid = some info) :
    ∃ info', t.registry.getTable oid = some info' ∧ SameEntry info info' := by
  have hput : ∀ oid' info' (t : HeapState δ), s.registry.getTable oid' = some info' →
      t.heap.fileId = info'.table.fileId →
      ∃ info'', (s.put info' t).registry.getTable oid = some info'' ∧ SameEntry info info'' := by
    intro oid' info' t hget' hfile
    have hlookup := TableRegistry.getTable_setTable s.registry info' t.heap oid
    by_cases ho : oid = info'.oid
    · rw [if_pos ho] at hlookup
      have hsame := (h.consistent.entry oid' info' hget').1
      rw [ho, hsame, hget'] at hget
      cases hget
      exact ⟨_, hlookup, rfl, rfl, rfl, hfile⟩
    · rw [if_neg ho] at hlookup
      exact ⟨info, hlookup.trans hget, rfl, rfl, rfl, rfl⟩
  cases hstep with
  | others _ _ => exact ⟨info, hget, rfl, rfl, rfl, rfl⟩
  | getTuple _ _ _ => exact ⟨info, hget, rfl, rfl, rfl, rfl⟩
  | createTable hnew hfile hoids hroom hr =>
      have hname := h.consistent.lookup_eq_none hnew
      obtain ⟨_, _, _, _, rfl, hoid, rfl⟩ := TableRegistry.createTable_ok hname hr
      have hnext : s.registry.nextTableOid < add32 s.registry.nextTableOid 1 := by
        rw [add32_of_lt hoids]
        exact Nat.lt_succ_self _
      have hlookup := (h.consistent.emplace hname hoid hnext).2 oid
      rw [if_neg, hget] at hlookup
      · exact ⟨info, hlookup, rfl, rfl, rfl, rfl⟩
      · rintro rfl
        exact Nat.ne_of_lt (h.consistent.entry _ _ hget).2.2 hoid
  | refused hnew _ _ _ hr =>
      obtain ⟨_, _, _, rfl, _⟩ :=
        TableRegistry.createTable_error (h.consistent.lookup_eq_none hnew) hr
      exact ⟨info, hget, rfl, rfl, rfl, rfl⟩
  | insertTuple hget' hpos hmax hroom hr =>
      obtain ⟨l, hs⟩ := h.holds _ _ hget'
      obtain ⟨_, _, hs', _⟩ := hs.step (.insertTuple hpos hmax hroom hr)
      exact hput _ _ _ hget' hs'.fileId
  | markDelete hget' hrid hr =>
      obtain ⟨l, hs⟩ := h.holds _ _ hget'
      obtain ⟨_, _, hs', _⟩ := hs.step (.markDelete hrid hr)
      exact hput _ _ _ hget' hs'.fileId

/-- Where a frame can be had, the call fails only if no file is created. -/
theorem Sound.createTable_outcome (h : Sound s store)
    (hnew : s.registry.getTableNamed name = none)
    (hfile : LawfulFileDisk.creatable s.pool.diskManager (s.registry.tablePath name))
    (hroom : s.pool.HasRoom) (htwo : TwoUnpinned s.pool) (schema : ColumnSchema) :
    (∃ fault d r b, FileDisk.createFile s.pool.diskManager (s.registry.tablePath name) =
        (.error fault, d) ∧ s.registry.createTable s.pool name schema = (.error fault, r, b)) ∨
      ∃ info r b, s.registry.createTable s.pool name schema = (.ok info, r, b) ∧
        TwoUnpinned b ∧ b.nextPageId = s.pool.nextPageId + 1 ∧ b.frameCount = s.pool.frameCount := by
  have hname := h.consistent.lookup_eq_none hnew
  generalize hcreate : FileDisk.createFile s.pool.diskManager (s.registry.tablePath name) = answer
  obtain ⟨fault | file, d⟩ := answer
  · exact .inl ⟨fault, d, _, _, rfl, TableRegistry.createTable_thrown hname hcreate⟩
  obtain ⟨_, _, hnewfile⟩ := LawfulFileDisk.created hfile hcreate
  obtain ⟨hnot, hopened⟩ := hnewfile file rfl
  have h₁ := h.reopened hfile hcreate
  have hnone : ∀ i, store ⟨file, i⟩ = none := fun i =>
    not_not.mp fun hne => hnot (h.sharing.pool.backs.opened _ hne)
  obtain ⟨f, g, hf, hg, hne⟩ := htwo
  have hf' := h₁.sharing.pool.unpinned_iff.mp hf
  have hg' := h₁.sharing.pool.unpinned_iff.mp hg
  rcases Holds.create h₁.sharing hnone hopened hroom with ⟨m, _, hall⟩ |
    ⟨heap, b, store', p, he, hst, hs, _, hnext⟩
  · exact absurd hf' hall.not_obtainable
  obtain ⟨info, r, hmade⟩ : ∃ info r, s.registry.createTable s.pool name schema = (.ok info, r, b) :=
    TableRegistry.createTable_made hname hcreate he
  refine .inr ⟨info, r, b, hmade, ⟨f, g, ?_, ?_, hne⟩, hnext, hst.frameCount⟩
  · exact hs.sharing.pool.unpinned_iff.mpr (h₁.sharing.pool.obtainable_steady hst hf')
  · exact hs.sharing.pool.unpinned_iff.mpr (h₁.sharing.pool.obtainable_steady hst hg')

/-- The page of a new table has room. -/
theorem Sound.fitsLast_created (h : Sound s store)
    (hfile : LawfulFileDisk.creatable s.pool.diskManager (s.registry.tablePath name))
    (hroom : s.pool.HasRoom) {file : FileId} {d : δ}
    (hcreate : FileDisk.createFile s.pool.diskManager (s.registry.tablePath name) = (.ok file, d))
    {heap : TableHeap} {b : BufferPoolManager δ}
    (hheap : TableHeap.create { s.pool with diskManager := d } file = .ok (heap, b)) :
    heap.FitsLast b 1 := by
  obtain ⟨_, _, hnewfile⟩ := LawfulFileDisk.created hfile hcreate
  obtain ⟨hnot, hopened⟩ := hnewfile file rfl
  have h₁ := h.reopened hfile hcreate
  have hnone : ∀ i, store ⟨file, i⟩ = none := fun i =>
    not_not.mp fun hne => hnot (h.sharing.pool.backs.opened _ hne)
  rcases Holds.create h₁.sharing hnone hopened hroom with ⟨m, he, _⟩ |
    ⟨heap', b', store', p, he, _, hs, hslots, _⟩
  · cases he.symm.trans hheap
  cases he.symm.trans hheap
  refine (hs.stored.fitsLast_iff (by decide)).mpr ?_
  show LastFits ([] ++ [(_, p)]) 1
  rw [lastFits_concat, hslots]
  decide

omit [FileDisk δ] [LawfulFileDisk δ] in
theorem Sound.fitsLast_elsewhere (h : Sound s store) (hget : s.registry.getTable oid = some info)
    {b : BufferPoolManager δ} {size : Nat} (hpages : ∀ k p, k.fileId = info.table.fileId →
      store k = some p → b.stored k = some p) (hfits : info.table.FitsLast s.pool size) :
    info.table.FitsLast b size := by
  obtain ⟨l, hs⟩ := h.holds oid info hget
  obtain ⟨pre, p, rfl⟩ := hs.chain.exists_last
  obtain ⟨q, hq, hroom⟩ := hfits
  have hp : store ⟨info.table.fileId, info.table.lastPageId⟩ = some p := hs.chain.stored.1
  have heq : q = p := Option.some.inj (hq.symm.trans (hs.sharing.pool.stored_eq hp))
  exact ⟨p, hpages _ p rfl hp, heq ▸ hroom⟩

theorem Sound.insertFits (h : Sound s store) (hr : Reachable s)
    (hget : s.registry.getTable oid = some info) (htwo : TwoUnpinned s.pool) (bytes : List UInt8)
    (hpos : 0 < bytes.length) (hmax : bytes.length ≤ SlottedPage.maxInsertSize)
    (hfits : info.table.FitsLast s.pool bytes.length) :
    ∃ (t : DatabaseState δ) (rid : RecordId) (info' : TableInfo), Reachable t ∧
      TwoUnpinned t.pool ∧ SameEntry info info' ∧
      (∀ oid', t.registry.getTable oid' =
        if oid' = oid then some info' else s.registry.getTable oid') ∧
      t.maps = Function.update s.maps oid (Function.update (s.maps oid) rid (some bytes)) ∧
      ⟨info.table.fileId, rid.pageId⟩ ∈ t.handed ∧
      ∀ oid' other size, oid' ≠ oid → s.registry.getTable oid' = some other →
        other.table.FitsLast s.pool size → other.table.FitsLast t.pool size := by
  obtain ⟨l, hs⟩ := h.holds oid info hget
  obtain ⟨hoid, _⟩ := h.consistent.entry oid info hget
  have htwo' := hs.twoObtainable_iff.mp htwo
  have hlast := (hs.stored.fitsLast_iff hmax).mp hfits
  rcases hs.insertTuple ⟨bytes, .invalid⟩ hpos hmax (.inl hfits) with
    ⟨_, hno, _⟩ | ⟨_, _, hno, _⟩ | ⟨rid, b, heap, store', l', he, hst, hs', hadds, _⟩
  · exact absurd hlast hno
  · exact absurd htwo' hno
  refine ⟨s.inserted info ⟨bytes, .invalid⟩ (some rid) b heap, rid, { info with table := heap },
    .step hr (.insertTuple hget hpos hmax (.inl hfits) he), ?_, ⟨rfl, rfl, rfl, hs'.fileId⟩,
    fun oid' => ?_, ?_, ?_, fun oid' other size hne hget' hroom => ?_⟩
  · exact hs'.twoObtainable_iff.mpr (hs.stored.twoObtainable hst htwo')
  · rw [← hoid]
    exact TableRegistry.getTable_setTable _ _ _ _
  · show Function.update s.maps info.oid (Function.update (s.maps info.oid) rid (some bytes)) = _
    rw [hoid]
  · obtain ⟨_, hplace, _⟩ := hadds.place (.inr rfl)
    refine hs'.mem_handed_iff.mpr ?_
    rw [← Pages.map_fst_contents]
    exact List.mem_map.mpr ⟨_, hplace, rfl⟩
  · refine h.fitsLast_elsewhere hget' (fun k p hk hp => ?_) hroom
    have hfile : k.fileId ≠ info.table.fileId := fun heq =>
      hne (h.files _ _ _ _ hget' hget (hk.symm.trans heq))
    exact hs.stored.insertTuple_elsewhere hpos hmax (fun hno => absurd hlast hno) he hfile hp

/-- A name that is new gets an empty table with an OID of its own, unless no file is created. -/
theorem Reachable.createTable (hr : Reachable s) (hnew : s.registry.getTableNamed name = none)
    (hfile : LawfulFileDisk.creatable s.pool.diskManager (s.registry.tablePath name))
    (hoids : s.registry.nextTableOid + 1 < word32) (hroom : s.pool.HasRoom)
    (htwo : TwoUnpinned s.pool) (schema : ColumnSchema) :
    (∃ fault d r b, FileDisk.createFile s.pool.diskManager (s.registry.tablePath name) =
        (.error fault, d) ∧ s.registry.createTable s.pool name schema = (.error fault, r, b) ∧
        Reachable { s with pool := b, registry := r } ∧ r.tables = s.registry.tables) ∨
      ∃ info r b, s.registry.createTable s.pool name schema = (.ok info, r, b) ∧
        TwoUnpinned b ∧ Reachable (s.created info r b) ∧ info.name = name ∧
        ∀ oid, r.getTable oid = if oid = info.oid then some info else s.registry.getTable oid := by
  obtain ⟨store, h⟩ := hr.sound
  have hname := h.consistent.lookup_eq_none hnew
  rcases h.createTable_outcome hnew hfile hroom htwo schema with ⟨fault, d, r, b, hcreate, he⟩ |
    ⟨info, r, b, he, htwo', _⟩
  · obtain ⟨_, _, _, hr', _⟩ := TableRegistry.createTable_error hname he
    exact .inl ⟨fault, d, r, b, hcreate, he, .step hr (.refused hnew hfile hoids hroom he),
      by rw [hr']⟩
  · obtain ⟨_, _, _, _, hn, hoid, hr'⟩ := TableRegistry.createTable_ok hname he
    have hnext : s.registry.nextTableOid < add32 s.registry.nextTableOid 1 := by
      rw [add32_of_lt hoids]
      exact Nat.lt_succ_self _
    refine .inr ⟨info, r, b, he, htwo', .step hr (.createTable hnew hfile hoids hroom he), hn, ?_⟩
    rw [hr']
    exact (h.consistent.emplace (hn ▸ hname) hoid hnext).2

/-- In every run a table keeps its name, its OID and its file, which no other table has, and is found
again by each; with two frames to be had, calls on it answer from its own map. A known name gives
its table, a new one an empty table. -/
theorem tables_are_maps (s : DatabaseState δ) (hr : Reachable s) :
    (∀ oid info, s.registry.getTable oid = some info →
      (info.oid = oid ∧ s.registry.getTableNamed info.name = some info ∧
        (∀ schema, s.registry.createTable s.pool info.name schema =
          (.ok info, s.registry, s.pool)) ∧
        (∀ oid' info', s.registry.getTable oid' = some info' → oid' ≠ oid →
          info'.table.fileId ≠ info.table.fileId ∧ info'.name ≠ info.name) ∧
        ∀ t, Step s t → ∃ info', t.registry.getTable oid = some info' ∧ SameEntry info info') ∧
      (TwoUnpinned s.pool → AnswersFrom s info (s.maps oid))) ∧
    ∀ name schema, s.registry.getTableNamed name = none →
      LawfulFileDisk.creatable s.pool.diskManager (s.registry.tablePath name) →
      s.registry.nextTableOid + 1 < word32 → s.pool.HasRoom → TwoUnpinned s.pool →
      (∃ fault d r b, FileDisk.createFile s.pool.diskManager (s.registry.tablePath name) =
          (.error fault, d) ∧ s.registry.createTable s.pool name schema = (.error fault, r, b) ∧
          Reachable { s with pool := b, registry := r } ∧ r.tables = s.registry.tables) ∨
        ∃ info r b, s.registry.createTable s.pool name schema = (.ok info, r, b) ∧
          TwoUnpinned b ∧ Reachable (s.created info r b) ∧ info.name = name ∧
          ∀ oid, r.getTable oid = if oid = info.oid then some info else s.registry.getTable oid := by
  obtain ⟨store, h⟩ := hr.sound
  refine ⟨fun oid info hget => ⟨⟨(h.consistent.entry oid info hget).1,
    h.consistent.getTableNamed hget, fun schema =>
      TableRegistry.createTable_known (h.consistent.getTableNamed hget),
    fun oid' info' hget' hne => ⟨fun hfile => hne (h.files _ _ _ _ hget' hget hfile),
      fun hname => ?_⟩, fun t hstep => h.kept hstep hget⟩, hr.answersFrom hget⟩,
    fun name schema hnew hfile hoids hroom htwo =>
      hr.createTable hnew hfile hoids hroom htwo schema⟩
  have hoid := (h.consistent.entry oid' info' hget').2.1
  rw [hname, (h.consistent.entry oid info hget).2.1] at hoid
  exact hne (Option.some.inj hoid).symm

end DatabaseState

/-! ## Two tables -/

namespace DatabaseState

/-- Databases with room for another table. -/
structure Open (s : DatabaseState Disk.DiskManager) (count : Nat)
    (paths : FileId → Option (String × Bool)) : Prop where
  reachable : Reachable s
  two : TwoUnpinned s.pool
  pages : s.pool.nextPageId = count
  frames : s.pool.frameCount = 2
  oids : s.registry.nextTableOid = count
  files : streams s.pool.diskManager = paths
  fileId : s.pool.diskManager.nextFileId = count

theorem open_zero (fs : String → File) (dbDir : Bytes) :
    Open ⟨⟨BufferPoolManager.create 2 (Disk.DiskManager.init fs), [], fun _ => 0, fun _ => False⟩,
      TableRegistry.empty dbDir, fun _ _ => none⟩ 0 fun _ => none :=
  ⟨.create 2 _ dbDir, ⟨0, 1, ⟨Nat.zero_lt_two, rfl⟩, ⟨Nat.one_lt_two, rfl⟩, Nat.zero_ne_one⟩, rfl,
    rfl, rfl, rfl, rfl⟩

theorem Open.createTable {s : DatabaseState Disk.DiskManager} {count : Nat}
    {paths : FileId → Option (String × Bool)} (h : Open s count paths)
    (hcount : count + 1 < frameLimit) {name : Bytes}
    (hnew : s.registry.getTableNamed name = none)
    (hpaths : paths count = none ∧
      ∀ g good, paths g ≠ some (pathString (s.registry.tablePath name), good))
    (schema : ColumnSchema) :
    ∃ t info, Open t (count + 1) (Function.update paths count
        (some (pathString (s.registry.tablePath name), true))) ∧ t.registry.dbDir = s.registry.dbDir ∧
      info.name = name ∧ info.table.FitsLast t.pool 1 ∧
      (∀ oid, t.registry.getTable oid =
        if oid = count then some info else s.registry.getTable oid) ∧
      ∀ oid other size, s.registry.getTable oid = some other →
        other.table.FitsLast s.pool size → other.table.FitsLast t.pool size := by
  obtain ⟨store, hs⟩ := h.reachable.sound
  have hname := hs.consistent.lookup_eq_none hnew
  have hoids : s.registry.nextTableOid + 1 < word32 := by
    rw [h.oids]
    exact Nat.lt_trans hcount (by decide)
  have hroom : s.pool.HasRoom := by
    refine ⟨?_, .inl ?_⟩
    · rw [h.pages]
      exact Nat.lt_trans (Nat.lt_of_succ_lt hcount) (by decide)
    · rw [h.frames]
      decide
  have hfile : Creatable s.pool.diskManager (s.registry.tablePath name) := by
    unfold Creatable
    rw [h.files, h.fileId]
    exact hpaths
  rcases hs.createTable_outcome hnew hfile hroom h.two schema with ⟨_, _, _, _, he, _⟩ |
    ⟨info, r, b, he, htwo, hnext, hframes⟩
  · cases he
  obtain ⟨file, d, hcreate, hheap, hn, hoid, rfl⟩ := TableRegistry.createTable_ok hname he
  have hfits := hs.fitsLast_created hfile hroom hcreate hheap
  have hopened := ((LawfulFileDisk.created hfile hcreate).2.2 file rfl).2
  have hreopened := hs.reopened hfile hcreate
  have hpages : ∀ k p, store k = some p → b.stored k = some p := fun k p hp =>
    create_elsewhere hreopened.sharing hopened hroom hheap hp
  cases hcreate
  have hsame := create_sameFiles hheap
  have hadd : add32 s.registry.nextTableOid 1 = count + 1 := by rw [add32_of_lt hoids, h.oids]
  have hlt : s.registry.nextTableOid < add32 s.registry.nextTableOid 1 := by
    rw [hadd, h.oids]
    exact Nat.lt_succ_self _
  obtain ⟨_, hget⟩ := hs.consistent.emplace (hn ▸ hname) hoid hlt
  rw [hoid, h.oids] at hget
  refine ⟨_, info, ⟨.step h.reachable (.createTable hnew hfile hoids hroom he), htwo,
    hnext.trans (by rw [h.pages]), hframes.trans h.frames, hadd, hsame.1.trans ?_,
    hsame.2.trans ?_⟩, rfl, hn, hfits, hget, fun oid other size hother hroom =>
      hs.fitsLast_elsewhere hother (fun k p _ hp => hpages k p hp) hroom⟩
  · change streams (s.pool.diskManager.createFile _).2 = _
    rw [streams_createFile, h.files, h.fileId]
  · change add32 s.pool.diskManager.nextFileId 1 = count + 1
    rw [h.fileId, add32_of_lt (by rw [← h.oids]; exact hoids)]

theorem pathString_ne {p q : Bytes}
    (h : p.map (fun b => Char.ofNat b.toNat) ≠ q.map fun b => Char.ofNat b.toNat) :
    pathString p ≠ pathString q := fun heq => h (String.ofList_injective heq)

/-- Two tables of one database, with a row each. -/
theorem tables_are_maps_two :
    ∃ (s : DatabaseState Disk.DiskManager) (people orders : TableInfo) (rid rid' : RecordId),
      s.registry.getTableNamed (ascii "people") = some people ∧
        s.registry.getTableNamed (ascii "orders") = some orders ∧
        people.table.fileId ≠ orders.table.fileId ∧ s.maps 0 rid = some [1] ∧
          s.maps 1 rid' = some [2] ∧ AnswersFrom s people (s.maps 0) ∧
          AnswersFrom s orders (s.maps 1) := by
  obtain ⟨s, people, h₁, hdir, hname₁, hfits₁, hget₁, _⟩ :=
    (open_zero (fun _ => File.empty) (ascii "db")).createTable (by decide)
      (show TableRegistry.getTableNamed _ (ascii "people") = none from rfl)
      ⟨rfl, fun _ _ h => (nomatch h)⟩ []
  have hnew : s.registry.getTableNamed (ascii "orders") = none := by
    obtain ⟨store, hs⟩ := h₁.reachable.sound
    refine hs.consistent.getTableNamed_eq_none fun oid info hget => ?_
    rw [hget₁] at hget
    split at hget
    · cases hget
      rw [hname₁]
      decide
    · cases hget
  have hpaths : ∀ g good, Function.update (fun _ : FileId => (none : Option (String × Bool))) 0
      (some (pathString ((TableRegistry.empty (ascii "db")).tablePath (ascii "people")), true)) g ≠
        some (pathString (s.registry.tablePath (ascii "orders")), good) := by
    intro g good heq
    by_cases hg : g = 0
    · rw [hg, Function.update_self] at heq
      have hpath := congrArg Prod.fst (Option.some.inj heq)
      rw [TableRegistry.tablePath, TableRegistry.tablePath, hdir] at hpath
      exact absurd hpath (pathString_ne (by decide))
    · rw [Function.update_of_ne hg] at heq
      cases heq
  obtain ⟨t, orders, h₂, _, hname₂, hfits₂, hget₂, hkept⟩ :=
    h₁.createTable (by decide) hnew ⟨rfl, hpaths⟩ []
  have hpeople : t.registry.getTable 0 = some people := (hget₂ 0).trans (hget₁ 0)
  have horders : t.registry.getTable 1 = some orders := hget₂ 1
  obtain ⟨store, hs⟩ := h₂.reachable.sound
  obtain ⟨u, rid, people', hu, hutwo, hsame₁, hget₃, hmaps₁, _, hkept'⟩ :=
    hs.insertFits h₂.reachable hpeople h₂.two [1] (by decide) (by decide)
      (hkept 0 people 1 (hget₁ 0) hfits₁)
  obtain ⟨store', hs'⟩ := hu.sound
  obtain ⟨v, rid', orders', hv, hvtwo, hsame₂, hget₄, hmaps₂, _⟩ :=
    hs'.insertFits hu ((hget₃ 1).trans horders) hutwo [2] (by decide) (by decide)
      (hkept' 1 orders 1 Nat.one_ne_zero horders hfits₂)
  have hpeople' : v.registry.getTable 0 = some people' := (hget₄ 0).trans (hget₃ 0)
  have horders' : v.registry.getTable 1 = some orders' := hget₄ 1
  have hmaps := tables_are_maps v hv
  obtain ⟨⟨_, hfound₁, _, _, _⟩, hanswers₁⟩ := hmaps.1 0 people' hpeople'
  obtain ⟨⟨_, hfound₂, _, hapart, _⟩, hanswers₂⟩ := hmaps.1 1 orders' horders'
  refine ⟨v, people', orders', rid, rid', ?_, ?_, (hapart 0 people' hpeople' Nat.zero_ne_one).1, ?_,
    ?_, hanswers₁ hvtwo, hanswers₂ hvtwo⟩
  · rw [← hname₁, ← hsame₁.1]
    exact hfound₁
  · rw [← hname₂, ← hsame₂.1]
    exact hfound₂
  · rw [hmaps₂, Function.update_of_ne Nat.zero_ne_one, hmaps₁, Function.update_self,
      Function.update_self]
  · rw [hmaps₂, Function.update_self, Function.update_self]

end DatabaseState

end TurtleDb.Catalog
