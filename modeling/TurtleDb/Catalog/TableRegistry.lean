import TurtleDb.Catalog.Catalog
import TurtleDb.Table.TableHeap

/-!
# The registry of tables

`create_table` and `get_table` of `catalog/catalog.{hpp,cpp}`, with `catalog/table_info.hpp`. The
catalog and the pool have one disk manager. A handle to a table is its entry.
-/

namespace TurtleDb.Catalog

open TurtleDb.Lib TurtleDb.Buffer TurtleDb.Table

abbrev TableOid := Nat

/-- What the catalog asks of a disk manager beside the calls of the pool. -/
class FileDisk (δ : Type) [PageDisk δ] where
  createFile : δ → Bytes → Except Fault FileId × δ

structure TableInfo where
  name : Bytes
  schema : ColumnSchema
  table : TableHeap
  oid : TableOid

structure TableRegistry where
  dbDir : Bytes
  tables : AList fun _ : TableOid => TableInfo
  tableOids : AList fun _ : Bytes => TableOid
  nextTableOid : TableOid

namespace TableRegistry

def empty (dbDir : Bytes) : TableRegistry :=
  { dbDir, tables := ∅, tableOids := ∅, nextTableOid := 0 }

/-- `db_dir_ / (table_name + ".tbl")`. -/
def tablePath (r : TableRegistry) (tableName : Bytes) : Bytes :=
  joinPath r.dbDir (tableName ++ ascii ".tbl")

/-- `emplace` on both maps, which leaves an entry that is there. -/
def emplace (r : TableRegistry) (info : TableInfo) : TableRegistry :=
  { r with
    tables := if info.oid ∈ r.tables then r.tables else r.tables.insert info.oid info
    tableOids :=
      if info.name ∈ r.tableOids then r.tableOids else r.tableOids.insert info.name info.oid }

/-- `get_table(oid)`. -/
def getTable (r : TableRegistry) (oid : TableOid) : Option TableInfo := r.tables.lookup oid

/-- `get_table(table_name)`. -/
def getTableNamed (r : TableRegistry) (tableName : Bytes) : Option TableInfo :=
  (r.tableOids.lookup tableName).bind r.getTable

/-- After a call of the heap that the handle leads to. -/
def setTable (r : TableRegistry) (info : TableInfo) (table : TableHeap) : TableRegistry :=
  { r with tables := r.tables.insert info.oid { info with table } }

variable {δ : Type} [PageDisk δ] [FileDisk δ]

/-- An exception leaves the OID taken and, if the heap was not made, the file created. The
constructor of the heap throws where the pool has no frame, and then the pool is as before. -/
def createTable (r : TableRegistry) (b : BufferPoolManager δ) (tableName : Bytes)
    (schema : ColumnSchema) : Except Fault TableInfo × TableRegistry × BufferPoolManager δ :=
  match r.tableOids.lookup tableName with
  | some oid =>
      -- "Idempotent: re-creating an existing name returns the existing entry."
      match r.tables.lookup oid with
      | some info => (.ok info, r, b)
      | none => (.error (.raised "unordered_map::at"), r, b)
  | none =>
      let oid := r.nextTableOid
      let r := { r with nextTableOid := add32 oid 1 }
      match FileDisk.createFile b.diskManager (r.tablePath tableName) with
      | (.error fault, d) => (.error fault, r, { b with diskManager := d })
      | (.ok fileId, d) =>
          let b := { b with diskManager := d }
          match TableHeap.create b fileId with
          | .error fault => (.error fault, r, b)
          | .ok (table, b) =>
              let info := { name := tableName, schema, table, oid }
              (.ok info, r.emplace info, b)

end TableRegistry

/-! ## The registry -/

/-- The two maps belong together, and the OIDs have all been given out. -/
structure TableRegistry.Consistent (r : TableRegistry) : Prop where
  entry : ∀ oid info, r.getTable oid = some info →
    info.oid = oid ∧ r.tableOids.lookup info.name = some oid ∧ oid < r.nextTableOid
  named : ∀ name oid, r.tableOids.lookup name = some oid →
    ∃ info, r.getTable oid = some info ∧ info.name = name

namespace TableRegistry

variable {r : TableRegistry} {oid : TableOid} {info : TableInfo} {h : TableHeap} {name : Bytes}

theorem getTable_setTable (r : TableRegistry) (info : TableInfo) (h : TableHeap)
    (oid : TableOid) : (r.setTable info h).getTable oid =
      if oid = info.oid then some { info with table := h } else r.getTable oid := by
  by_cases ho : oid = info.oid
  · rw [if_pos ho, ho]
    exact AList.lookup_insert _
  · rw [if_neg ho]
    exact AList.lookup_insert_ne ho

namespace Consistent

theorem empty (dbDir : Bytes) : (TableRegistry.empty dbDir).Consistent :=
  ⟨fun _ _ hget => (nomatch hget), fun _ _ hname => (nomatch hname)⟩

theorem setTable (hc : r.Consistent) (hget : r.getTable oid = some info) (h : TableHeap) :
    (r.setTable info h).Consistent := by
  obtain ⟨rfl, hname, hlt⟩ := hc.entry oid info hget
  refine ⟨fun oid' info' hget' => ?_, fun name oid' hname' => ?_⟩
  · rw [getTable_setTable] at hget'
    split at hget'
    · cases hget'
      exact ⟨Eq.symm ‹_›, by rw [‹oid' = _›]; exact hname, by rw [‹oid' = _›]; exact hlt⟩
    · exact hc.entry oid' info' hget'
  · obtain ⟨info', hget', hn⟩ := hc.named name oid' hname'
    rw [getTable_setTable]
    by_cases ho : oid' = info.oid
    · rw [ho, hget] at hget'
      cases hget'
      exact ⟨_, if_pos ho, hn⟩
    · exact ⟨info', (if_neg ho).trans hget', hn⟩

theorem getTableNamed (hc : r.Consistent) (hget : r.getTable oid = some info) :
    r.getTableNamed info.name = some info := by
  rw [TableRegistry.getTableNamed, (hc.entry oid info hget).2.1]
  exact hget

theorem getTableNamed_eq_none (hc : r.Consistent)
    (h : ∀ oid info, r.getTable oid = some info → info.name ≠ name) :
    r.getTableNamed name = none := by
  cases hlookup : r.tableOids.lookup name with
  | none => rw [TableRegistry.getTableNamed, hlookup, Option.bind_none]
  | some oid =>
      obtain ⟨info, hget, hname⟩ := hc.named name oid hlookup
      exact absurd hname (h oid info hget)

theorem lookup_eq_none (hc : r.Consistent) (hnew : r.getTableNamed name = none) :
    r.tableOids.lookup name = none := by
  cases hname : r.tableOids.lookup name with
  | none => rfl
  | some oid =>
      obtain ⟨info, hget, _⟩ := hc.named name oid hname
      rw [TableRegistry.getTableNamed, hname] at hnew
      cases hget.symm.trans hnew

/-- A new table takes the next OID. -/
theorem emplace (hc : r.Consistent) (hname : r.tableOids.lookup info.name = none)
    (hoid : info.oid = r.nextTableOid) {n : TableOid} (hn : r.nextTableOid < n) :
    ({ r with nextTableOid := n }.emplace info).Consistent ∧
      ∀ oid, ({ r with nextTableOid := n }.emplace info).getTable oid =
        if oid = info.oid then some info else r.getTable oid := by
  have hfresh : info.oid ∉ r.tables := by
    intro hmem
    obtain ⟨info', hget⟩ := Option.isSome_iff_exists.mp (AList.lookup_isSome.mpr hmem)
    exact Nat.ne_of_lt (hc.entry _ _ hget).2.2 hoid
  have hget : ∀ oid, ({ r with nextTableOid := n }.emplace info).getTable oid =
      if oid = info.oid then some info else r.getTable oid := by
    intro oid
    rw [getTable, TableRegistry.emplace, if_neg hfresh]
    by_cases ho : oid = info.oid
    · rw [if_pos ho, ho]
      exact AList.lookup_insert _
    · rw [if_neg ho]
      exact AList.lookup_insert_ne ho
  have hlookup : ∀ name, ({ r with nextTableOid := n }.emplace info).tableOids.lookup name =
      if name = info.name then some info.oid else r.tableOids.lookup name := by
    intro name
    rw [TableRegistry.emplace, if_neg (AList.lookup_eq_none.mp hname)]
    by_cases hsame : name = info.name
    · rw [if_pos hsame, hsame]
      exact AList.lookup_insert _
    · rw [if_neg hsame]
      exact AList.lookup_insert_ne hsame
  refine ⟨⟨fun oid info' hget' => ?_, fun name oid hname' => ?_⟩, hget⟩
  · rw [hlookup]
    rw [hget] at hget'
    split at hget'
    · cases hget'
      exact ⟨Eq.symm ‹_›, by rw [if_pos rfl, ‹oid = _›], by rw [‹oid = _›, hoid]; exact hn⟩
    · obtain ⟨ho, hn', hlt⟩ := hc.entry oid info' hget'
      refine ⟨ho, ?_, Nat.lt_trans hlt hn⟩
      rw [if_neg, hn']
      rintro hsame
      rw [hsame, hname] at hn'
      cases hn'
  · rw [hlookup] at hname'
    split at hname'
    · cases hname'
      exact ⟨info, (hget _).trans (if_pos rfl), Eq.symm ‹_›⟩
    · obtain ⟨info', hget', hn'⟩ := hc.named name oid hname'
      refine ⟨info', (hget oid).trans ((if_neg ?_).trans hget'), hn'⟩
      rintro rfl
      exact Nat.ne_of_lt (hc.entry _ _ hget').2.2 hoid

end Consistent

end TableRegistry

/-! ## The outcomes of `create_table` -/

namespace TableRegistry

variable {δ : Type} [PageDisk δ] [FileDisk δ] {r r' : TableRegistry} {b b' : BufferPoolManager δ}
  {name : Bytes} {schema : ColumnSchema} {info : TableInfo}

theorem createTable_known (hname : r.getTableNamed name = some info) :
    r.createTable b name schema = (.ok info, r, b) := by
  obtain ⟨oid, hoid, hget⟩ := Option.bind_eq_some_iff.mp hname
  rw [getTable] at hget
  simp only [createTable, hoid, hget]

theorem createTable_ok (hname : r.tableOids.lookup name = none)
    (hr : r.createTable b name schema = (.ok info, r', b')) :
    ∃ file d, FileDisk.createFile b.diskManager (r.tablePath name) = (.ok file, d) ∧
      TableHeap.create { b with diskManager := d } file = .ok (info.table, b') ∧
      info.name = name ∧ info.oid = r.nextTableOid ∧
      r' = { r with nextTableOid := add32 r.nextTableOid 1 }.emplace info := by
  simp only [createTable, hname] at hr
  split at hr
  · cases hr
  · split at hr
    · cases hr
    · cases hr
      exact ⟨_, _, ‹_›, ‹_›, rfl, rfl, rfl⟩

theorem createTable_error (hname : r.tableOids.lookup name = none) {fault : Fault}
    (hr : r.createTable b name schema = (.error fault, r', b')) :
    ∃ answer d, FileDisk.createFile b.diskManager (r.tablePath name) = (answer, d) ∧
      r' = { r with nextTableOid := add32 r.nextTableOid 1 } ∧ b' = { b with diskManager := d } := by
  simp only [createTable, hname] at hr
  split at hr
  · cases hr
    exact ⟨_, _, ‹_›, rfl, rfl⟩
  · split at hr
    · cases hr
      exact ⟨_, _, ‹_›, rfl, rfl⟩
    · cases hr

theorem createTable_thrown (hname : r.tableOids.lookup name = none) {fault : Fault} {d : δ}
    (hcreate : FileDisk.createFile b.diskManager (r.tablePath name) = (.error fault, d)) :
    r.createTable b name schema = (.error fault, { r with nextTableOid := add32 r.nextTableOid 1 },
      { b with diskManager := d }) := by
  unfold createTable
  rw [hname]
  dsimp only [tablePath] at hcreate ⊢
  rw [hcreate]

theorem createTable_made (hname : r.tableOids.lookup name = none) {file : FileId} {d : δ}
    (hcreate : FileDisk.createFile b.diskManager (r.tablePath name) = (.ok file, d))
    {table : TableHeap} (hheap : TableHeap.create { b with diskManager := d } file = .ok (table, b')) :
    ∃ info r', r.createTable b name schema = (.ok info, r', b') := by
  unfold createTable
  rw [hname]
  dsimp only [tablePath] at hcreate ⊢
  rw [hcreate]
  dsimp only
  rw [hheap]
  exact ⟨_, _, rfl⟩

end TableRegistry

end TurtleDb.Catalog
