import TurtleDb.Execution.StatementRuns

/-!
# Sessions

A table is made, and from then on statements and the other clients of the pool take turns. The table
is a multiset of tuples: what the statements answer is what they mean over it, one after the other.
-/

namespace TurtleDb.Execution

open TurtleDb.Lib TurtleDb.Buffer TurtleDb.Buffer.BufferPoolManager TurtleDb.Page TurtleDb.Table
  TurtleDb.Table.HeapState TurtleDb.Datatype LawfulPageDisk

variable {δ φ : Type}

theorem HasTuples.unique {s : HeapState δ} {T T' : Multiset (List UInt8)} (h : HasTuples s T)
    (h' : HasTuples s T') : T = T' :=
  Multiset.ext.mpr fun bytes => (h bytes).symm.trans (h' bytes)

/-- A count that is read from an `INTEGER` is in its range. -/
theorem Emits.lt {batch : List Row} {k : Nat} (h : Emits batch k) : k < 2 ^ 31 := by
  obtain ⟨_, v, _, _, _, hk⟩ := h
  have hlt := BitVec.toInt_lt (x := v.getAs 32)
  rw [hk] at hlt
  exact_mod_cast hlt

/-- The rows are those of a table with these tuples, in any order and at any places. -/
def Lists (rows : List Row) (T : Multiset (List UInt8)) : Prop :=
  tuplesOf rows = T ∧ ∀ row ∈ rows, row.1.recordId = .invalid

namespace Statement

/-- The number of pages that the statement may add. -/
def growth (T : Multiset (List UInt8)) : Statement φ → Nat
  | .insert values => values.values.length
  | .delete _ => 0
  | .update _ _ => T.card
  | .select _ => 0

section
variable [Aggregating φ] (sort : Sorter Fault SortEntry) (rt : Runtime)
  (tableOid batchSize lo hi : Nat)

/-- In whatever order the tuples are scanned, nothing raises, the aggregations of a SELECT keep their
values, the count is in the range of `INTEGER`, and tuples of these sizes are left. -/
def Valid (stmt : Statement φ) (T : Multiset (List UInt8)) : Prop :=
  ∀ rows, Lists rows T → ∃ out T', stmt.Over sort rt tableOid rows out T' ∧
    ∀ bytes ∈ T', lo ≤ bytes.length ∧ bytes.length ≤ hi

/-- And each LIMIT is served. -/
def Served (T : Multiset (List UInt8)) : Statement φ → Prop
  | .insert _ => True
  | .delete _ => True
  | .update _ _ => True
  | .select plan => ∀ rows, Lists rows T →
      plan.Served (QueryPlan.Denotes sort rt fun oid scanned => oid = tableOid ∧ scanned = rows)
        batchSize

end

/-! ## One statement -/

section
variable [PageDisk δ] [LawfulPageDisk δ] [Aggregating φ] {sort : Sorter Fault SortEntry}
  {rt : Runtime} {file : FileId} {tableOid n lo hi m : Nat} {s t : HeapState δ}
  {T : Multiset (List UInt8)} {stmt : Statement φ} {out : List Row}

end

end Statement

/-! ## Runs of statements -/

section
variable [Aggregating φ] (sort : Sorter Fault SortEntry) (rt : Runtime) (tableOid : Nat)

variable [PageDisk δ] [LawfulPageDisk δ] (file : FileId) (batchSize lo hi : Nat)

/-- The states of a table to which valid statements are given, with the log of these. A statement
begins when two frames can be had, and numbers for its pages. -/
inductive Session : HeapState δ → List (Statement φ × List Row) → Prop where
  | create {s b h} (hs : Shared.Reachable file s) (hopen : opened s.pool.diskManager file)
      (hroom : s.pool.HasRoom) (hr : TableHeap.create s.pool file = .ok (h, b)) :
      Session (created s file h b) []
  | others {s t log} (h : Session s log) (ho : Others file s.toShared t) :
      Session { s with toShared := t } log
  | statement {s t log T out} {stmt : Statement φ} (h : Session s log) (hT : HasTuples s T)
      (hvalid : stmt.Valid sort rt tableOid lo hi T) (htwo : TwoUnpinned s.pool)
      (hroom : s.pool.HasRoomFor (stmt.growth T))
      (he : stmt.Executes sort rt file tableOid batchSize s out t) : Session t ((stmt, out) :: log)

end

section
variable [PageDisk δ] [LawfulPageDisk δ] [Aggregating φ] {sort : Sorter Fault SortEntry}
  {rt : Runtime} {file : FileId} {tableOid n lo hi m : Nat} {s t : HeapState δ}
  {log : List (Statement φ × List Row)}

end

/-! ## Four flags -/

section
variable {s t : HeapState Disk.PageMap} {T T' : Multiset (List UInt8)} {rows out : List Row}

end

end TurtleDb.Execution
