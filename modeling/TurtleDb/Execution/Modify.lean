import TurtleDb.Execution.AbstractExecutor
import TurtleDb.Datatype.Value

/-!
# INSERT, DELETE and UPDATE

`execution/executors/{insert,delete,update}_executor.cpp`, over any child and any heap. Child and
heap share the state `ω`, which has the pool in it. The states are those after `init`.
-/

namespace TurtleDb.Execution

open TurtleDb.Lib TurtleDb.Table TurtleDb.Datatype

/-- The calls on the heap of the table. -/
structure HeapCalls (ω : Type) where
  insertTuple : ω → Tuple → Except Fault (Option RecordId × ω)
  markDelete : ω → RecordId → Except Fault (Bool × ω)

/-- `count_tuple`: the count as `int32_t`. -/
def countTuple {w : Nat} (outputSchema : ColumnSchema) (count : BitVec w) : Except Fault Tuple :=
  Tuple.make outputSchema [Value.ofInt32 .integer (count.setWidth 32)]

variable {ω : Type}

/-! ## Insert and delete

Both make one call for each row of the child, and count the rows. -/

namespace CountingExecutor

/-- `total_rows_inserted_` or `total_rows_deleted_`, and `has_emitted_count_`. -/
structure State (ω : Type) where
  world : ω
  totalRows : BitVec 64
  hasEmittedCount : Bool

def start (w : ω) : State ω := { world := w, totalRows := 0, hasEmittedCount := false }

variable (call : ω → Row → Except Fault (Bool × ω))

/-- The loop over a batch. The answers are not looked at. -/
def callRows : List Row → ω → BitVec 64 → Except Fault (ω × BitVec 64)
  | [], w, total => .ok (w, total)
  | row :: rows, w, total => do
      let (_, w) ← call w row
      callRows rows w (total + 1)

def drain (child : AbstractExecutor ω) (batchSize : Nat) :
    Nat → ω → BitVec 64 → Except Fault (ω × BitVec 64)
  | 0, _, _ => .error .outOfFuel
  | fuel + 1, w, total => do
      let (batch, w) ← child w batchSize
      match batch with
      | none => return (w, total)
      | some rows => do
          let (w, total) ← callRows call rows w total
          drain child batchSize fuel w total

def next (outputSchema : ColumnSchema) (child : AbstractExecutor ω) (fuel : Nat) :
    AbstractExecutor (State ω) := fun s batchSize =>
  if s.hasEmittedCount then .ok (none, s)
  else do
    let (world, totalRows) ← drain call child batchSize fuel s.world s.totalRows
    let tuple ← countTuple outputSchema totalRows
    return (some [(tuple, .invalid)], { world, totalRows, hasEmittedCount := true })

end CountingExecutor

/-- `insert_tuple`, and whether it answers `true`. -/
def HeapCalls.insertRow (heap : HeapCalls ω) (w : ω) (row : Row) : Except Fault (Bool × ω) := do
  let (rid, w) ← heap.insertTuple w row.1
  return (rid.isSome, w)

def HeapCalls.deleteRow (heap : HeapCalls ω) (w : ω) (row : Row) : Except Fault (Bool × ω) :=
  heap.markDelete w row.2

def InsertExecutor.next (heap : HeapCalls ω) (outputSchema : ColumnSchema)
    (child : AbstractExecutor ω) (fuel : Nat) : AbstractExecutor (CountingExecutor.State ω) :=
  CountingExecutor.next heap.insertRow outputSchema child fuel

def DeleteExecutor.next (heap : HeapCalls ω) (outputSchema : ColumnSchema)
    (child : AbstractExecutor ω) (fuel : Nat) : AbstractExecutor (CountingExecutor.State ω) :=
  CountingExecutor.next heap.deleteRow outputSchema child fuel

/-! ## Update -/

/-- The schema is that of the table, which `table_info_` has. -/
structure UpdatePlanNode where
  outputSchema : ColumnSchema
  schema : ColumnSchema
  targetExpressions : List (Tuple → Except Fault Value)

namespace UpdateExecutor

structure State (ω : Type) where
  world : ω
  executed : Bool

def start (w : ω) : State ω := { world := w, executed := false }

/-- The loop that fills `all_tuples` and `all_rids`. -/
def collect (child : AbstractExecutor ω) (batchSize : Nat) :
    Nat → ω → List Row → Except Fault (List Row × ω)
  | 0, _, _ => .error .outOfFuel
  | fuel + 1, w, all => do
      let (chunk, w) ← child w batchSize
      match chunk with
      | none => return (all, w)
      | some rows => collect child batchSize fuel w (all ++ rows)

variable (plan : UpdatePlanNode) (heap : HeapCalls ω)

def updatedTuple (oldTuple : Tuple) : Except Fault Tuple := do
  let newValues ← plan.targetExpressions.mapM fun expr => expr oldTuple
  Tuple.make plan.schema newValues

def updateRows : List Row → ω → BitVec 32 → Except Fault (ω × BitVec 32)
  | [], w, updatedCount => .ok (w, updatedCount)
  | (oldTuple, oldRid) :: rows, w, updatedCount => do
      let tuple ← updatedTuple plan oldTuple
      let (deleted, w) ← heap.markDelete w oldRid
      if deleted then
        let (newRid, w) ← heap.insertTuple w tuple
        updateRows rows w (if newRid.isSome then updatedCount + 1 else updatedCount)
      else updateRows rows w updatedCount

def next (child : AbstractExecutor ω) (fuel : Nat) : AbstractExecutor (State ω) :=
  fun s batchSize =>
    if s.executed then .ok (none, s)
    else do
      let (all, w) ← collect child batchSize fuel s.world []
      let (w, updatedCount) ← updateRows plan heap all w 0
      let tuple ← countTuple plan.outputSchema updatedCount
      return (some [(tuple, .invalid)], { world := w, executed := true })

end UpdateExecutor

end TurtleDb.Execution
