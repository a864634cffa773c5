import TurtleDb.Execution.Effects
import TurtleDb.Execution.InsertSelect
import TurtleDb.Execution.Meanings
import TurtleDb.Execution.MoreFuel
import TurtleDb.Table.Ready

/-!
# Statements

The pipelines of `main.cpp` over one table, each with any plan of its kind: `run_insert`,
`run_delete`, `run_update`, and `run_query`, `run_sort` and `run_aggregation`. What a statement
answers and leaves is what it means over the rows of the table.
-/

namespace TurtleDb.Execution

open TurtleDb.Lib TurtleDb.Buffer TurtleDb.Buffer.BufferPoolManager TurtleDb.Page TurtleDb.Table
  TurtleDb.Table.HeapState TurtleDb.Datatype

variable {δ φ σ : Type}

/-- `print_rows`, and the loops of the other pipelines: `next` until it answers `false`. -/
def printRows (exec : AbstractExecutor σ) (batchSize fuel : Nat) (s : σ) :
    Except Fault (List Row × σ) :=
  foldBatches .outOfFuel batchSize (fun rows batch => .ok (rows ++ batch)) exec fuel s []

/-- The child of a `DELETE` or `UPDATE`: the scan of the table, or a filter over it. -/
inductive Target where
  | scan
  | filter (predicate : Option (Tuple → Except Fault Value))

inductive Statement (φ : Type) where
  | insert (values : ValuesPlanNode)
  | delete (target : Target)
  | update (plan : UpdatePlanNode) (target : Target)
  | select (plan : QueryPlan φ)

namespace Target

def State : Target → Type
  | .scan => SeqScanExecutor
  | .filter _ => FilterExecutor.State SeqScanExecutor

def predicate : Target → Option (Tuple → Except Fault Value)
  | .scan => none
  | .filter predicate => predicate

variable [PageDisk δ]

/-- A new child, after its `init`. -/
def init (fuel tableOid : Nat) (s : HeapState δ) :
    (p : Target) → Except Fault (HeapState δ × p.State)
  | .scan => SeqScanExecutor.initOn fuel tableOid s
  | .filter _ => do
      let (s, e) ← SeqScanExecutor.initOn fuel tableOid s
      return (s, FilterExecutor.start e)

def next (fuel : Nat) : (p : Target) → AbstractExecutor (HeapState δ × p.State)
  | .scan => SeqScanExecutor.nextOn fuel
  | .filter predicate =>
      FilterExecutor.nextOn predicate (SeqScanExecutor.nextOn fuel) fuel

end Target

/-- The table has these tuples, each as often. -/
def HasTuples (s : HeapState δ) (T : Multiset (List UInt8)) : Prop :=
  ∀ bytes, s.copies bytes = T.count bytes

/-- The tuples of rows, in no order. -/
def tuplesOf (rows : List Row) : Multiset (List UInt8) := rows.map fun row => row.1.data

namespace Statement

/-- The catalog, as far as the statements look at it. -/
def oneTable (s : HeapState δ) (tableOid oid : Nat) : Option TableHeap :=
  if oid = tableOid then some s.heap else none

section
variable [PageDisk δ] [Aggregating φ] (sort : Sorter Fault SortEntry) (rt : Runtime) (file : FileId)
  (tableOid batchSize fuel : Nat)

/-- The pipeline is built, its `init` is called, and its rows are read. -/
def run (s : HeapState δ) : Statement φ → Except Fault (List Row × HeapState δ)
  | .insert values => do
      let exec := InsertExecutor.next (heapCalls Nat file) countSchema
        (beside (ValuesExecutor.next values)) fuel
      let (rows, st) ← printRows exec batchSize fuel (CountingExecutor.start (s, 0))
      return (rows, st.world.1)
  | .delete target => do
      let w ← target.init fuel tableOid s
      let exec := DeleteExecutor.next (heapCalls target.State file) countSchema
        (target.next fuel) fuel
      let (rows, st) ← printRows exec batchSize fuel (CountingExecutor.start w)
      return (rows, st.world.1)
  | .update plan target => do
      let w ← target.init fuel tableOid s
      let exec := UpdateExecutor.next plan (heapCalls target.State file) (target.next fuel) fuel
      let (rows, st) ← printRows exec batchSize fuel (UpdateExecutor.start w)
      return (rows, st.world.1)
  | .select plan => do
      let st ← QueryPlan.init (oneTable s tableOid) sort rt fuel plan
        (QueryPlan.construct s.pool plan)
      let (rows, st) ← printRows (QueryPlan.next fuel plan) batchSize fuel st
      return (rows, { s with pool := QueryPlan.poolOf plan st })

/-- The statement ends with these rows. -/
def Executes (stmt : Statement φ) (s : HeapState δ) (out : List Row) (t : HeapState δ) : Prop :=
  ∃ fuel, stmt.run sort rt file tableOid batchSize fuel s = .ok (out, t)

end

/-! ## What a statement means -/

variable [Aggregating φ] (sort : Sorter Fault SortEntry) (rt : Runtime) (tableOid : Nat)

/-- Over a table with these rows in the order of a scan, if nothing raises: what is answered, and the
tuples of the table afterwards. -/
inductive Over (rows : List Row) : Statement φ → List Row → Multiset (List UInt8) → Prop where
  | insert {values : ValuesPlanNode} {new batch}
      (hnew : List.Forall₂ (ValuesExecutor.Makes values) values.values new)
      (hbatch : Emits batch new.length) :
      Over rows (.insert values) batch (tuplesOf rows + tuplesOf new)
  | delete {target : Target} {keep batch}
      (hkeep : FilterExecutor.Selects target.predicate keep rows)
      (hbatch : Emits batch (rows.filter keep).length) :
      Over rows (.delete target) batch (tuplesOf (rows.filter fun row => !keep row))
  | update {plan : UpdatePlanNode} {target : Target} {keep new batch}
      (hschema : plan.outputSchema = countSchema)
      (hkeep : FilterExecutor.Selects target.predicate keep rows)
      (hnew : List.Forall₂
        (fun row tuple => Builds plan.schema plan.targetExpressions row.1 tuple)
        (rows.filter keep) new)
      (hbatch : Emits batch (rows.filter keep).length) :
      Over rows (.update plan target) batch
        (tuplesOf (rows.filter fun row => !keep row) + new.map Tuple.data)
  | select {plan : QueryPlan φ} {out}
      (hsafe : plan.Safe sort rt fun oid scanned => oid = tableOid ∧ scanned = rows)
      (hout : plan.Denotes sort rt (fun oid scanned => oid = tableOid ∧ scanned = rows) out) :
      Over rows (.select plan) out (tuplesOf rows)

end Statement

end TurtleDb.Execution
