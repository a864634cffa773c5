import TurtleDb.Execution.Projection
import TurtleDb.Execution.Pushdown
import TurtleDb.Execution.Sort

/-!
# Pipelines

A `Values` or a sequential scan with filters, projections and sorts over it, as one executor. The
state of a pipeline has the members of all its executors; the pool stands with the lowest of them.
-/

namespace TurtleDb.Execution

open TurtleDb.Lib TurtleDb.Buffer TurtleDb.Table TurtleDb.Datatype

/-- `execution/plans/values_plan.hpp`: the columns of the output, and for each row what its
expressions evaluate to without a tuple. -/
structure ValuesPlanNode where
  outputSchema : ColumnSchema
  values : List (List (Except Fault Value))

/-! ## `execution/executors/value_executor.cpp` -/

namespace ValuesExecutor

variable (plan : ValuesPlanNode)

/-- The row of one list of expressions. -/
def row (rowExpr : List (Except Fault Value)) : Except Fault Row := do
  let values ← rowExpr.mapM id
  let tuple ← Tuple.make plan.outputSchema values
  return (tuple, .invalid)

/-- The loop of `next`, with what is left of the batch size. -/
def fill : Nat → Nat → Except Fault (List Row × Nat)
  | 0, cursor => .ok ([], cursor)
  | left + 1, cursor =>
      match plan.values[cursor]? with
      | none => .ok ([], cursor)
      | some rowExpr => do
          let r ← row plan rowExpr
          let (rows, cursor) ← fill left (cursor + 1)
          return (r :: rows, cursor)

/-- The state is `cursor_`. -/
def next : AbstractExecutor Nat := fun cursor batchSize => do
  let (batch, cursor) ← fill plan batchSize cursor
  return (if batch.isEmpty then none else some batch, cursor)

end ValuesExecutor

/-! ## Pipelines -/

inductive Plan where
  | values (plan : ValuesPlanNode)
  | seqScan (plan : SeqScanPlanNode)
  | filter (predicate : Option (Tuple → Except Fault Value)) (child : Plan)
  | projection (plan : ProjectionPlanNode) (child : Plan)
  | sort (orderBys : List OrderBy) (child : Plan)

namespace Plan

variable {δ : Type}

/-- A scan has no iterator before its first `init`. -/
def State (δ : Type) : Plan → Type
  | .values _ => BufferPoolManager δ × Nat
  | .seqScan _ => BufferPoolManager δ × Option SeqScanExecutor
  | .filter _ child => FilterExecutor.State (State δ child)
  | .projection _ child => ProjectionExecutor.State (State δ child)
  | .sort _ child => State δ child × SortExecutor.State

/-- The constructors. -/
def construct (b : BufferPoolManager δ) : (p : Plan) → State δ p
  | .values _ => (b, 0)
  | .seqScan _ => (b, none)
  | .filter _ child => FilterExecutor.start (construct b child)
  | .projection _ child => FilterExecutor.start (construct b child)
  | .sort _ child => (construct b child, ⟨[], 0⟩)

def pool : (p : Plan) → State δ p → BufferPoolManager δ
  | .values _, (b, _) => b
  | .seqScan _, (b, _) => b
  | .filter _ child, s => pool child s.child
  | .projection _ child, s => pool child s.child
  | .sort _ child, (c, _) => pool child c

variable [PageDisk δ] (catalog : Nat → Option TableHeap) (sort : Sorter Fault SortEntry)
  (fuel : Nat)

/-- `next`. A scan without an iterator dereferences a null pointer. -/
def next : (p : Plan) → AbstractExecutor (State δ p)
  | .values plan => beside (ValuesExecutor.next plan)
  | .seqScan plan => fun (b, e) batchSize =>
      match e with
      | none => .error .outOfBounds
      | some e => do
          let (batch, b, e) ← plan.next fuel (b, e) batchSize
          return (batch, (b, some e))
  | .filter predicate child => FilterExecutor.next predicate (next child) fuel
  | .projection plan child => ProjectionExecutor.next plan (next child)
  | .sort _ _ => beside SortExecutor.next

/-- `init`. A filter and a projection keep what they have of their child's last batch. -/
def init : (p : Plan) → State δ p → Except Fault (State δ p)
  | .values _, (b, _) => .ok (b, 0)
  | .seqScan plan, (b, _) => do
      let (e, b) ← plan.init fuel (catalog plan.tableOid) b
      return (b, some e)
  | .filter _ child, s => do
      let c ← init child s.child
      return { s with child := c }
  | .projection _ child, s => do
      let c ← init child s.child
      return { s with child := c }
  | .sort orderBys child, (c, _) => do
      let c ← init child c
      let (entries, c) ← SortExecutor.collect (next fuel child) orderBys fuel c []
      let sorted ← sort (SortComparator.apply orderBys) entries
      return (c, ⟨sorted, 0⟩)

/-- The pipelines between their calls. -/
inductive Reached (p : Plan) : State δ p → Prop where
  | construct (b : BufferPoolManager δ) : Reached p (construct b p)
  | init {fuel s s'} (h : Reached p s) (hr : init catalog sort fuel p s = .ok s') : Reached p s'
  | next {fuel s batchSize batch s'} (h : Reached p s) (hsize : 1 ≤ batchSize)
      (hr : next fuel p s batchSize = .ok (batch, s')) : Reached p s'

/-- After `init`, draining the pipeline gives `out`. -/
def Drains (p : Plan) (s : State δ p) (size : Nat → Nat) (out : List Row) : Prop :=
  ∃ fuel s', init catalog sort fuel p s = .ok s' ∧ Yields (next fuel p) size s' out

end Plan

end TurtleDb.Execution
