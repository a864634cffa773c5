import TurtleDb.Execution.GroupKeys
import TurtleDb.Execution.QueryPlan
import TurtleDb.Execution.Ungrouped

/-!
# What a plan means

Operations on lists of rows, one for each plan. The groups of an aggregation come in any order. Over
whatever rows its children may give, a safe plan raises nothing and keeps no pointer into a tuple
that is freed.
-/

namespace TurtleDb.Execution

open TurtleDb.Lib TurtleDb.Buffer TurtleDb.Datatype
open TurtleDb.Table hiding Entry

variable {δ φ : Type}

/-! ## Rows that are made -/

/-- A row of VALUES. -/
def ValuesExecutor.Makes (plan : ValuesPlanNode) (rowExpr : List (Except Fault Value)) (row : Row) :
    Prop :=
  ∃ values, rowExpr.mapM id = .ok values ∧ Tuple.make plan.outputSchema values = .ok row.1 ∧
    row.2 = .invalid

/-- The sort keys of a row. -/
def SortExecutor.Enters (orderBys : List OrderBy) (row : Row) (e : SortEntry) : Prop :=
  e.row = row ∧ orderBys.mapM (fun o => o.expr.evaluate row.1) = .ok e.sortKeys

namespace AggregationExecutor

open AggregateFunction AggregationHashTable

variable [Aggregating φ]

/-- The key and the arguments of a row. -/
def Takes (plan : AggregationPlan φ) (row : Row) (e : Input) : Prop :=
  plan.groupBys.mapM (fun expr => expr row.1) = .ok e.1 ∧
    plan.aggregates.mapM (fun expr => expr row.1) = .ok e.2

/-- The row of a key and its aggregates. -/
def Gives (plan : AggregationPlan φ) (e : Input) (row : Row) : Prop :=
  Tuple.make plan.outputSchema (valuesIn e) = .ok row.1 ∧ row.2 = .invalid

/-- The keys with their aggregates. With no GROUP BY and no row there is one empty key, and each
function is updated once, with no value. -/
def Tabulates (rt : Runtime) (plan : AggregationPlan φ) (inputs table : List Input) : Prop :=
  if inputs = [] ∧ plan.groupBys = [] then
    ∃ ws, table = [([], ws)] ∧ List.Forall₂ (fun func w =>
      (Aggregating.update rt func createState [none] >>= Aggregating.finalize func) = .ok w)
        plan.aggFuncs ws
  else
    GroupedBy components (fun func xs w => resultWith rt func xs = .ok w) plan.aggFuncs inputs table

/-- The keys are without NULLs, the functions have an argument each, and what the table keeps does
not point into a tuple: no key is a `VARCHAR`, and no state on the way has one. -/
structure Keeps (rt : Runtime) (plan : AggregationPlan φ) (inputs : List Input) : Prop where
  keys : ∃ ts, .varchar ∉ ts ∧ ∀ e ∈ inputs, KeyOf ts e.1 ∧ NoNull e.1
  args : plan.aggregates.length = plan.aggFuncs.length
  states : ∀ (i : Nat) func, plan.aggFuncs[i]? = some func → ∀ e ∈ inputs, ∀ xs,
    xs <+: column i (groupBy components inputs e.1) → ∀ st, accumulateWith rt func xs = .ok st →
      ∀ v, st.value = some v → v.dataType ≠ .varchar

section
variable {rt : Runtime} {plan : AggregationPlan φ} {rows : List Row} {inputs table : List Input}
  {funcs : List φ} {ws : List Value} {entries : List Entry}

end

end AggregationExecutor

/-! ## Plans -/

namespace QueryPlan

open AggregationExecutor

variable [Aggregating φ] (sort : Sorter Fault SortEntry) (rt : Runtime)
  (scanned : Nat → List Row → Prop)

/-- The rows of a plan, over tables with the rows `scanned`. -/
def Denotes : QueryPlan φ → List Row → Prop
  | .values plan, out => List.Forall₂ (ValuesExecutor.Makes plan) plan.values out
  | .seqScan plan, out => scanned plan.tableOid out
  | .filter predicate child, out => ∃ rows keep, Denotes child rows ∧
      FilterExecutor.Selects predicate keep rows ∧ out = rows.filter keep
  | .projection plan child, out => ∃ rows, Denotes child rows ∧
      List.Forall₂ (fun row row' =>
        Builds plan.outputSchema plan.expressions row.1 row'.1 ∧ row'.2 = row.2) rows out
  | .sort orderBys child, out => ∃ rows entries sorted, Denotes child rows ∧
      List.Forall₂ (SortExecutor.Enters orderBys) rows entries ∧
      sort (SortComparator.apply orderBys) entries = .ok sorted ∧
      out = sorted.map SortEntry.row
  | .limit count child, out => ∃ rows, Denotes child rows ∧ out = rows.take count
  | .aggregation plan child, out => ∃ rows inputs table, Denotes child rows ∧
      List.Forall₂ (Takes plan) rows inputs ∧ Tabulates rt plan inputs table ∧
      List.Forall₂ (Gives plan) table out

/-- Whatever rows the children may give, nothing raises, and each aggregation keeps its values. -/
def Safe : QueryPlan φ → Prop
  | .values plan => ∃ out, List.Forall₂ (ValuesExecutor.Makes plan) plan.values out
  | .seqScan plan => ∃ out, scanned plan.tableOid out
  | .filter predicate child => Safe child ∧ ∀ rows, Denotes sort rt scanned child rows →
      ∃ keep, FilterExecutor.Selects predicate keep rows
  | .projection plan child => Safe child ∧ ∀ rows, Denotes sort rt scanned child rows →
      ∀ row ∈ rows, ∃ tuple, Builds plan.outputSchema plan.expressions row.1 tuple
  | .sort orderBys child => Safe child ∧ ∀ rows, Denotes sort rt scanned child rows →
      ∃ entries sorted, List.Forall₂ (SortExecutor.Enters orderBys) rows entries ∧
        sort (SortComparator.apply orderBys) entries = .ok sorted
  | .limit _ child => Safe child
  | .aggregation plan child => Safe child ∧ ∀ rows, Denotes sort rt scanned child rows →
      ∃ inputs, List.Forall₂ (Takes plan) rows inputs ∧ Keeps rt plan inputs ∧
        (∃ table, Tabulates rt plan inputs table) ∧
        ∀ table, Tabulates rt plan inputs table → ∀ e ∈ table, ∃ row, Gives plan e row

section
variable {sort rt scanned} {n : Nat} {rows out : List Row} {plan : ProjectionPlanNode}
  {predicate : Option (Tuple → Except Fault Value)} {keep : Row → Bool}

/-! ## What the executors compute is what the plan means -/

end

section
variable {sort : Sorter Fault SortEntry} {scanned : Nat → List Row → Prop}
  {child : QueryPlan AggregateFunction} {input : Input} {w : Value} {rows : List Row} {row : Row}
  {table : List Input}

variable (sort scanned child input w)

variable {sort scanned child input w}

def two : Row := (⟨[0, 1, 2, 0, 0, 0, 0, 0, 0, 0], .invalid⟩, .invalid)

end

end QueryPlan

end TurtleDb.Execution
