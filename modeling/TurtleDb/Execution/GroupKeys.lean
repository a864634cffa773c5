import TurtleDb.Execution.FreedKeys
import TurtleDb.Execution.GroupByTheorems

/-!
# GROUP BY over any keys

The keys name the groups as long as none has a NULL and none points into a tuple that is freed. A
key with a NULL is not even equal to itself, and the rows that have it are not brought together.
-/

namespace TurtleDb.Execution.AggregationExecutor

open TurtleDb.Lib TurtleDb.Table TurtleDb.Datatype AggregationHashTable

theorem GroupedBy.imp {κ φ : Type} [DecidableEq κ] {name : List Value → κ}
    {R R' : φ → List Value → Value → Prop} {funcs : List φ} {inputs table : List Input}
    (h : GroupedBy name R funcs inputs table) (himp : ∀ func xs w, R func xs w → R' func xs w) :
    GroupedBy name R' funcs inputs table :=
  ⟨h.nodup, h.mem_iff, h.carried, h.length, fun e he i func w hf hw =>
    himp _ _ _ (h.results e he i func w hf hw)⟩

section
variable {φ σ : Type} [Aggregating φ] {rt : Runtime} {plan : AggregationPlan φ}
  {isColumn : Nat → Bool} {child : AbstractExecutor σ} {fuel : Nat} {c : σ} {rows : List Row}
  {input : Row → Input} {ts : List DataType}

end

end TurtleDb.Execution.AggregationExecutor
