import TurtleDb.Execution.GroupBy

/-!
# Keys of freed tuples

The `VARCHAR` of a column points into the tuple, and so does its copy in the hash table. The tuples
of a batch are freed by the next call of the child, and those of the last one by the end of `init`:
from then on the table reads whatever the memory has. A constant is copied with its characters.
-/

namespace TurtleDb.Execution.AggregationExecutor

open TurtleDb.Lib TurtleDb.Table TurtleDb.Datatype AggregationHashTable

/-- A `VARCHAR` after its characters were freed: what is read in their place. -/
def freedValue (memory : List UInt8 → Nat → UInt8) (v : Value) : Value :=
  if v.dataType = .varchar then { v with varlen := v.varlen.mapIdx fun i _ => memory v.varlen i }
  else v

section
variable {σ φ : Type} [Aggregating φ] (rt : Runtime) (plan : AggregationPlan φ)
  (isColumn : Nat → Bool) (memory : List UInt8 → Nat → UInt8) (child : AbstractExecutor σ)

end

variable {isColumn : Nat → Bool} {memory : List UInt8 → Nat → UInt8} {ts : List DataType}
  {key : List Value} {v : Value}

/-! ## One key -/

@[simp] theorem isNull_freedValue : (freedValue memory v).isNull = v.isNull := by
  unfold freedValue
  split <;> rfl

section
variable {rt : Runtime} {φ : Type} [Aggregating φ] {funcs : List φ}
  {entries entries' : List Entry} {Q : List Value → Prop}

variable {plan : AggregationPlan φ} {rows : List Row} {input : Row → Input}

variable {σ : Type} {child : AbstractExecutor σ} {fuel : Nat} {c c' : σ}

end

end TurtleDb.Execution.AggregationExecutor
