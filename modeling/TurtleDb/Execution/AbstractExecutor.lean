import TurtleDb.Lib.BatchStream
import TurtleDb.Table.Tuple

/-!
# Executors

`execution/executors/abstract_executor.hpp`. The two output vectors of `next` are one list of rows,
`none` is `false`, and the state `σ` is the executor's after its `init`.
-/

namespace TurtleDb.Execution

open TurtleDb.Lib TurtleDb.Table TurtleDb.Datatype

abbrev Row := Tuple × RecordId

/-- `next`, with the batch size it is called with. -/
abbrev AbstractExecutor (σ : Type) := BatchSource Fault σ Row

/-- `out` is the tuple of `schema` with the values that the expressions have on `tuple`. -/
def Builds (schema : ColumnSchema) (expressions : List (Tuple → Except Fault Value))
    (tuple out : Tuple) : Prop :=
  ∃ values, expressions.mapM (fun expr => expr tuple) = .ok values ∧
    Tuple.make schema values = .ok out

end TurtleDb.Execution
