import TurtleDb.Datatype.Casts
import TurtleDb.Execution.Expressions

/-!
# Arithmetic, and expressions over two rows

The rest of `execution/expressions/*.hpp`: `ArithmeticExpression`, and `evaluate_join`, which every
class implements beside `evaluate`. An expression reads a row through `tuple->value(&schema, idx)`
only, so a row is given by what that call returns. The methods of `DecimalType`, which compute with
doubles, are a parameter.
-/

namespace TurtleDb.Execution

open TurtleDb.Lib TurtleDb.Table TurtleDb.Datatype

inductive ArithmeticType where
  | addition
  | subtraction
  | multiplication
  | division
  | modulo
  | exponentiation
  | floorDivision
  deriving DecidableEq, Repr

/-- The expressions, those of `Expression` and arithmetic. `retType` is what the constructor
inferred for the node. -/
inductive ExpressionTree where
  | constantValue (value : Value)
  | columnValue (tupleIdx colIdx : Nat) (retType : DataType)
  | arithmetic (left right : ExpressionTree) (arithmeticType : ArithmeticType) (retType : DataType)
  | comparison (left right : ExpressionTree) (compType : ComparisonType)
  | logic (left right : ExpressionTree) (logicType : LogicType)

/-- `tuple->value(&schema, idx)`. -/
abbrev Reader := Nat → Except Fault Value

abbrev Operation := Value → Value → Except Fault Value

namespace ExpressionTree

def getReturnType : ExpressionTree → DataType
  | .constantValue value => value.dataType
  | .columnValue _ _ retType => retType
  | .arithmetic _ _ _ retType => retType
  | .comparison _ _ _ => .boolean
  | .logic _ _ _ => .boolean

def isNumeric : DataType → Bool
  | .tinyint | .smallint | .integer | .bigint | .decimal => true
  | .boolean | .varchar | .timestamp => false

def inferReturnType (left right : ExpressionTree) : Except Fault DataType :=
  let lt := left.getReturnType
  let rt := right.getReturnType
  if !isNumeric lt || !isNumeric rt then
    .error (.raised "ArithmeticExpression only supports numeric operands")
  else getCommonType lt rt

/-- The constructor of `ArithmeticExpression`. -/
def arithmeticExpression (left right : ExpressionTree) (arithmeticType : ArithmeticType) :
    Except Fault ExpressionTree := do
  let retType ← inferReturnType left right
  return .arithmetic left right arithmeticType retType

/-- The constructor of `LogicExpression`. -/
def logicExpression (left right : ExpressionTree) (logicType : LogicType) :
    Except Fault ExpressionTree :=
  if left.getReturnType ≠ .boolean ∨ right.getReturnType ≠ .boolean then
    .error (.raised "expect boolean from either side")
  else .ok (.logic left right logicType)

/-! ## Evaluation -/

section

variable (decimals : ArithmeticType → Operation)

/-- A method of the type classes: the type of the left value decides. -/
def dispatch (integers decimal : Operation) (noun : String) (left right : Value) :
    Except Fault Value :=
  match left.dataType with
  | .tinyint | .smallint | .integer | .bigint => integers left right
  | .decimal => decimal left right
  | .varchar => .error (.raised ("VARCHAR does not support " ++ noun ++ "."))
  | .boolean | .timestamp => .error (.raised "Not implemented")

def performComputation (arithmeticType : ArithmeticType) (left right : Value) :
    Except Fault Value :=
  let decimal := decimals arithmeticType
  match arithmeticType with
  | .addition => dispatch IntegerParentType.add decimal "addition" left right
  | .subtraction => dispatch IntegerParentType.subtract decimal "subtraction" left right
  | .multiplication => dispatch IntegerParentType.multiply decimal "multiplication" left right
  | .division => dispatch IntegerParentType.divide decimal "division" left right
  | .modulo => dispatch IntegerParentType.modulo decimal "modulo" left right
  | .exponentiation | .floorDivision =>
      .error (.raised ("exponentiation and floor-division are not " ++
        "supported by the numeric Type layer yet"))

/-- `evaluate(tuple, schema)`. -/
def evaluate (tuple : Reader) : ExpressionTree → Except Fault Value
  | .constantValue value => .ok value
  | .columnValue _ colIdx _ => tuple colIdx
  | .arithmetic left right arithmeticType _ => do
      let lhs ← left.evaluate tuple
      let rhs ← right.evaluate tuple
      performComputation decimals arithmeticType lhs rhs
  | .comparison left right compType => do
      let lhs ← left.evaluate tuple
      let rhs ← right.evaluate tuple
      let state ← Expression.performComparison compType lhs rhs
      return getBooleanValue state
  | .logic left right logicType => do
      let lhs ← left.evaluate tuple
      let rhs ← right.evaluate tuple
      return getBooleanValue (Expression.performComputation logicType lhs rhs)

/-- `evaluate_join(left_tuple, left_schema, right_tuple, right_schema)`. -/
def evaluateJoin (leftTuple rightTuple : Reader) : ExpressionTree → Except Fault Value
  | .constantValue value => .ok value
  | .columnValue tupleIdx colIdx _ => if tupleIdx = 0 then leftTuple colIdx else rightTuple colIdx
  | .arithmetic left right arithmeticType _ => do
      let lhs ← left.evaluateJoin leftTuple rightTuple
      let rhs ← right.evaluateJoin leftTuple rightTuple
      performComputation decimals arithmeticType lhs rhs
  | .comparison left right compType => do
      let lhs ← left.evaluateJoin leftTuple rightTuple
      let rhs ← right.evaluateJoin leftTuple rightTuple
      let state ← Expression.performComparison compType lhs rhs
      return getBooleanValue state
  | .logic left right logicType => do
      let lhs ← left.evaluateJoin leftTuple rightTuple
      let rhs ← right.evaluateJoin leftTuple rightTuple
      return getBooleanValue (Expression.performComputation logicType lhs rhs)

end

end ExpressionTree

/-! ## Rows -/

/-- The values of a row, of the types its schema says. -/
structure TypedRow where
  schema : ColumnSchema
  values : List Value
  typed : values.map Value.dataType = schema.map Column.type

namespace TypedRow

/-- `Tuple::value`, the row taken as its values. -/
def value (row : TypedRow) : Reader := fun columnIdx =>
  match row.values[columnIdx]? with
  | none => .error (.terminated "Column is out of range")
  | some v => .ok v

/-- A row of the joined table: the columns of the left row before those of the right one. -/
def append (left right : TypedRow) : TypedRow where
  schema := left.schema ++ right.schema
  values := left.values ++ right.values
  typed := by rw [List.map_append, List.map_append, left.typed, right.typed]

theorem value_append_left {left : TypedRow} (right : TypedRow) {i : Nat}
    (hi : i < left.values.length) : (left.append right).value i = left.value i := by
  rw [value, value, append]
  dsimp only
  rw [List.getElem?_append_left hi]

theorem value_append_right (left right : TypedRow) (i : Nat) :
    (left.append right).value (i + left.values.length) = right.value i := by
  rw [value, value, append]
  dsimp only
  rw [List.getElem?_append_right (Nat.le_add_left _ _), Nat.add_sub_cancel]

theorem value_of_le {row : TypedRow} {i : Nat} (hi : row.values.length ≤ i) :
    row.value i = .error (.terminated "Column is out of range") := by
  rw [value, List.getElem?_eq_none hi]

theorem length_values (row : TypedRow) : row.values.length = row.schema.length := by
  have := congrArg List.length row.typed
  rwa [List.length_map, List.length_map] at this

end TypedRow

/-! ## Joins -/

namespace ExpressionTree

/-- Every column of the tree is one of the tuples `side` says. -/
def AllColumns (side : Nat → Prop) : ExpressionTree → Prop
  | .constantValue _ => True
  | .columnValue tupleIdx _ _ => side tupleIdx
  | .arithmetic left right _ _ => left.AllColumns side ∧ right.AllColumns side
  | .comparison left right _ => left.AllColumns side ∧ right.AllColumns side
  | .logic left right _ => left.AllColumns side ∧ right.AllColumns side

/-- The tree for the joined row: the columns of the right row move behind those of the left one. -/
def shiftRight (leftCount : Nat) : ExpressionTree → ExpressionTree
  | .constantValue value => .constantValue value
  | .columnValue tupleIdx colIdx retType =>
      .columnValue tupleIdx (if tupleIdx = 0 then colIdx else colIdx + leftCount) retType
  | .arithmetic left right arithmeticType retType =>
      .arithmetic (left.shiftRight leftCount) (right.shiftRight leftCount) arithmeticType retType
  | .comparison left right compType =>
      .comparison (left.shiftRight leftCount) (right.shiftRight leftCount) compType
  | .logic left right logicType =>
      .logic (left.shiftRight leftCount) (right.shiftRight leftCount) logicType

/-- No column of the left tuple has an index that is out of range there and one of the right row's
columns in the joined row. -/
def StaysLeft (leftCount rightCount : Nat) : ExpressionTree → Prop
  | .constantValue _ => True
  | .columnValue tupleIdx colIdx _ =>
      tupleIdx = 0 → colIdx < leftCount ∨ leftCount + rightCount ≤ colIdx
  | .arithmetic left right _ _ =>
      left.StaysLeft leftCount rightCount ∧ right.StaysLeft leftCount rightCount
  | .comparison left right _ =>
      left.StaysLeft leftCount rightCount ∧ right.StaysLeft leftCount rightCount
  | .logic left right _ =>
      left.StaysLeft leftCount rightCount ∧ right.StaysLeft leftCount rightCount

variable {decimals : ArithmeticType → Operation}

theorem evaluateJoin_of_left (left right : Reader) {e : ExpressionTree}
    (h : e.AllColumns (· = 0)) :
    e.evaluateJoin decimals left right = e.evaluate decimals left := by
  induction e with
  | constantValue value => rfl
  | columnValue tupleIdx colIdx retType => exact if_pos h
  | arithmetic l r arithmeticType retType ihl ihr =>
      rw [evaluateJoin, evaluate, ihl h.1, ihr h.2]
  | comparison l r compType ihl ihr => rw [evaluateJoin, evaluate, ihl h.1, ihr h.2]
  | logic l r logicType ihl ihr => rw [evaluateJoin, evaluate, ihl h.1, ihr h.2]

theorem evaluateJoin_of_right (left right : Reader) {e : ExpressionTree}
    (h : e.AllColumns (· ≠ 0)) :
    e.evaluateJoin decimals left right = e.evaluate decimals right := by
  induction e with
  | constantValue value => rfl
  | columnValue tupleIdx colIdx retType => exact if_neg h
  | arithmetic l r arithmeticType retType ihl ihr =>
      rw [evaluateJoin, evaluate, ihl h.1, ihr h.2]
  | comparison l r compType ihl ihr => rw [evaluateJoin, evaluate, ihl h.1, ihr h.2]
  | logic l r logicType ihl ihr => rw [evaluateJoin, evaluate, ihl h.1, ihr h.2]

/-- A column is the same one in the joined row. -/
theorem value_append_of_staysLeft (left right : TypedRow) {tupleIdx colIdx : Nat}
    (h : tupleIdx = 0 → colIdx < left.values.length ∨
      left.values.length + right.values.length ≤ colIdx) :
    (left.append right).value (if tupleIdx = 0 then colIdx else colIdx + left.values.length) =
      if tupleIdx = 0 then left.value colIdx else right.value colIdx := by
  by_cases ht : tupleIdx = 0
  · rw [if_pos ht, if_pos ht]
    rcases h ht with hlt | hle
    · exact TypedRow.value_append_left right hlt
    · have hlen : (left.append right).values.length ≤ colIdx := by
        rw [TypedRow.append, List.length_append]
        exact hle
      rw [TypedRow.value_of_le hlen, TypedRow.value_of_le (Nat.le_trans (Nat.le_add_right _ _) hle)]
  · rw [if_neg ht, if_neg ht]
    exact TypedRow.value_append_right left right colIdx

theorem evaluateJoin_of_staysLeft (left right : TypedRow) {e : ExpressionTree}
    (h : e.StaysLeft left.values.length right.values.length) :
    e.evaluateJoin decimals left.value right.value =
      (e.shiftRight left.values.length).evaluate decimals (left.append right).value := by
  induction e with
  | constantValue value => rfl
  | columnValue tupleIdx colIdx retType => exact (value_append_of_staysLeft left right h).symm
  | arithmetic l r arithmeticType retType ihl ihr =>
      rw [evaluateJoin, shiftRight, evaluate, ihl h.1, ihr h.2]
  | comparison l r compType ihl ihr => rw [evaluateJoin, shiftRight, evaluate, ihl h.1, ihr h.2]
  | logic l r logicType ihl ihr => rw [evaluateJoin, shiftRight, evaluate, ihl h.1, ihr h.2]

/-- Evaluating over two rows is evaluating over the one that has all columns, and over the joined
row as long as no column of the left row is out of range and becomes one of the right row. -/
theorem evaluateJoin_agrees (decimals : ArithmeticType → Operation) (e : ExpressionTree)
    (left right : TypedRow) :
    (e.AllColumns (· = 0) →
      e.evaluateJoin decimals left.value right.value = e.evaluate decimals left.value) ∧
    (e.AllColumns (· ≠ 0) →
      e.evaluateJoin decimals left.value right.value = e.evaluate decimals right.value) ∧
    (e.StaysLeft left.schema.length right.schema.length →
      e.evaluateJoin decimals left.value right.value =
        (e.shiftRight left.schema.length).evaluate decimals (left.append right).value) := by
  refine ⟨evaluateJoin_of_left _ _, evaluateJoin_of_right _ _, fun h => ?_⟩
  rw [← left.length_values, ← right.length_values] at h
  rw [← left.length_values]
  exact evaluateJoin_of_staysLeft left right h

/-- A row of one `INTEGER`. -/
def single (n : Int) : TypedRow where
  schema := [⟨"a", .integer, 4⟩]
  values := [Value.ofInteger .integer n]
  typed := rfl

/-- `#0.0 + #1.0`. -/
def sumOfFirst : ExpressionTree :=
  .arithmetic (.columnValue 0 0 .integer) (.columnValue 1 0 .integer) .addition .integer

theorem evaluateJoin_agrees_sum :
    sumOfFirst.evaluateJoin (fun _ _ r => .ok r) (single 3).value (single 4).value =
      (sumOfFirst.shiftRight 1).evaluate (fun _ _ r => .ok r)
        ((single 3).append (single 4)).value :=
  (evaluateJoin_agrees _ sumOfFirst (single 3) (single 4)).2.2
    ⟨fun _ => .inl (by decide), nofun⟩

/-- `#0.1` is no column of a left row with one column, and is the right row's in the joined row. -/
theorem evaluateJoin_out_of_range : ¬ ∀ (e : ExpressionTree) (left right : TypedRow),
    e.evaluateJoin (fun _ _ r => .ok r) left.value right.value =
      (e.shiftRight left.schema.length).evaluate (fun _ _ r => .ok r)
        (left.append right).value := by
  intro h
  cases h (.columnValue 0 1 .integer) (single 3) (single 4)

end ExpressionTree

end TurtleDb.Execution
