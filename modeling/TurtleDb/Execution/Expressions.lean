import TurtleDb.Datatype.Compare
import TurtleDb.Table.Tuple

/-!
# Expressions

`execution/expressions/*.hpp`: constants, columns, comparisons and AND/OR, evaluated on one tuple.
-/

namespace TurtleDb.Execution

open TurtleDb.Lib TurtleDb.Table TurtleDb.Datatype

inductive ComparisonType where
  | equal
  | notEqual
  | lessThan
  | lessThanOrEqual
  | greaterThan
  | greaterThanOrEqual
  deriving DecidableEq, Repr

inductive LogicType where
  | and
  | or
  deriving DecidableEq, Repr

/-- `ret_type` of a column is what its constructor was told. -/
inductive Expression where
  | constantValue (value : Value)
  | columnValue (tupleIdx colIdx : Nat) (retType : DataType)
  | comparison (left right : Expression) (compType : ComparisonType)
  | logic (left right : Expression) (logicType : LogicType)

/-- `ValueFactory::get_boolean_value`. -/
def getBooleanValue : CmpBool → Value
  | .cmpFalse => Value.ofInt8 .boolean 0
  | .cmpTrue => Value.ofInt8 .boolean 1
  | .cmpNull => Value.ofInt8 .boolean 0x80#8

/-- `get_as<bool>`: of a byte that is 0 or 1. -/
def asBool (v : Value) : Bool := v.getAs 8 != 0

namespace Expression

def getReturnType : Expression → DataType
  | .constantValue value => value.dataType
  | .columnValue _ _ retType => retType
  | .comparison _ _ _ => .boolean
  | .logic _ _ _ => .boolean

/-- The constructor of `LogicExpression`. -/
def logicExpression (left right : Expression) (logicType : LogicType) : Except Fault Expression :=
  if left.getReturnType ≠ .boolean ∨ right.getReturnType ≠ .boolean then
    .error (.raised "expect boolean from either side")
  else .ok (.logic left right logicType)

def performComparison (compType : ComparisonType) (left right : Value) : Except Fault CmpBool :=
  match compType with
  | .equal => left.compareEquals right
  | .notEqual => left.compareNotEquals right
  | .lessThan => left.compareLessThan right
  | .lessThanOrEqual => left.compareLessThanEquals right
  | .greaterThan => left.compareGreaterThan right
  | .greaterThanOrEqual => left.compareGreaterThanEquals right

def getBoolAsCmpBool (val : Value) : CmpBool :=
  if val.isNull then .cmpNull else if asBool val then .cmpTrue else .cmpFalse

def performComputation (logicType : LogicType) (left right : Value) : CmpBool :=
  let l := getBoolAsCmpBool left
  let r := getBoolAsCmpBool right
  match logicType with
  | .and =>
      if l = .cmpFalse ∨ r = .cmpFalse then .cmpFalse
      else if l = .cmpTrue ∧ r = .cmpTrue then .cmpTrue
      else .cmpNull
  | .or =>
      if l = .cmpTrue ∨ r = .cmpTrue then .cmpTrue
      else if l = .cmpFalse ∧ r = .cmpFalse then .cmpFalse
      else .cmpNull

def evaluate (schema : ColumnSchema) (tuple : Tuple) : Expression → Except Fault Value
  | .constantValue value => .ok value
  | .columnValue _ colIdx _ => tuple.value schema colIdx
  | .comparison left right compType => do
      let lhs ← left.evaluate schema tuple
      let rhs ← right.evaluate schema tuple
      let state ← performComparison compType lhs rhs
      return getBooleanValue state
  | .logic left right logicType => do
      let lhs ← left.evaluate schema tuple
      let rhs ← right.evaluate schema tuple
      return getBooleanValue (performComputation logicType lhs rhs)

end Expression

end TurtleDb.Execution
