import TurtleDb.Datatype.IntegerParentType
import TurtleDb.Execution.Aggregation

/-!
# AVG, and merging states

`execution/aggregation/functions/moment_functions.cpp` and the `merge` of all functions. The
conversion of the count to a double and the division of doubles are parameters.
-/

namespace TurtleDb.Execution

open TurtleDb.Lib TurtleDb.Datatype

/-- What AVG takes from the arithmetic of doubles. No count but 0 becomes a double that is 0. -/
structure DoubleOps where
  ofCount : BitVec 64 → BitVec 64
  divide : BitVec 64 → BitVec 64 → BitVec 64
  ofCount_ne_zero : ∀ count, count ≠ 0 → Value.doublePlace (ofCount count) ≠ some 0

/-- `divide` of the type classes. -/
def valueDivide (double : DoubleOps) (left right : Value) : Except Fault Value :=
  match left.dataType with
  | .tinyint | .smallint | .integer | .bigint => IntegerParentType.divide left right
  | .decimal =>
      Value.operate (fun l r =>
        if Value.doublePlace (r.getAs 64) = some 0 then
          .error (.raised "Division by zero on right-hand side")
        else .ok (Value.ofDouble .decimal (double.divide (l.getAs 64) (r.getAs 64)))) left right
  | .varchar => .error (.raised "VARCHAR does not support division.")
  | .boolean | .timestamp => .error (.raised "Not implemented")

/-! ## Merging -/

namespace AggregateFunction

/-- `merge` of `COUNT` and `COUNT(*)`. No state has the flag `CmpNull` it asks for. -/
def mergeCounts (dest src : BasicAccumulatorState) : BasicAccumulatorState :=
  if src.isNull = .cmpNull then dest
  else if dest.isNull = .cmpNull then
    { value := src.value, count := src.count, isNull := .cmpFalse }
  else { dest with count := dest.count + src.count }

/-- `merge` of `SUM`, `MIN` and `MAX`. -/
def mergeValues (op : Value → Value → Except Fault Value) (dest src : BasicAccumulatorState) :
    Except Fault BasicAccumulatorState :=
  if src.isNull = .cmpTrue then .ok dest
  else if dest.isNull = .cmpTrue then .ok { dest with value := src.value, isNull := .cmpFalse }
  else
    match dest.value, src.value with
    | some d, some s => do
        let value ← op d s
        return { dest with value := some value }
    | _, _ => .error .outOfBounds

def merge (rt : Runtime) (func : AggregateFunction) (dest src : BasicAccumulatorState) :
    Except Fault BasicAccumulatorState :=
  match func with
  | .count | .countStar => .ok (mergeCounts dest src)
  | .sum => mergeValues (Value.add rt.addDouble) dest src
  | .min => mergeValues Value.min dest src
  | .max => mergeValues Value.max dest src

end AggregateFunction

/-! ## AVG -/

namespace AvgFunction

open AggregateFunction

/-- `MomentAccumulatorState` has the three fields of `BasicAccumulatorState`; its `sum` is called
`value` here. -/
abbrev MomentAccumulatorState := BasicAccumulatorState

def update (rt : Runtime) (st : MomentAccumulatorState) (args : List (Option Value)) :
    Except Fault MomentAccumulatorState := do
  if args.isEmpty || checkCmpIsNull args.head?.join then return st
  let st ← combine (Value.add rt.addDouble) st args
  return { st with count := st.count + 1 }

def merge (rt : Runtime) (dest src : MomentAccumulatorState) :
    Except Fault MomentAccumulatorState := do
  if src.isNull = .cmpTrue then return dest
  let dest ← mergeValues (Value.add rt.addDouble) dest src
  return { dest with count := dest.count + src.count }

def finalize (double : DoubleOps) (st : MomentAccumulatorState) : Except Fault Value :=
  if st.isNull = .cmpTrue ∨ st.count = 0 then getNullValueByType (st.value.map Value.dataType)
  else
    match st.value with
    | none => .error .outOfBounds
    | some value => valueDivide double value (Value.ofDouble .decimal (double.ofCount st.count))

end AvgFunction

/-! ## All functions -/

/-- The basic functions and AVG. -/
inductive Aggregate where
  | basic (func : AggregateFunction)
  | avg (double : DoubleOps)

namespace Aggregate

def update (rt : Runtime) : Aggregate → BasicAccumulatorState → List (Option Value) →
    Except Fault BasicAccumulatorState
  | basic func, st, args => func.update rt st args
  | avg _, st, args => AvgFunction.update rt st args

def merge (rt : Runtime) : Aggregate → BasicAccumulatorState → BasicAccumulatorState →
    Except Fault BasicAccumulatorState
  | basic func, dest, src => func.merge rt dest src
  | avg _, dest, src => AvgFunction.merge rt dest src

def finalize : Aggregate → BasicAccumulatorState → Except Fault Value
  | basic func, st => func.finalize st
  | avg double, st => AvgFunction.finalize double st

instance : Aggregating Aggregate where
  update := update
  finalize := finalize

/-- The arguments of a group, one after the other. -/
def accumulate (rt : Runtime) (func : Aggregate) (xs : List Value) :
    Except Fault BasicAccumulatorState :=
  xs.foldlM (fun st x => func.update rt st [some x]) AggregateFunction.createState

end Aggregate

end TurtleDb.Execution
