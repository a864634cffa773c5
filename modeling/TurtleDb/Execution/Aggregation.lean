import TurtleDb.Datatype.Arithmetic
import TurtleDb.Datatype.Text
import TurtleDb.Execution.AbstractExecutor
import TurtleDb.Lib.UnorderedMap

/-!
# GROUP BY

`execution/executors/aggregation_executor.{hpp,cpp}` and `execution/aggregation`, over any child
executor: the five basic functions, the hash table of the groups, and the executor. A default
constructed `Value` is `none`.
-/

namespace TurtleDb.Execution

open TurtleDb.Lib TurtleDb.Table TurtleDb.Datatype

/-! ## Aggregate functions -/

inductive AggregateFunction where
  | count
  | countStar
  | sum
  | min
  | max
  deriving DecidableEq, Repr

/-- `value` is `none` while it is the `Value(INVALID)` it was made with. -/
structure BasicAccumulatorState where
  value : Option Value
  count : BitVec 64
  isNull : CmpBool
  deriving DecidableEq, Repr

/-- `ValueFactory::get_null_value_by_type`; `none` is `INVALID`. -/
def getNullValueByType : Option DataType → Except Fault Value
  | some .boolean => .ok (Value.ofInt8 .boolean 0x80#8)
  | some .tinyint => .ok (Value.ofInt8 .tinyint 0x80#8)
  | some .smallint => .ok (Value.ofInt16 .smallint 0x8000#16)
  | some .integer => .ok (Value.ofInt32 .integer 0x80000000#32)
  | some .bigint => .ok (Value.ofInt64 .bigint 0x8000000000000000#64)
  | some .decimal => .ok (Value.ofDouble .decimal 0xFFEFFFFFFFFFFFFF#64)
  | some .varchar => .ok (Value.null .varchar)
  | some .timestamp | none => .error (.raised "Attempting to create invalid null type")

/-- What is taken from outside: the addition of doubles, `std::hash<std::string>`, the texts of
doubles, and the hash map. -/
structure Runtime where
  addDouble : BitVec 64 → BitVec 64 → BitVec 64
  stringHash : String → BitVec 64
  text : Value → String
  map : UnorderedMap Fault (List Value) (List BasicAccumulatorState)

namespace AggregateFunction

def createState : BasicAccumulatorState := { value := none, count := 0, isNull := .cmpTrue }

/-- `check_cmp_is_null`, of an argument that may be missing. -/
def checkCmpIsNull : Option Value → Bool
  | none => true
  | some v => v.isNull

/-- `update` of `SUM`, `MIN` and `MAX`. -/
def combine (op : Value → Value → Except Fault Value) (st : BasicAccumulatorState) :
    List (Option Value) → Except Fault BasicAccumulatorState
  | some arg :: _ =>
      if arg.isNull then .ok st
      else if st.isNull = .cmpTrue then .ok { st with value := some arg, isNull := .cmpFalse }
      else
        match st.value with
        | none => .error .outOfBounds
        | some value => do
            let value ← op value arg
            return { st with value := some value }
  | _ => .ok st

def update (rt : Runtime) (func : AggregateFunction) (st : BasicAccumulatorState)
    (args : List (Option Value)) : Except Fault BasicAccumulatorState :=
  match func with
  | .count =>
      if args.isEmpty || checkCmpIsNull args.head?.join then .ok st
      else .ok { st with count := st.count + 1, isNull := .cmpFalse }
  | .countStar => .ok { st with count := st.count + 1, isNull := .cmpFalse }
  | .sum => combine (Value.add rt.addDouble) st args
  | .min => combine Value.min st args
  | .max => combine Value.max st args

/-- The counters are cut to 32 and to 64 bits. -/
def finalize (func : AggregateFunction) (st : BasicAccumulatorState) : Except Fault Value :=
  match func with
  | .count => .ok (Value.ofInt32 .integer (st.count.setWidth 32))
  | .countStar => .ok (Value.ofInt64 .bigint st.count)
  | .sum | .min | .max =>
      if st.isNull = .cmpTrue then getNullValueByType (st.value.map Value.dataType)
      else
        match st.value with
        | none => .error .outOfBounds
        | some value => .ok value

end AggregateFunction

/-- What the hash table and the executor call of the functions of type `φ`. -/
class Aggregating (φ : Type) where
  update : Runtime → φ → BasicAccumulatorState → List (Option Value) →
    Except Fault BasicAccumulatorState
  finalize : φ → BasicAccumulatorState → Except Fault Value

instance : Aggregating AggregateFunction where
  update := AggregateFunction.update
  finalize := AggregateFunction.finalize

/-! ## Keys -/

/-- `to_string`. -/
def valueText (rt : Runtime) (v : Value) : String :=
  match v.dataType with
  | .boolean =>
      if v.number = 1 then "true" else if v.number = 0 then "false" else "boolean_null"
  | .tinyint => if v.isNull then "tinyint_null" else toString v.number
  | .smallint => if v.isNull then "smallint_null" else toString v.number
  | .integer => if v.isNull then "integer_null" else toString v.number
  | .bigint => if v.isNull then "bigint_null" else toString v.number
  | .varchar => varcharToString v
  | .timestamp => timestampToString v
  | .decimal => rt.text v

namespace AggregateKey

/-- `operator==`. -/
def equal : List Value → List Value → Except Fault Bool
  | [], _ => .ok true
  | _ :: _, [] => .error .outOfBounds
  | a :: as, b :: bs => do
      let state ← a.compareEquals b
      if state ≠ .cmpTrue then return false else equal as bs

/-- `std::hash<AggregateKey>`. -/
def hash (rt : Runtime) (key : List Value) : BitVec 64 :=
  key.foldl (fun currHash v =>
    if v.isNull then currHash
    else currHash ^^^ (rt.stringHash (valueText rt v) + 0x9e3779b9#64 + (currHash <<< 6) +
      (currHash >>> 2))) 0

end AggregateKey

/-! ## The hash table -/

namespace AggregationHashTable

abbrev Entry := List Value × List BasicAccumulatorState

variable {φ : Type}

/-- The loop over the functions: one argument each, as far as there are arguments. -/
def updateStates [Aggregating φ] (rt : Runtime) : List φ → List BasicAccumulatorState →
    List (Option Value) → Except Fault (List BasicAccumulatorState)
  | func :: funcs, st :: states, arg :: args => do
      let st ← Aggregating.update rt func st [arg]
      let states ← updateStates rt funcs states args
      return st :: states
  | _ :: _, [], _ :: _ => .error .outOfBounds
  | _, states, _ => .ok states

/-- The element of the key, which is made if there is none. -/
def findOrCreate (rt : Runtime) (funcs : List φ) (entries : List Entry) (key : List Value) :
    Except Fault (List Entry × Nat) := do
  let found ← rt.map.find AggregateKey.equal (AggregateKey.hash rt) entries key
  match found with
  | some i => return (entries, i)
  | none =>
      let states := funcs.map fun _ => AggregateFunction.createState
      return (entries ++ [(key, states)], entries.length)

def insertCombine [Aggregating φ] (rt : Runtime) (funcs : List φ) (entries : List Entry)
    (key : List Value) (args : List (Option Value)) : Except Fault (List Entry) := do
  let (entries, i) ← findOrCreate rt funcs entries key
  match entries[i]? with
  | none => .error .outOfBounds
  | some e =>
      let states ← updateStates rt funcs e.2 args
      return entries.set i (e.1, states)

end AggregationHashTable

/-! ## The executor -/

/-- Expressions are given by what they evaluate to on a tuple of the child. -/
structure AggregationPlan (φ : Type) where
  outputSchema : ColumnSchema
  groupBys : List (Tuple → Except Fault Value)
  aggregates : List (Tuple → Except Fault Value)
  aggFuncs : List φ

abbrev AggregationPlanNode := AggregationPlan AggregateFunction

namespace AggregationExecutor

open AggregationHashTable

/-- The elements in front of `aht_iterator_`. -/
structure State where
  ahead : List Entry

variable {σ α φ : Type}

/-- `make_aggregate_key` and `make_aggregate_values`. The values stand for themselves here, where a
`VARCHAR` of a column points into the tuple. -/
def inputOf (plan : AggregationPlan φ) (tuple : Tuple) :
    Except Fault (List Value × List Value) := do
  let keys ← plan.groupBys.mapM fun expr => expr tuple
  let vals ← plan.aggregates.mapM fun expr => expr tuple
  return (keys, vals)

/-- The loop over one batch. -/
def insertBatch [Aggregating φ] (rt : Runtime) (plan : AggregationPlan φ) (entries : List Entry)
    (batch : List Row) : Except Fault (List Entry) :=
  batch.foldlM (fun entries row => do
    let (key, vals) ← inputOf plan row.1
    insertCombine rt plan.aggFuncs entries key (vals.map some)) entries

/-- The loop of `init`. Keys and states are kept by value, as those of fixed size are. What becomes of
a `VARCHAR` whose tuple is freed says `consumeFreed`. -/
def consume [Aggregating φ] (rt : Runtime) (plan : AggregationPlan φ)
    (child : AbstractExecutor σ) : Nat → σ → List Entry → Except Fault (List Entry × σ)
  | 0, _, _ => .error .outOfFuel
  | fuel + 1, c, entries => do
      let (batch, c) ← child c 256
      match batch with
      | none => return (entries, c)
      | some rows => do
          let entries ← insertBatch rt plan entries rows
          consume rt plan child fuel c entries

/-- `init`, with the child initialised. -/
def init [Aggregating φ] (rt : Runtime) (plan : AggregationPlan φ)
    (child : AbstractExecutor σ) (fuel : Nat) (c : σ) : Except Fault State := do
  let (entries, _) ← consume rt plan child fuel c []
  let entries ←
    if entries.isEmpty && plan.groupBys.isEmpty then
      insertCombine rt plan.aggFuncs entries [] (plan.aggFuncs.map fun _ => none)
    else .ok entries
  return { ahead := rt.map.order entries }

/-- The aggregates behind the key. -/
def finalizeAll [Aggregating φ] : List φ → List BasicAccumulatorState → Except Fault (List Value)
  | [], _ => .ok []
  | _ :: _, [] => .error .outOfBounds
  | func :: funcs, st :: states => do
      let value ← Aggregating.finalize func st
      let values ← finalizeAll funcs states
      return value :: values

def valuesOf [Aggregating φ] (plan : AggregationPlan φ) (e : Entry) :
    Except Fault (List Value) := do
  let values ← finalizeAll plan.aggFuncs e.2
  return e.1 ++ values

/-- `next`, with what is made of the values of a row. -/
def nextWith [Aggregating φ] (plan : AggregationPlan φ) (make : List Value → Except Fault α) :
    BatchSource Fault State α := fun s batchSize => do
  let batch ← (s.ahead.take batchSize).mapM fun e => do
    let values ← valuesOf plan e
    make values
  return (if batch.isEmpty then none else some batch, { ahead := s.ahead.drop batchSize })

/-- The tuple of the output schema, with a `RecordId` that names nothing. -/
def makeRow (plan : AggregationPlan φ) (values : List Value) : Except Fault Row := do
  let tuple ← Tuple.make plan.outputSchema values
  return (tuple, .invalid)

def next [Aggregating φ] (plan : AggregationPlan φ) : AbstractExecutor State :=
  nextWith plan (makeRow plan)

end AggregationExecutor

end TurtleDb.Execution
