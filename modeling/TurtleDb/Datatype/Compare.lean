import Mathlib.Data.List.Lex
import TurtleDb.Datatype.Encoding

/-!
# Comparing values

The six comparisons of the type classes. In each class they are one macro with the operator as its
argument; so here. `assert` is compiled in: the build defines no `NDEBUG`.
-/

namespace TurtleDb.Datatype

open TurtleDb.Lib

inductive CmpBool where
  | cmpFalse
  | cmpTrue
  | cmpNull
  deriving DecidableEq, Repr

def getCmpBool (state : Bool) : CmpBool := if state then .cmpTrue else .cmpFalse

/-- The operators the macros are used with. -/
inductive CmpOp where
  | eq
  | ne
  | lt
  | le
  | gt
  | ge
  deriving DecidableEq, Repr

def CmpOp.apply {α : Type} [LinearOrder α] (op : CmpOp) (a b : α) : Bool :=
  match op with
  | .eq => decide (a = b)
  | .ne => decide (a ≠ b)
  | .lt => decide (a < b)
  | .le => decide (a ≤ b)
  | .gt => decide (b < a)
  | .ge => decide (b ≤ a)

/-- The types with a total order: all but `DECIMAL`, which has NaN, and `TIMESTAMP`, whose `>` is not
the converse of its `<`. -/
def DataType.Sortable (t : DataType) : Prop := t ≠ .decimal ∧ t ≠ .timestamp

instance (t : DataType) : Decidable t.Sortable := inferInstanceAs (Decidable (_ ∧ _))

namespace Value

def checkInteger (v : Value) : Bool :=
  v.dataType = .tinyint || v.dataType = .smallint || v.dataType = .integer || v.dataType = .bigint

def checkComparable (v o : Value) : Bool :=
  v.dataType = o.dataType || (v.checkInteger && o.checkInteger)

/-- `data`, which only a `VARCHAR` has. -/
def getData (v : Value) : Except Fault (List UInt8) :=
  match v.dataType with
  | .varchar => .ok v.varlen
  | .boolean => .error (.raised "get_data() should not be called on inlined Boolean types.")
  | .integer => .error (.raised "get_data() should not be called on inlined Integer types.")
  | .bigint => .error (.raised "get_data() should not be called on inlined Bigint types.")
  | .timestamp => .error (.raised "get_data() should not be called on inlined Timestamp types.")
  | .tinyint | .smallint | .decimal => .error (.raised "Not implemented")

/-! ## The type classes -/

/-- The signed number in the union, as wide as the value's type. -/
def number (v : Value) : Int := (v.getAs (8 * v.dataType.size)).toInt

/-- The bytes of a string in the order of `std::string`. -/
def codes (bytes : List UInt8) : List Int := bytes.map fun b => (b.toNat : Int)

/-- The frame all fixed-size types share. -/
def compareInlined (cmp : Value → Value → Bool) (left right : Value) : Except Fault CmpBool :=
  if !left.checkComparable right then .error (.terminated "left.check_comparable(right)")
  else if left.isNull || right.isNull then .ok .cmpNull
  else .ok (getCmpBool (cmp left right))

/-- `TINYINT`, `SMALLINT`, `INTEGER`, `BIGINT` and `BOOLEAN`. Behind the assertion `right` is of one
of the integer types too, or a `BOOLEAN` that `cast_as` copies. -/
def compareNumber (op : CmpOp) : Value → Value → Except Fault CmpBool :=
  compareInlined fun left right => op.apply left.number right.number

/-- `TIMESTAMP`: unsigned, except for `>`; and `!=` does not ask whether the left value is NULL. -/
def compareTimestamp (op : CmpOp) (left right : Value) : Except Fault CmpBool :=
  match op with
  | .gt =>
      compareInlined (fun left right => op.apply (left.getAs 64).toInt (right.getAs 64).toInt)
        left right
  | .ne =>
      if !left.checkComparable right then .error (.terminated "left.check_comparable(right)")
      else if right.isNull then .ok .cmpNull
      else .ok (getCmpBool (op.apply (left.getAs 64).toNat (right.getAs 64).toNat))
  | _ =>
      compareInlined (fun left right => op.apply (left.getAs 64).toNat (right.getAs 64).toNat)
        left right

/-- Where a double stands among the numbers; a NaN stands nowhere. -/
def doublePlace (b : BitVec 64) : Option Int :=
  let magnitude := (b.setWidth 63).toNat
  if magnitude > 0x7FF0000000000000 then none
  else some (if b.msb then -magnitude else magnitude)

/-- `DECIMAL`: the comparisons of doubles. -/
def compareDecimal (op : CmpOp) : Value → Value → Except Fault CmpBool :=
  compareInlined fun left right =>
    match doublePlace (left.getAs 64), doublePlace (right.getAs 64) with
    | some a, some b => op.apply a b
    | _, _ => op == .ne

/-- `std::string(v.data(), v.storage_size() - 4)`. -/
def toStdString (v : Value) : Except Fault (List UInt8) := do
  let data ← v.getData
  fetch data 0 (sub32 v.storageSize 4)

def compareVarchar (op : CmpOp) (left right : Value) : Except Fault CmpBool :=
  if left.isNull || right.isNull then .ok .cmpNull
  else do
    let leftStr ← left.toStdString
    let rightStr ← right.toStdString
    return getCmpBool (op.apply (codes leftStr) (codes rightStr))

/-- The type of the left value decides. -/
def compare (op : CmpOp) (left right : Value) : Except Fault CmpBool :=
  match left.dataType with
  | .varchar => compareVarchar op left right
  | .timestamp => compareTimestamp op left right
  | .decimal => compareDecimal op left right
  | .boolean | .tinyint | .smallint | .integer | .bigint => compareNumber op left right

def compareEquals : Value → Value → Except Fault CmpBool := compare .eq

def compareNotEquals : Value → Value → Except Fault CmpBool := compare .ne

def compareLessThan : Value → Value → Except Fault CmpBool := compare .lt

def compareLessThanEquals : Value → Value → Except Fault CmpBool := compare .le

def compareGreaterThan : Value → Value → Except Fault CmpBool := compare .gt

def compareGreaterThanEquals : Value → Value → Except Fault CmpBool := compare .ge

/-- The comparison answers `CmpTrue`. -/
def Holds (op : CmpOp) (a b : Value) : Prop := compare op a b = .ok .cmpTrue

/-! ## What the comparisons say -/

theorem holds_getCmpBool {op : CmpOp} {a b : Value} {state : Bool}
    (h : compare op a b = .ok (getCmpBool state)) : Holds op a b ↔ state = true := by
  rw [Holds, h]
  cases state <;> simp [getCmpBool]

/-- What a value that is not NULL is compared by: its number, or the bytes of its string. -/
def key (v : Value) : List Int := if v.dataType = .varchar then codes v.payload else [v.number]

theorem sub32_storageSize {v : Value} (hv : v.Valid) (hn : v.isNull = false)
    (ht : v.dataType = .varchar) : sub32 v.storageSize 4 = v.len := by
  have hlen := (hv ht hn).2
  rw [storageSize, if_pos ht, hn]
  simp only [Bool.false_eq_true, if_false, sub32, add32, word32] at *
  omega

theorem toStdString_eq {v : Value} (hv : v.Valid) (hn : v.isNull = false)
    (ht : v.dataType = .varchar) : v.toStdString = .ok v.payload := by
  have hload : Buffer.load v.varlen 0 v.len = some (v.varlen.take v.len) := by
    rw [Buffer.load_eq_some, ← (hv ht hn).1, List.take_length]
    exact ⟨by omega, rfl, fun k _ => by rw [Nat.zero_add]⟩
  rw [toStdString, getData, ht, sub32_storageSize hv hn ht]
  simp only [ok_bind, fetch, hload, payload, ht, if_true]

theorem apply_singleton (op : CmpOp) (a b : Int) : op.apply [a] [b] = op.apply a b := by
  cases op with
  | eq | ne => simp [CmpOp.apply]
  | lt | gt => simp [CmpOp.apply, List.cons_lt_cons_iff]
  | le | ge => simp [CmpOp.apply, List.cons_lt_cons_iff, le_iff_lt_or_eq]

/-- Two values of one sortable type compare as their keys do. -/
theorem compare_eq (op : CmpOp) {u v : Value} (ht : u.dataType = v.dataType)
    (hs : u.dataType.Sortable) (hu : u.Valid) (hv : v.Valid) (hnu : u.isNull = false)
    (hnv : v.isNull = false) : compare op u v = .ok (getCmpBool (op.apply u.key v.key)) := by
  by_cases hvar : u.dataType = .varchar
  · have hvar' : v.dataType = .varchar := ht ▸ hvar
    rw [compare, hvar]
    simp only [compareVarchar, hnu, hnv, Bool.or_self, Bool.false_eq_true, if_false,
      toStdString_eq hu hnu hvar, toStdString_eq hv hnv hvar', ok_bind, key, hvar, hvar', if_true]
    rfl
  · have hvar' : v.dataType ≠ .varchar := ht ▸ hvar
    have hnum : compare op u v = compareNumber op u v := by
      rw [compare]
      cases h : u.dataType with
      | varchar => exact absurd h hvar
      | decimal => exact absurd h hs.1
      | timestamp => exact absurd h hs.2
      | _ => rfl
    have hcmp : u.checkComparable v = true := by simp [checkComparable, ht]
    rw [hnum, compareNumber, compareInlined, hcmp, hnu, hnv, key, key, if_neg hvar, if_neg hvar',
      apply_singleton]
    rfl

end Value

end TurtleDb.Datatype
