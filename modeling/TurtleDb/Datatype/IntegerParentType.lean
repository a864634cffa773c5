import TurtleDb.Datatype.Arithmetic
import TurtleDb.Lib.Wrap

/-!
# The operations on integers

`datatype/integer_parent_type.hpp` and the operations of `TinyintType`, `SmallintType`,
`IntegerType` and `BigintType`, which differ in the type parameters only. Words wrap around; a
division traps where its quotient is no word.
-/

namespace TurtleDb.Datatype.IntegerParentType

open TurtleDb.Lib

/-- The bits two numbers are promoted to, those of `int` at least. -/
def promotedWidth (t1 t2 : DataType) : Nat := Nat.max 32 (Nat.max t1.width t2.width)

/-- The type of a result: `sizeof(x) >= sizeof(y)` decides. -/
def wider (t1 t2 : DataType) : DataType := if t2.width ≤ t1.width then t1 else t2

/-! ## Addition, subtraction and multiplication -/

def outOfRange : Fault := .raised "Numeric value out of range."

/-- What `add_value`, `subtract_value` and `multiply_value` do with the word they computed: one of
the two types has to hold it, and the overflow check is made on the word that is returned. -/
def checkedValue (t1 t2 : DataType) (word : Int) (overflows : Int → Except Fault Bool) :
    Except Fault Value := do
  let word1 := wrap t1.width word
  let word2 := wrap t2.width word
  if word ≠ word1 ∧ word ≠ word2 then throw outOfRange
  if t2.width ≤ t1.width then
    if ← overflows word1 then throw outOfRange
    return .ofInteger t1 word1
  if ← overflows word2 then throw outOfRange
  return .ofInteger t2 word2

def addNumbers (t1 t2 : DataType) (x y : Int) : Except Fault Value :=
  checkedValue t1 t2 (wrap (promotedWidth t1 t2) (x + y)) fun sum =>
    return (0 < x ∧ 0 < y ∧ sum < 0) ∨ (x < 0 ∧ y < 0 ∧ 0 < sum)

def subtractNumbers (t1 t2 : DataType) (x y : Int) : Except Fault Value :=
  checkedValue t1 t2 (wrap (promotedWidth t1 t2) (x - y)) fun diff =>
    return (0 < x ∧ y < 0 ∧ diff < 0) ∨ (x < 0 ∧ 0 < y ∧ 0 < diff)

/-- The machine's `/` and `%` give no answer where the quotient is not a word. -/
def divides (w : Nat) (x y : Int) : Bool := y ≠ 0 ∧ ¬ (x = -2 ^ (w - 1) ∧ y = -1)

/-- `x / y` on words of `w` bits. -/
def quotient (w : Nat) (x y : Int) : Except Fault Int :=
  if divides w x y then .ok (x.tdiv y) else .error .overflow

def remainder (w : Nat) (x y : Int) : Except Fault Int :=
  if divides w x y then .ok (x.tmod y) else .error .overflow

def multiplyNumbers (t1 t2 : DataType) (x y : Int) : Except Fault Value :=
  checkedValue t1 t2 (wrap (promotedWidth t1 t2) (x * y)) fun prod => do
    if y = 0 then return false
    return (← quotient (promotedWidth t1 t2) prod y) ≠ x

/-! ## Division -/

/-- `divide_value` and `modulo_value` by the machine's operation. -/
def dividedValue (t1 t2 : DataType) (x y : Int) (op : Nat → Int → Int → Except Fault Int) :
    Except Fault Value := do
  if y = 0 then throw (.raised "Division by zero.")
  let word ← op (promotedWidth t1 t2) x y
  if t2.width ≤ t1.width then return .ofInteger t1 (wrap t1.width word)
  return .ofInteger t2 (wrap t2.width word)

def divideNumbers (t1 t2 : DataType) (x y : Int) : Except Fault Value :=
  dividedValue t1 t2 x y quotient

def moduloNumbers (t1 t2 : DataType) (x y : Int) : Except Fault Value :=
  dividedValue t1 t2 x y remainder

/-! ## The type classes -/

/-- A method applied to the numbers of two values, as `INT_MODIFY_FUNC` and its siblings do. -/
def onNumbers (method : DataType → DataType → Int → Int → Except Fault Value)
    (left right : Value) : Except Fault Value :=
  method left.dataType right.dataType left.number right.number

def add : Value → Value → Except Fault Value := Value.operate (onNumbers addNumbers)

def subtract : Value → Value → Except Fault Value := Value.operate (onNumbers subtractNumbers)

def multiply : Value → Value → Except Fault Value := Value.operate (onNumbers multiplyNumbers)

def isZero (v : Value) : Bool := v.number = 0

/-- What `divide` and `modulo` ask first. -/
def unlessZero (method : Value → Value → Except Fault Value) (left right : Value) :
    Except Fault Value :=
  if isZero right then .error (.raised "Division by zero on right-hand side")
  else method left right

def divide : Value → Value → Except Fault Value :=
  Value.operate (unlessZero (onNumbers divideNumbers))

def modulo : Value → Value → Except Fault Value :=
  Value.operate (unlessZero (onNumbers moduloNumbers))

end TurtleDb.Datatype.IntegerParentType
