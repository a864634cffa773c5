import TurtleDb.Datatype.Compare

/-!
# Copying, adding and choosing values

`copy`, `operate_null`, `add`, `min` and `max` of the type classes. The addition of doubles is a
parameter.
-/

namespace TurtleDb.Datatype

open TurtleDb.Lib

def DataType.isInteger (t : DataType) : Bool :=
  t = .tinyint || t = .smallint || t = .integer || t = .bigint

namespace DataType

/-- The bits of a fixed-size value. -/
def width (t : DataType) : Nat := 8 * t.size

/-- The number whose pattern stands for NULL: `TURTLE_INT8_NULL` and so on. -/
def nullNumber (t : DataType) : Int := -2 ^ (t.width - 1)

/-- The numbers between `TURTLE_INT8_MIN` and `TURTLE_INT8_MAX`, and so on. -/
def InRange (t : DataType) (x : Int) : Prop := t.nullNumber < x ∧ x < -t.nullNumber

instance (t : DataType) (x : Int) : Decidable (t.InRange x) := inferInstanceAs (Decidable (_ ∧ _))

end DataType

namespace Value

/-! ## The type classes -/

/-- `Value(type, i)` with `i` cut to the width of the type, as the constructors of `BOOLEAN` and of
the integer types are called. -/
def ofInteger (t : DataType) (i : Int) : Value :=
  ofBits (BitVec.intMin t.width) t (BitVec.ofInt t.width i)

/-- The buffer of a `VARCHAR` is as long as its encoding, four bytes longer than the string. -/
def copy (v : Value) : Except Fault Value :=
  match v.dataType with
  | .varchar =>
      if v.isNull then .ok (null .varchar)
      else do
        let data ← v.getData
        let buf ← fetch data 0 v.storageSize
        return ofChars .varchar buf
  | .timestamp => .ok v
  | .decimal => .ok (ofDouble .decimal (v.getAs 64))
  | .boolean | .tinyint | .smallint | .integer | .bigint => .ok (ofInteger v.dataType v.number)

/-- Only the types play a part. -/
def operateNull (left right : Value) : Except Fault Value :=
  match left.dataType, right.dataType with
  | .tinyint, .tinyint => .ok (ofInt8 .tinyint 0x80#8)
  | .tinyint, .smallint => .ok (ofInt16 .integer 0x8000#16)
  | .smallint, .tinyint | .smallint, .smallint => .ok (ofInt16 .smallint 0x8000#16)
  | .tinyint, .integer | .smallint, .integer | .integer, .tinyint | .integer, .smallint
  | .integer, .integer => .ok (ofInt32 .integer 0x80000000#32)
  | .tinyint, .bigint | .smallint, .bigint | .integer, .bigint | .bigint, .tinyint
  | .bigint, .smallint | .bigint, .integer | .bigint, .bigint =>
      .ok (ofInt64 .bigint 0x8000000000000000#64)
  | .tinyint, .decimal | .smallint, .decimal | .integer, .decimal | .bigint, .decimal
  | .decimal, _ => .ok (ofDouble .decimal 0xFFEFFFFFFFFFFFFF#64)
  | .varchar, _ => .ok (null .varchar)
  | .boolean, _ | .timestamp, _ => .error (.raised "Not implemented")
  | _, _ => .error (.raised "type error")

/-- `add_value<T1, T2>` on the numbers of two values of types `t1` and `t2`. They are promoted, to
`int` at least, before they are added. -/
def addNumbers (t1 t2 : DataType) (x y : Int) : Except Fault Value :=
  let w := Nat.max 32 (Nat.max t1.width t2.width)
  if x + y < -2 ^ (w - 1) ∨ 2 ^ (w - 1) ≤ x + y then .error .overflow
  else
    let sum1 := (BitVec.ofInt t1.width (x + y)).toInt
    let sum2 := (BitVec.ofInt t2.width (x + y)).toInt
    if x + y ≠ sum1 ∧ x + y ≠ sum2 then .error (.raised "Numeric value out of range.")
    else if t2.width ≤ t1.width then
      if (0 < x ∧ 0 < y ∧ sum1 < 0) ∨ (x < 0 ∧ y < 0 ∧ 0 < sum1) then
        .error (.raised "Numeric value out of range.")
      else .ok (ofInteger t1 sum1)
    else if (0 < x ∧ 0 < y ∧ sum2 < 0) ∨ (x < 0 ∧ y < 0 ∧ 0 < sum2) then
      .error (.raised "Numeric value out of range.")
    else .ok (ofInteger t2 sum2)

def addValue (left right : Value) : Except Fault Value :=
  addNumbers left.dataType right.dataType left.number right.number

/-- What the operations on two numbers begin with. -/
def operate (op : Value → Value → Except Fault Value) (left right : Value) : Except Fault Value :=
  if !left.checkComparable right then .error (.terminated "left.check_comparable(right)")
  else if left.isNull || right.isNull then left.operateNull right
  else op left right

/-- Behind the assertion `right` is of an integer type if `left` is. -/
def add (addDouble : BitVec 64 → BitVec 64 → BitVec 64) (left right : Value) :
    Except Fault Value :=
  match left.dataType with
  | .tinyint | .smallint | .integer | .bigint => operate addValue left right
  | .decimal =>
      operate (fun l r => .ok (ofDouble .decimal (addDouble (l.getAs 64) (r.getAs 64)))) left right
  | .varchar => .error (.raised "VARCHAR does not support addition.")
  | .boolean | .timestamp => .error (.raised "Not implemented")

/-- The left value if the comparison says so, else the right one. -/
def choose (cmp : Value → Value → Except Fault CmpBool) (left right : Value) :
    Except Fault Value := do
  let state ← cmp left right
  if state = .cmpTrue then left.copy else right.copy

def min (left right : Value) : Except Fault Value :=
  match left.dataType with
  | .tinyint | .smallint | .integer | .bigint | .timestamp =>
      operate (choose compareLessThan) left right
  | .decimal => operate (choose compareLessThanEquals) left right
  | .varchar => choose compareLessThan left right
  | .boolean => .error (.raised "Not implemented")

def max (left right : Value) : Except Fault Value :=
  match left.dataType with
  | .tinyint | .smallint | .integer | .bigint => operate (choose compareGreaterThan) left right
  | .timestamp | .decimal => operate (choose compareGreaterThanEquals) left right
  | .varchar => choose compareGreaterThan left right
  | .boolean => .error (.raised "Not implemented")

/-! ## Numbers of one type -/

/-- `v` is not NULL and carries the number `x` of type `t`. -/
structure Carries (t : DataType) (x : Int) (v : Value) : Prop where
  dataType : v.dataType = t
  notNull : v.isNull = false
  number : v.number = x

theorem Carries.of_notNull {t : DataType} {v : Value} (ht : v.dataType = t)
    (hn : v.isNull = false) : Carries t v.number v := ⟨ht, hn, rfl⟩

variable {t : DataType} {x y : Int} {u v : Value}

theorem width_pos (t : DataType) : 0 < t.width := by cases t <;> decide

theorem width_le (t : DataType) : t.width ≤ 64 := by cases t <;> decide

theorem number_ofBits {p i : BitVec t.width} : (ofBits p t i).number = i.toInt := by
  change ((i.setWidth 64).setWidth t.width).toInt = i.toInt
  rw [BitVec.setWidth_setWidth_of_le _ (width_le t), BitVec.setWidth_eq]

theorem Carries.bounds (h : Carries t x v) : t.nullNumber ≤ x ∧ x < -t.nullNumber := by
  obtain ⟨rfl, -, rfl⟩ := h
  have hlt := (v.getAs v.dataType.width).toInt_lt
  have hle := (v.getAs v.dataType.width).le_toInt
  refine ⟨hle, ?_⟩
  rw [DataType.nullNumber, Int.neg_neg]
  exact hlt

theorem toInt_ofInt_of_bounds (h : t.nullNumber ≤ x ∧ x < -t.nullNumber) :
    (BitVec.ofInt t.width x).toInt = x := by
  obtain ⟨n, hn⟩ := Nat.exists_eq_add_of_lt (width_pos t)
  rw [DataType.nullNumber, hn] at h
  rw [BitVec.toInt_ofInt, hn]
  simp only [Nat.zero_add, Nat.add_sub_cancel] at h ⊢
  have hpow : (2 : Int) ^ (n + 1) = 2 ^ n * 2 := Int.pow_succ ..
  refine Int.bmod_eq_of_le ?_ ?_ <;> push_cast <;> omega

theorem number_ofInteger (h : t.nullNumber ≤ x ∧ x < -t.nullNumber) :
    (ofInteger t x).number = x := by
  rw [ofInteger, number_ofBits, toInt_ofInt_of_bounds h]

theorem toInt_intMin (t : DataType) : (BitVec.intMin t.width).toInt = t.nullNumber := by
  cases t <;> decide

/-- The pattern of one number, and no other, is read as NULL. -/
theorem isNull_ofInteger (h : t.nullNumber ≤ x ∧ x < -t.nullNumber) :
    (ofInteger t x).isNull = decide (x = t.nullNumber) := by
  have hiff : BitVec.ofInt t.width x = BitVec.intMin t.width ↔ x = t.nullNumber := by
    rw [← BitVec.toInt_inj, toInt_ofInt_of_bounds h, toInt_intMin]
  by_cases hx : x = t.nullNumber
  · rw [ofInteger, hiff.mpr hx, decide_eq_true hx]
    simp [ofBits, isNull]
  · rw [decide_eq_false hx]
    simp [ofInteger, ofBits, isNull, hiff, hx, valueNull]

theorem carries_ofInteger (h : t.InRange x) : Carries t x (ofInteger t x) := by
  have hb : t.nullNumber ≤ x ∧ x < -t.nullNumber := ⟨Int.le_of_lt h.1, h.2⟩
  refine ⟨rfl, ?_, number_ofInteger hb⟩
  rw [isNull_ofInteger hb]
  exact decide_eq_false (Int.ne_of_gt h.1)

/-! ## One integer type -/

theorem checkComparable_of_eq (h : u.dataType = v.dataType) : u.checkComparable v = true := by
  simp [checkComparable, h]

theorem copy_of_integer (ht : t.isInteger = true) (h : v.dataType = t) :
    v.copy = .ok (ofInteger t v.number) := by
  subst h
  cases hv : v.dataType <;> simp_all [DataType.isInteger, copy]

theorem Carries.copy (ht : t.isInteger = true) (h : Carries t x v) (hx : x ≠ t.nullNumber) :
    ∃ v', v.copy = .ok v' ∧ Carries t x v' := by
  obtain ⟨hle, hlt⟩ := h.bounds
  refine ⟨_, copy_of_integer ht h.dataType, ?_⟩
  rw [h.number]
  exact carries_ofInteger ⟨by omega, hlt⟩

theorem Carries.copy_null (ht : t.isInteger = true) (h : Carries t t.nullNumber v) :
    ∃ v', v.copy = .ok v' ∧ v'.dataType = t ∧ v'.isNull = true := by
  refine ⟨_, copy_of_integer ht h.dataType, rfl, ?_⟩
  rw [h.number, isNull_ofInteger (h.number ▸ h.bounds)]
  exact decide_eq_true rfl

theorem compare_of_integer (op : CmpOp) (ht : t.isInteger = true) (hu : Carries t x u)
    (hv : Carries t y v) : compare op u v = .ok (getCmpBool (op.apply x y)) := by
  have hcmp : compare op u v = compareNumber op u v := by
    rw [compare, hu.dataType]
    cases t <;> simp_all [DataType.isInteger]
  rw [hcmp, compareNumber, compareInlined, checkComparable_of_eq (hu.dataType.trans hv.dataType.symm),
    hu.notNull, hv.notNull, hu.number, hv.number]
  rfl

theorem operateNull_of_integer (ht : t.isInteger = true) (hu : u.dataType = t)
    (hv : v.dataType = t) : ∃ n, u.operateNull v = .ok n ∧ n.dataType = t ∧ n.isNull = true := by
  rw [operateNull, hu, hv]
  cases t <;> first | exact absurd ht (by decide) | exact ⟨_, rfl, rfl, by decide⟩

theorem operate_of_carries {op : Value → Value → Except Fault Value} (hu : Carries t x u)
    (hv : Carries t y v) : operate op u v = op u v := by
  rw [operate, checkComparable_of_eq (hu.dataType.trans hv.dataType.symm), hu.notNull, hv.notNull]
  rfl

theorem operate_null {op : Value → Value → Except Fault Value} (ht : t.isInteger = true)
    (hu : u.dataType = t) (hv : v.dataType = t) (hnull : u.isNull = true) :
    ∃ n, operate op u v = .ok n ∧ n.dataType = t ∧ n.isNull = true := by
  obtain ⟨n, hn, htype, hnull'⟩ := operateNull_of_integer ht hu hv
  refine ⟨n, ?_, htype, hnull'⟩
  rw [operate, checkComparable_of_eq (hu.trans hv.symm), hnull, ← hn]
  rfl

theorem addNumbers_of_inRange (hsum : t.InRange (x + y)) :
    addNumbers t t x y = .ok (ofInteger t (x + y)) := by
  have hnum := toInt_ofInt_of_bounds ⟨Int.le_of_lt hsum.1, hsum.2⟩
  have hpow : (2 : Int) ^ (t.width - 1) ≤ 2 ^ (Nat.max 32 (Nat.max t.width t.width) - 1) := by
    have hle : t.width ≤ Nat.max 32 (Nat.max t.width t.width) :=
      Nat.le_trans (Nat.le_max_left ..) (Nat.le_max_right ..)
    exact_mod_cast Nat.pow_le_pow_right (by decide : 0 < 2) (Nat.sub_le_sub_right hle 1)
  obtain ⟨hlo, hhi⟩ := hsum
  rw [DataType.nullNumber] at hlo hhi
  rw [addNumbers, if_neg (by omega)]
  simp only [hnum, ne_eq, not_true_eq_false, and_self, if_false, Nat.le_refl, if_true]
  rw [if_neg (by omega)]

theorem Carries.add (addDouble : BitVec 64 → BitVec 64 → BitVec 64) (ht : t.isInteger = true)
    (hu : Carries t x u) (hv : Carries t y v) (hsum : t.InRange (x + y)) :
    ∃ s, u.add addDouble v = .ok s ∧ Carries t (x + y) s := by
  have hadd : u.add addDouble v = addValue u v := by
    rw [Value.add, hu.dataType]
    cases t <;> first | exact absurd ht (by decide) | exact operate_of_carries hu hv
  refine ⟨ofInteger t (x + y), ?_, carries_ofInteger hsum⟩
  rw [hadd, addValue, hu.dataType, hv.dataType, hu.number, hv.number, addNumbers_of_inRange hsum]

theorem Carries.min (ht : t.isInteger = true) (hu : Carries t x u) (hv : Carries t y v) :
    u.min v = if x < y then u.copy else v.copy := by
  have hmin : u.min v = choose compareLessThan u v := by
    rw [Value.min, hu.dataType]
    cases t <;> first | exact absurd ht (by decide) | exact operate_of_carries hu hv
  rw [hmin, choose, compareLessThan, compare_of_integer .lt ht hu hv]
  by_cases h : x < y <;> simp [CmpOp.apply, h, getCmpBool, ok_bind]

theorem Carries.max (ht : t.isInteger = true) (hu : Carries t x u) (hv : Carries t y v) :
    u.max v = if y < x then u.copy else v.copy := by
  have hmax : u.max v = choose compareGreaterThan u v := by
    rw [Value.max, hu.dataType]
    cases t <;> first | exact absurd ht (by decide) | exact operate_of_carries hu hv
  rw [hmax, choose, compareGreaterThan, compare_of_integer .gt ht hu hv]
  by_cases h : y < x <;> simp [CmpOp.apply, h, getCmpBool, ok_bind]

theorem min_null (ht : t.isInteger = true) (hu : u.dataType = t) (hv : v.dataType = t)
    (hnull : u.isNull = true) : ∃ n, u.min v = .ok n ∧ n.dataType = t ∧ n.isNull = true := by
  have hmin : u.min v = operate (choose compareLessThan) u v := by
    rw [Value.min, hu]
    cases t <;> first | exact absurd ht (by decide) | rfl
  rw [hmin]
  exact operate_null ht hu hv hnull

theorem max_null (ht : t.isInteger = true) (hu : u.dataType = t) (hv : v.dataType = t)
    (hnull : u.isNull = true) : ∃ n, u.max v = .ok n ∧ n.dataType = t ∧ n.isNull = true := by
  have hmax : u.max v = operate (choose compareGreaterThan) u v := by
    rw [Value.max, hu]
    cases t <;> first | exact absurd ht (by decide) | rfl
  rw [hmax]
  exact operate_null ht hu hv hnull

end Value

end TurtleDb.Datatype
