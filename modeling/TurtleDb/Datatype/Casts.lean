import TurtleDb.Datatype.IntegerTheorems

/-!
# Casts between the integer types

`cast_as` of `TinyintType`, `SmallintType`, `IntegerType` and `BigintType`, and `get_common_type`.
The numbers go through every cast that has room for them, and the comparisons are those of the
integers before and after.
-/

namespace TurtleDb.Datatype

open TurtleDb.Lib

namespace DataType

/-- `data_type_to_string`. -/
def name : DataType → String
  | .boolean => "BOOLEAN"
  | .integer => "INTEGER"
  | .tinyint => "TINYINT"
  | .smallint => "SMALLINT"
  | .bigint => "BIGINT"
  | .decimal => "DECIMAL"
  | .varchar => "VARCHAR"
  | .timestamp => "TIMESTAMP"

/-- `rank` in `get_common_type`. -/
def rank : DataType → Option Nat
  | .tinyint => some 1
  | .smallint => some 2
  | .integer => some 3
  | .bigint => some 4
  | .decimal => some 5
  | .boolean | .varchar | .timestamp => none

end DataType

def getCommonType (t1 t2 : DataType) : Except Fault DataType :=
  if t1 = t2 then .ok t1
  else
    match t1.rank, t2.rank with
    | some r1, some r2 => .ok (if r2 ≤ r1 then t1 else t2)
    | _, _ => .error (.raised "Incompatible types for numeric operation")

/-- What a comparison with `op` answers: nothing is known of NULL. -/
def CmpOp.answer (op : CmpOp) : Option Int → Option Int → CmpBool
  | some x, some y => getCmpBool (op.apply x y)
  | _, _ => .cmpNull

namespace Value

/-- `std::to_string`. -/
def digits (x : Int) : List UInt8 := (toString x).toUTF8.toList

/-- A cast to an integer type. Only the narrower types ask for the range. -/
def castNumber (v : Value) (t : DataType) : Except Fault Value :=
  if v.isNull then .ok (ofInteger t t.nullNumber)
  else if t.width < v.dataType.width ∧ ¬ t.InRange v.number then
    .error (.raised "Numeric value out of range.")
  else .ok (ofInteger t v.number)

/-- The switch of the four classes. `toDouble` converts to `double`, `varchar` says whether the
class makes a string, and `uncoercable` is the text of the error behind the switch. -/
def castInteger (toDouble : Int → BitVec 64) (varchar : Bool) (uncoercable : String) (v : Value)
    (t : DataType) : Except Fault Value :=
  match t with
  | .tinyint | .smallint | .integer | .bigint => castNumber v t
  | .decimal =>
      .ok (ofDouble .decimal (if v.isNull then 0xFFEFFFFFFFFFFFFF#64 else toDouble v.number))
  | .varchar =>
      if v.isNull then .ok (null .varchar)
      else if varchar then .ok (ofChars .varchar (digits v.number))
      else .error (.raised uncoercable)
  | .boolean | .timestamp => .error (.raised uncoercable)

def tinyintCastAs (toDouble : Int → BitVec 64) (v : Value) (t : DataType) : Except Fault Value :=
  castInteger toDouble true ("tinyint is not coercable to " ++ t.name) v t

def smallintCastAs (toDouble : Int → BitVec 64) (v : Value) (t : DataType) : Except Fault Value :=
  castInteger toDouble true ("smallint is not coercable to " ++ t.name) v t

/-- The line that makes the string is commented out. -/
def integerCastAs (toDouble : Int → BitVec 64) (v : Value) (t : DataType) : Except Fault Value :=
  castInteger toDouble false "Integer is not coercable." v t

def bigintCastAs (toDouble : Int → BitVec 64) (v : Value) (t : DataType) : Except Fault Value :=
  castInteger toDouble true ("bigint is not coercable to " ++ t.name) v t

/-- `cast_as`. `others` are the casts of the types that are no integers. -/
def castAs (toDouble : Int → BitVec 64) (others : Value → DataType → Except Fault Value) (v : Value)
    (t : DataType) : Except Fault Value :=
  match v.dataType with
  | .tinyint => tinyintCastAs toDouble v t
  | .smallint => smallintCastAs toDouble v t
  | .integer => integerCastAs toDouble v t
  | .bigint => bigintCastAs toDouble v t
  | .boolean | .decimal | .varchar | .timestamp => others v t

/-! ## NULL or a number -/

/-- `v` is of type `t`, and NULL or the number `a`. -/
def Represents (t : DataType) : Option Int → Value → Prop
  | none, v => v.dataType = t ∧ v.isNull = true
  | some x, v => Carries t x v

/-- The numbers a column of type `t` may hold. -/
def Legal (t : DataType) (a : Option Int) : Prop := ∀ x ∈ a, t.InRange x

variable {s t : DataType} {x y : Int} {a b : Option Int} {u v w : Value}

theorem Represents.dataType (h : Represents t a v) : v.dataType = t := by
  cases a with
  | none => exact h.1
  | some x => exact Carries.dataType h

theorem Represents.isNull (h : Represents t a v) : v.isNull = a.isNone := by
  cases a with
  | none => exact h.2
  | some x => exact Carries.notNull h

theorem represents_ofInteger_null (t : DataType) :
    Represents t none (ofInteger t t.nullNumber) := by
  have hneg : t.nullNumber < -t.nullNumber := by cases t <;> decide
  refine ⟨rfl, ?_⟩
  rw [isNull_ofInteger ⟨Int.le_refl _, hneg⟩]
  exact decide_eq_true rfl

/-! ## Comparisons -/

theorem compare_of_represents (op : CmpOp) (hs : s.isInteger = true) (ht : t.isInteger = true)
    (hu : Represents s a u) (hv : Represents t b v) :
    compare op u v = .ok (op.answer a b) := by
  have hcmp : compare op u v = compareNumber op u v := by
    rw [compare, hu.dataType]
    cases s <;> first | exact absurd hs (by decide) | rfl
  rw [hcmp, compareNumber, compareInlined,
    IntegerParentType.checkComparable_of_integers hs ht hu.dataType hv.dataType, hu.isNull,
    hv.isNull]
  cases a with
  | none => rfl
  | some x =>
      cases b with
      | none => rfl
      | some y =>
          rw [Carries.number hu, Carries.number hv]
          rfl

/-! ## Casts -/

variable {toDouble : Int → BitVec 64} {others : Value → DataType → Except Fault Value}

theorem castAs_eq_castNumber (hs : s.isInteger = true) (ht : t.isInteger = true)
    (hv : v.dataType = s) : castAs toDouble others v t = castNumber v t := by
  rw [castAs, hv]
  cases s <;> first
    | exact absurd hs (by decide)
    | cases t <;> first | exact absurd ht (by decide) | rfl

theorem InRange.mono (h : s.InRange x) (hle : s.width ≤ t.width) : t.InRange x := by
  obtain ⟨hlo, hhi⟩ := abs_lt.mp (IntegerParentType.abs_lt_of_inRange h hle)
  refine ⟨hlo, ?_⟩
  rw [DataType.nullNumber, Int.neg_neg]
  exact hhi

theorem castNumber_null (h : v.isNull = true) :
    castNumber v t = .ok (ofInteger t t.nullNumber) := by
  rw [castNumber, h]
  rfl

/-- A number in the range of the new type is kept: a wider type has room for all of them. -/
theorem castNumber_of_inRange (h : Carries s x v) (hx : t.InRange x) :
    castNumber v t = .ok (ofInteger t x) := by
  rw [castNumber, h.notNull, h.number]
  simp [hx]

theorem castNumber_of_not_inRange (h : Carries s x v) (hs : s.InRange x) (hx : ¬ t.InRange x) :
    castNumber v t = .error (.raised "Numeric value out of range.") := by
  have hlt : t.width < s.width := by
    by_contra hle
    exact hx (InRange.mono hs (Nat.le_of_not_lt hle))
  rw [castNumber, h.notNull, h.number, h.dataType]
  simp [hx, hlt]

/-- What a cast to type `t` makes of NULL or the number `a`: the same in type `t`, or an exception
if the number is not one of `t`. -/
def CastTo (t : DataType) (a : Option Int) (r : Except Fault Value) : Prop :=
  (Legal t a → ∃ w, r = .ok w ∧ Represents t a w) ∧ (¬ Legal t a → ∃ m, r = .error (.raised m))

theorem castNumber_castTo (ha : Legal s a) (hv : Represents s a v) :
    CastTo t a (castNumber v t) := by
  cases a with
  | none => exact ⟨fun _ => ⟨_, castNumber_null hv.2, represents_ofInteger_null t⟩,
      fun h => absurd (fun x hx => nomatch hx) h⟩
  | some x =>
      have hx : s.InRange x := ha x rfl
      have hiff : Legal t (some x) ↔ t.InRange x :=
        ⟨fun h => h x rfl, fun h y hy => Option.mem_some.mp hy ▸ h⟩
      rw [CastTo, hiff]
      exact ⟨fun h => ⟨_, castNumber_of_inRange hv h, carries_ofInteger h⟩,
        fun h => ⟨_, castNumber_of_not_inRange hv hx h⟩⟩

theorem CastTo.legal {r : Except Fault Value} (h : CastTo t a r) (hr : r = .ok w) :
    Legal t a ∧ Represents t a w := by
  by_cases hl : Legal t a
  · obtain ⟨w', hw', hrep⟩ := h.1 hl
    cases hr.symm.trans hw'
    exact ⟨hl, hrep⟩
  · obtain ⟨m, hm⟩ := h.2 hl
    cases hr.symm.trans hm

theorem getCommonType_of_integers (hs : s.isInteger = true) (ht : t.isInteger = true) :
    ∃ c, getCommonType s t = .ok c ∧ c.isInteger = true ∧ s.width ≤ c.width ∧
      t.width ≤ c.width := by
  cases s <;> first
    | exact absurd hs (by decide)
    | cases t <;> first
      | exact absurd ht (by decide)
      | exact ⟨_, rfl, by decide, by decide, by decide⟩

theorem Legal.mono (h : Legal s a) (hle : s.width ≤ t.width) : Legal t a :=
  fun x hx => InRange.mono (h x hx) hle

/-- The comparisons of the integer types are those of the integers, also after both values are cast
to the common type. A cast keeps NULL and every number the new type has, raises for the others, and
is undone by the cast back. -/
theorem integers_agree (toDouble : Int → BitVec 64)
    (others : Value → DataType → Except Fault Value) (s t : DataType) (hs : s.isInteger = true)
    (ht : t.isInteger = true) (a b : Option Int) (ha : Legal s a) (hb : Legal t b) (u v : Value)
    (hu : Represents s a u) (hv : Represents t b v) :
    (∀ op, compare op u v = .ok (op.answer a b)) ∧
      (∃ c u' v', getCommonType s t = .ok c ∧ castAs toDouble others u c = .ok u' ∧
        castAs toDouble others v c = .ok v' ∧ ∀ op, compare op u' v' = compare op u v) ∧
      CastTo t a (castAs toDouble others u t) ∧
      ∀ w, castAs toDouble others u t = .ok w →
        ∃ u', castAs toDouble others w s = .ok u' ∧ Represents s a u' := by
  refine ⟨fun op => compare_of_represents op hs ht hu hv, ?_, ?_, ?_⟩
  · obtain ⟨c, hc, hint, hsc, htc⟩ := getCommonType_of_integers hs ht
    obtain ⟨u', hu', hru⟩ := (castNumber_castTo ha hu).1 (ha.mono hsc)
    obtain ⟨v', hv', hrv⟩ := (castNumber_castTo hb hv).1 (hb.mono htc)
    refine ⟨c, u', v', hc, ?_, ?_, fun op => ?_⟩
    · rw [castAs_eq_castNumber hs hint hu.dataType, hu']
    · rw [castAs_eq_castNumber ht hint hv.dataType, hv']
    · rw [compare_of_represents op hs ht hu hv, compare_of_represents op hint hint hru hrv]
  · rw [castAs_eq_castNumber hs ht hu.dataType]
    exact castNumber_castTo ha hu
  · intro w hw
    rw [castAs_eq_castNumber hs ht hu.dataType] at hw
    obtain ⟨hl, hrep⟩ := (castNumber_castTo ha hu).legal hw
    rw [castAs_eq_castNumber ht hs hrep.dataType]
    exact (castNumber_castTo hl hrep).1 ha

/-- 300 is no `TINYINT`. -/
theorem integers_agree_bigint :
    CastTo .tinyint (some 300) (castAs (fun _ => 0) (fun v _ => .ok v) (ofInteger .bigint 300)
      .tinyint) :=
  (integers_agree (fun _ => 0) (fun v _ => .ok v) .bigint .tinyint rfl rfl (some 300) none
    (by intro x hx; cases hx; decide) (by intro x hx; cases hx) _ _
    (carries_ofInteger (by decide)) (represents_ofInteger_null .tinyint)).2.2.1

end Value

end TurtleDb.Datatype
