import TurtleDb.Execution.Filter

/-!
# Three-valued logic

The meaning of an expression is a number or nothing, with 0 and 1 for false and true and nothing for
NULL. Comparisons are those of the numbers, and AND and OR are Kleene's. The code evaluates an
expression to its meaning, and a filter keeps the rows on which it is true.
-/

namespace TurtleDb.Execution

open TurtleDb.Lib TurtleDb.Table TurtleDb.Datatype

/-! ## The meaning of an expression -/

/-- `none` is unknown. -/
abbrev Truth := Option Bool

namespace Truth

def and : Truth → Truth → Truth
  | some false, _ => some false
  | _, some false => some false
  | some true, some true => some true
  | _, _ => none

def or : Truth → Truth → Truth
  | some true, _ => some true
  | _, some true => some true
  | some false, some false => some false
  | _, _ => none

def ofNumber (n : Option Int) : Truth := n.map fun a => decide (a ≠ 0)

def toNumber (t : Truth) : Option Int := t.map fun b => if b then 1 else 0

end Truth

def ComparisonType.holds (compType : ComparisonType) (a b : Int) : Bool :=
  match compType with
  | .equal => a = b
  | .notEqual => a ≠ b
  | .lessThan => a < b
  | .lessThanOrEqual => a ≤ b
  | .greaterThan => a > b
  | .greaterThanOrEqual => a ≥ b

def LogicType.apply : LogicType → Truth → Truth → Truth
  | .and => Truth.and
  | .or => Truth.or

/-- The number a value stands for, unless it is NULL. -/
def known (v : Value) : Option Int := if v.isNull then none else some v.number

def denote (schema : ColumnSchema) (tuple : Tuple) : Expression → Option Int
  | .constantValue value => known value
  | .columnValue _ colIdx _ =>
      match tuple.value schema colIdx with
      | .ok value => known value
      | .error _ => none
  | .comparison left right compType => do
      let a ← denote schema tuple left
      let b ← denote schema tuple right
      Truth.toNumber (some (compType.holds a b))
  | .logic left right logicType =>
      (logicType.apply (Truth.ofNumber (denote schema tuple left))
        (Truth.ofNumber (denote schema tuple right))).toNumber

/-- The truth value of a condition on a row. -/
def truth (schema : ColumnSchema) (tuple : Tuple) (e : Expression) : Truth :=
  Truth.ofNumber (denote schema tuple e)

/-! ## The expressions considered -/

inductive ExprSort where
  | number
  | truth
  deriving DecidableEq, Repr

/-- A value of an integer type, or a `BOOLEAN` that is NULL, 0 or 1. -/
def OfSort (v : Value) : ExprSort → Prop
  | .number => v.checkInteger = true
  | .truth => v.dataType = .boolean ∧ (v.isNull = true ∨ v.getAs 8 = 0 ∨ v.getAs 8 = 1)

instance (v : Value) : (s : ExprSort) → Decidable (OfSort v s)
  | .number => inferInstanceAs (Decidable (v.checkInteger = true))
  | .truth => inferInstanceAs (Decidable (_ ∧ _))

/-- Trees, as their constructors build them, that compare numbers with numbers or truth values with
truth values, over a row whose columns are read without an exception. -/
inductive HasSort (schema : ColumnSchema) (tuple : Tuple) : Expression → ExprSort → Prop where
  | constantValue {v : Value} {s : ExprSort} (h : OfSort v s) :
      HasSort schema tuple (.constantValue v) s
  | columnValue {tupleIdx colIdx : Nat} {retType : DataType} {v : Value} {s : ExprSort}
      (hv : tuple.value schema colIdx = .ok v) (h : OfSort v s) :
      HasSort schema tuple (.columnValue tupleIdx colIdx retType) s
  | comparison {l r : Expression} {t : ComparisonType} {s : ExprSort}
      (hl : HasSort schema tuple l s) (hr : HasSort schema tuple r s) :
      HasSort schema tuple (.comparison l r t) .truth
  | logic {l r e : Expression} {t : LogicType} (hl : HasSort schema tuple l .truth)
      (hr : HasSort schema tuple r .truth) (he : Expression.logicExpression l r t = .ok e) :
      HasSort schema tuple e .truth

/-! ## The nodes of the tree -/

/-- The number of a state, as `get_boolean_value` encodes it. -/
def CmpBool.known : CmpBool → Option Int
  | .cmpFalse => some 0
  | .cmpTrue => some 1
  | .cmpNull => none

theorem known_getBooleanValue (c : CmpBool) : known (getBooleanValue c) = CmpBool.known c := by
  cases c <;> rfl

theorem ofSort_getBooleanValue (c : CmpBool) : OfSort (getBooleanValue c) .truth := by
  cases c <;> decide

theorem known_getCmpBool (b : Bool) : CmpBool.known (getCmpBool b) = Truth.toNumber (some b) := by
  cases b <;> rfl

/-- The operator a comparison hands down to the type classes. -/
def ComparisonType.op : ComparisonType → CmpOp
  | .equal => .eq
  | .notEqual => .ne
  | .lessThan => .lt
  | .lessThanOrEqual => .le
  | .greaterThan => .gt
  | .greaterThanOrEqual => .ge

theorem performComparison_eq (t : ComparisonType) (l r : Value) :
    Expression.performComparison t l r = Value.compare t.op l r := by
  cases t <;> rfl

theorem apply_op (t : ComparisonType) (a b : Int) : t.op.apply a b = t.holds a b := by
  cases t <;> rfl

theorem compare_ofSort {l r : Value} {s : ExprSort} (hl : OfSort l s) (hr : OfSort r s)
    (op : CmpOp) : Value.compare op l r = Value.compareNumber op l r ∧
      l.checkComparable r = true := by
  cases s with
  | number =>
      have hl : l.checkInteger = true := hl
      have hr : r.checkInteger = true := hr
      constructor
      · simp only [Value.checkInteger, Bool.or_eq_true, decide_eq_true_eq] at hl
        rcases hl with ((h | h) | h) | h <;> simp only [Value.compare, h]
      · simp [Value.checkComparable, hl, hr]
  | truth =>
      constructor
      · simp only [Value.compare, hl.1]
      · simp [Value.checkComparable, hl.1, hr.1]

theorem performComparison_ok {l r : Value} {s : ExprSort} (hl : OfSort l s) (hr : OfSort r s)
    (t : ComparisonType) : ∃ c, Expression.performComparison t l r = .ok c ∧
      CmpBool.known c = (do
        let a ← known l
        let b ← known r
        Truth.toNumber (some (t.holds a b))) := by
  obtain ⟨hcmp, hcomparable⟩ := compare_ofSort hl hr t.op
  rw [performComparison_eq, hcmp, Value.compareNumber, Value.compareInlined, hcomparable]
  cases hnl : l.isNull with
  | true => exact ⟨.cmpNull, by simp, by simp [known, hnl, CmpBool.known]⟩
  | false =>
      cases hnr : r.isNull with
      | true => exact ⟨.cmpNull, by simp, by simp [known, hnl, hnr, CmpBool.known]⟩
      | false =>
          refine ⟨getCmpBool (t.op.apply l.number r.number), by simp, ?_⟩
          rw [known_getCmpBool, apply_op]
          simp [known, hnl, hnr]

/-- What a truth value stands for is what `get_as<bool>` reads, unless it is NULL. -/
theorem ofNumber_known {v : Value} (h : OfSort v .truth) :
    Truth.ofNumber (known v) = if v.isNull then none else some (asBool v) := by
  obtain ⟨ht, hv⟩ := h
  have hnum : v.number = (v.getAs 8).toInt := by rw [Value.number, ht]; rfl
  rw [known]
  cases hn : v.isNull with
  | true => rfl
  | false =>
      rw [hn] at hv
      rcases hv with hv | hv | hv
      · cases hv
      · simp [Truth.ofNumber, hnum, asBool, hv]
      · simp [Truth.ofNumber, hnum, asBool, hv]

theorem getBoolAsCmpBool_eq {v : Value} (h : OfSort v .truth) :
    Expression.getBoolAsCmpBool v =
      match Truth.ofNumber (known v) with
      | none => .cmpNull
      | some b => getCmpBool b := by
  rw [ofNumber_known h, Expression.getBoolAsCmpBool]
  cases v.isNull <;> rfl

theorem performComputation_eq {l r : Value} (hl : OfSort l .truth) (hr : OfSort r .truth)
    (t : LogicType) : CmpBool.known (Expression.performComputation t l r) =
      (t.apply (Truth.ofNumber (known l)) (Truth.ofNumber (known r))).toNumber := by
  unfold Expression.performComputation
  rw [getBoolAsCmpBool_eq hl, getBoolAsCmpBool_eq hr]
  rcases Truth.ofNumber (known l) with _ | (_ | _) <;>
    rcases Truth.ofNumber (known r) with _ | (_ | _) <;> cases t <;> rfl

/-! ## Evaluation -/

theorem HasSort.evaluate {schema : ColumnSchema} {tuple : Tuple} {e : Expression} {s : ExprSort}
    (h : HasSort schema tuple e s) :
    ∃ v, e.evaluate schema tuple = .ok v ∧ OfSort v s ∧ known v = denote schema tuple e := by
  induction h with
  | @constantValue v s h => exact ⟨v, rfl, h, rfl⟩
  | @columnValue tupleIdx colIdx retType v s hv h =>
      exact ⟨v, hv, h, by simp only [denote, hv]⟩
  | @comparison l r t s hl hr ihl ihr =>
      obtain ⟨u, hu, hus, hud⟩ := ihl
      obtain ⟨v, hv, hvs, hvd⟩ := ihr
      obtain ⟨c, hc, hcd⟩ := performComparison_ok hus hvs t
      refine ⟨getBooleanValue c, ?_, ofSort_getBooleanValue c, ?_⟩
      · simp only [Expression.evaluate, hu, hv, hc, ok_bind]
        rfl
      · rw [known_getBooleanValue, hcd, hud, hvd, denote]
  | @logic l r e t hl hr he ihl ihr =>
      obtain ⟨u, hu, hus, hud⟩ := ihl
      obtain ⟨v, hv, hvs, hvd⟩ := ihr
      rw [Expression.logicExpression] at he
      split at he
      · cases he
      · cases he
        refine ⟨getBooleanValue (Expression.performComputation t u v), ?_,
          ofSort_getBooleanValue _, ?_⟩
        · simp only [Expression.evaluate, hu, hv, ok_bind]
          rfl
        · rw [known_getBooleanValue, performComputation_eq hus hvs, hud, hvd, denote]

theorem passes_eq {schema : ColumnSchema} {tuple : Tuple} {e : Expression}
    (h : HasSort schema tuple e .truth) :
    FilterExecutor.passes (some fun t => e.evaluate schema t) tuple =
      .ok (truth schema tuple e = some true) := by
  obtain ⟨v, hv, hs, hd⟩ := h.evaluate
  simp only [FilterExecutor.passes, hv, ok_bind, truth, ← hd, ofNumber_known hs]
  cases v.isNull <;> cases asBool v <;> rfl

/-- A condition evaluates to a `BOOLEAN` with the truth value of the row, and a filter over any
child, asked for batches of any sizes, gives the rows on which the condition is true. -/
theorem evaluates_three_valued (schema : ColumnSchema) (e : Expression) :
    (∀ tuple, HasSort schema tuple e .truth → ∃ v, e.evaluate schema tuple = .ok v ∧
      v.dataType = .boolean ∧ (if v.isNull then none else some (asBool v)) =
        truth schema tuple e) ∧
    ∀ (σ : Type) (child : AbstractExecutor σ) (rest : σ → List Row), Delivers child rest →
      ∀ (size : Nat → Nat), (∀ i, 1 ≤ size i) → ∀ (c : σ) (fuel : Nat), (rest c).length < fuel →
        (∀ row ∈ rest c, HasSort schema row.1 e .truth) →
        Yields (FilterExecutor.next (some fun t => e.evaluate schema t) child fuel) size
          (FilterExecutor.start c)
          ((rest c).filter fun row => truth schema row.1 e = some true) := by
  constructor
  · intro tuple h
    obtain ⟨v, hv, hs, hd⟩ := h.evaluate
    exact ⟨v, hv, hs.1, by rw [truth, ← hd, ofNumber_known hs]⟩
  · intro σ child rest hchild size hsize c fuel hfuel h
    have hdecides : FilterExecutor.Decides (some fun t => e.evaluate schema t)
        (fun row => truth schema row.1 e = some true) (rest c) :=
      fun row hrow => passes_eq (h row hrow)
    exact (FilterExecutor.flows hchild.serves).yields (.start rfl hfuel hdecides)
      hsize

/-- `a > 3 OR b` on a row with `a = 5` and `b` NULL. -/
theorem evaluates_three_valued_row :
    let schema : ColumnSchema := [⟨"a", .integer, 4⟩, ⟨"b", .boolean, 1⟩]
    let row : Row := (⟨[2, 5, 0, 0, 0, 0], ⟨0, 0⟩⟩, ⟨0, 0⟩)
    let e : Expression := .logic (.comparison (.columnValue 0 0 .integer)
      (.constantValue (Value.ofInt16 .smallint 3)) .greaterThan) (.columnValue 0 1 .boolean) .or
    (∃ v, e.evaluate schema row.1 = .ok v ∧ v.dataType = .boolean ∧
      (if v.isNull then none else some (asBool v)) = truth schema row.1 e) ∧
    Yields (FilterExecutor.next (some fun t => e.evaluate schema t) listSource 2) (fun _ => 1)
      (FilterExecutor.start [row])
      ((id [row]).filter fun row => truth schema row.1 e = some true) := by
  intro schema row e
  have hvalue : Tuple.value ⟨[2, 5, 0, 0, 0, 0], ⟨0, 0⟩⟩
      [⟨"a", .integer, 4⟩, ⟨"b", .boolean, 1⟩] 0 = .ok (Value.ofInt32 .integer 5) := by decide
  have hnull : Tuple.value ⟨[2, 5, 0, 0, 0, 0], ⟨0, 0⟩⟩
      [⟨"a", .integer, 4⟩, ⟨"b", .boolean, 1⟩] 1 = .ok (Value.null .boolean) := by decide
  have ha : HasSort schema row.1 (.columnValue 0 0 .integer) .number :=
    .columnValue hvalue (by decide)
  have hb : HasSort schema row.1 (.columnValue 0 1 .boolean) .truth :=
    .columnValue hnull (by decide)
  have hc : HasSort schema row.1 (.constantValue (Value.ofInt16 .smallint 3)) .number :=
    .constantValue (by decide)
  have hsort : HasSort schema row.1 e .truth :=
    .logic (t := .or) (.comparison (t := .greaterThan) ha hc) hb rfl
  refine ⟨(evaluates_three_valued schema e).1 row.1 hsort,
    (evaluates_three_valued schema e).2 _ listSource id listSource_delivers (fun _ => 1)
      (fun _ => Nat.le_refl 1) [row] 2 (by decide) ?_⟩
  intro r hr
  cases List.mem_singleton.mp hr
  exact hsort

end TurtleDb.Execution
