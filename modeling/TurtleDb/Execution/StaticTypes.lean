import TurtleDb.Execution.ExpressionTrees
import TurtleDb.Table.Codec

/-!
# The type of an expression and the type of its value

The constructors infer a return type from a table of ranks, the operations choose the type of their
result by the sizes of the operands, and `operate_null` has a table of its own for each type. The
three agree but for `TINYINT` with `SMALLINT`, where a NULL is an `INTEGER`.
-/

namespace TurtleDb.Execution

open TurtleDb.Lib TurtleDb.Table TurtleDb.Datatype IntegerParentType

/-- What is read at an index is of the type of the column there. -/
def ReadsTypes (schema : ColumnSchema) (tuple : Reader) : Prop :=
  ∀ i v, tuple i = .ok v → ∀ c, schema[i]? = some c → v.dataType = c.type

theorem TypedRow.reads (row : TypedRow) : ReadsTypes row.schema row.value := by
  intro i v hv c hc
  rw [TypedRow.value] at hv
  split at hv
  next => cases hv
  next hget =>
    cases hv
    have htyped := congrArg (·[i]?) row.typed
    simp only [List.getElem?_map, hget, hc, Option.map_some, Option.some.injEq] at htyped
    exact htyped

/-! ## The result of one operation -/

section Operations

variable {s t : DataType} {x y : Int} {u v w : Value}

theorem dataType_of_dividedValue {op : Nat → Int → Int → Except Fault Int}
    (h : dividedValue s t x y op = .ok w) : w.dataType = wider s t := by
  rw [dividedValue] at h
  split at h
  · cases h
  · obtain ⟨word, -, h⟩ := bind_eq_ok.mp h
    rw [wider]
    split at h
    next hle =>
      cases h
      rw [if_pos hle]
      rfl
    next hle =>
      cases h
      rw [if_neg hle]
      rfl

/-- The method answers in the wider type. -/
def ChoosesWider (method : Operation) : Prop :=
  ∀ u v w, method u v = .ok w → w.dataType = wider u.dataType v.dataType

theorem choosesWider_onNumbers {method : DataType → DataType → Int → Int → Except Fault Value}
    (h : ∀ s t x y w, method s t x y = .ok w → w.dataType = wider s t) :
    ChoosesWider (onNumbers method) :=
  fun u v w => h u.dataType v.dataType u.number v.number w

theorem choosesWider_unlessZero {method : Operation} (h : ChoosesWider method) :
    ChoosesWider (unlessZero method) := by
  intro u v w hw
  rw [unlessZero] at hw
  split at hw
  · cases hw
  · exact h u v w hw

/-- The NULL of the operation, or a number in the wider type. -/
theorem operate_cases {method : Operation} (hm : ChoosesWider method)
    (h : Value.operate method u v = .ok w) :
    if u.isNull || v.isNull then u.operateNull v = .ok w
    else w.dataType = wider u.dataType v.dataType := by
  rw [Value.operate] at h
  split at h
  · cases h
  · split at h
    next hn =>
      rw [if_pos hn]
      exact h
    next hn =>
      rw [if_neg hn]
      exact hm u v w h

/-- The type `operate_null` answers in. -/
def nullType (s t : DataType) : DataType :=
  if s = .tinyint ∧ t = .smallint then .integer else wider s t

theorem operateNull_cases (hs : u.dataType.isInteger = true) (ht : v.dataType.isInteger = true)
    (h : u.operateNull v = .ok w) :
    w.dataType = nullType u.dataType v.dataType ∧ w.isNull = true := by
  rw [Value.operateNull] at h
  cases hu : u.dataType <;> rw [hu] at hs <;> first
    | exact absurd hs (by decide)
    | cases hv : v.dataType <;> rw [hv] at ht <;> first
      | exact absurd ht (by decide)
      | (rw [hu, hv] at h; cases h; exact ⟨by decide, by decide⟩)

theorem getCommonType_eq_wider (hs : s.isInteger = true) (ht : t.isInteger = true) :
    getCommonType s t = .ok (wider s t) := by
  cases s <;> first
    | exact absurd hs (by decide)
    | cases t <;> first
      | exact absurd ht (by decide)
      | rfl

variable {decimals : ArithmeticType → Operation} {arithmeticType : ArithmeticType}

theorem performComputation_cases (hu : u.dataType.isInteger = true)
    (hv : v.dataType.isInteger = true)
    (h : ExpressionTree.performComputation decimals arithmeticType u v = .ok w) :
    if u.isNull || v.isNull then w.dataType = nullType u.dataType v.dataType ∧ w.isNull = true
    else w.dataType = wider u.dataType v.dataType := by
  have hdispatch : ∀ {integers decimal : Operation} {noun : String},
      ExpressionTree.dispatch integers decimal noun u v = integers u v := by
    intro integers decimal noun
    rw [ExpressionTree.dispatch]
    cases hd : u.dataType <;> rw [hd] at hu <;> cases hu
  have hoperate : ∀ method : Operation, ChoosesWider method →
      Value.operate method u v = .ok w →
      if u.isNull || v.isNull then w.dataType = nullType u.dataType v.dataType ∧ w.isNull = true
      else w.dataType = wider u.dataType v.dataType := by
    intro method hm ho
    have hcases := operate_cases hm ho
    split at hcases
    next hn =>
      rw [if_pos hn]
      exact operateNull_cases hu hv hcases
    next hn =>
      rw [if_neg hn]
      exact hcases
  cases arithmeticType with
  | addition =>
      exact hoperate (onNumbers addNumbers)
        (choosesWider_onNumbers fun _ _ _ _ _ h => dataType_of_checkedValue h)
        (hdispatch.symm.trans h)
  | subtraction =>
      exact hoperate (onNumbers subtractNumbers)
        (choosesWider_onNumbers fun _ _ _ _ _ h => dataType_of_checkedValue h)
        (hdispatch.symm.trans h)
  | multiplication =>
      exact hoperate (onNumbers multiplyNumbers)
        (choosesWider_onNumbers fun _ _ _ _ _ h => dataType_of_checkedValue h)
        (hdispatch.symm.trans h)
  | division =>
      exact hoperate (unlessZero (onNumbers divideNumbers))
        (choosesWider_unlessZero
          (choosesWider_onNumbers fun _ _ _ _ _ h => dataType_of_dividedValue h))
        (hdispatch.symm.trans h)
  | modulo =>
      exact hoperate (unlessZero (onNumbers moduloNumbers))
        (choosesWider_unlessZero
          (choosesWider_onNumbers fun _ _ _ _ _ h => dataType_of_dividedValue h))
        (hdispatch.symm.trans h)
  | exponentiation => cases h
  | floorDivision => cases h

end Operations

/-! ## Trees -/

namespace ExpressionTree

/-- The trees the constructors build over a schema: a column is declared with the type it has there,
and arithmetic is over integers. -/
inductive Built (schema : ColumnSchema) : ExpressionTree → Prop where
  | constantValue (value : Value) : Built schema (.constantValue value)
  | columnValue {tupleIdx colIdx : Nat} {c : Column} (hc : schema[colIdx]? = some c) :
      Built schema (.columnValue tupleIdx colIdx c.type)
  | arithmetic {left right e : ExpressionTree} {arithmeticType : ArithmeticType}
      (hl : Built schema left) (hr : Built schema right)
      (hil : left.getReturnType.isInteger = true) (hir : right.getReturnType.isInteger = true)
      (he : arithmeticExpression left right arithmeticType = .ok e) : Built schema e
  | comparison {left right : ExpressionTree} {compType : ComparisonType}
      (hl : Built schema left) (hr : Built schema right) :
      Built schema (.comparison left right compType)
  | logic {left right e : ExpressionTree} {logicType : LogicType}
      (hl : Built schema left) (hr : Built schema right)
      (he : logicExpression left right logicType = .ok e) : Built schema e

variable (decimals : ArithmeticType → Operation) (tuple : Reader)

/-- The operand is NULL on this row. -/
def IsNullOn (e : ExpressionTree) : Prop :=
  ∃ v, e.evaluate decimals tuple = .ok v ∧ v.isNull = true

/-- Somewhere in the tree a `TINYINT` and, to its right, a `SMALLINT` are the operands of one
operation, one of them NULL, and from there on to the root every type is `SMALLINT`. -/
def MeetsNull : ExpressionTree → Prop
  | .arithmetic left right _ retType =>
      retType = .smallint ∧
        (left.MeetsNull ∨ right.MeetsNull ∨
          left.getReturnType = .tinyint ∧ right.getReturnType = .smallint ∧
            (left.IsNullOn decimals tuple ∨ right.IsNullOn decimals tuple))
  | .constantValue _ | .columnValue _ _ _ | .comparison _ _ _ | .logic _ _ _ => False

variable {decimals tuple}

theorem dataType_getBooleanValue (state : CmpBool) :
    (getBooleanValue state).dataType = .boolean := by
  cases state <;> rfl

/-- What the types of one operation are. `p` and `q` say that the operands are NULLs of type
`INTEGER` instead of `SMALLINT`, and `n` that one operand is NULL. -/
theorem node_types (s t : DataType) (p q n : Bool) (hs : s.isInteger = true)
    (ht : t.isInteger = true) (hp : p = true → s = .smallint ∧ n = true)
    (hq : q = true → t = .smallint ∧ n = true) :
    let s' := if p then .integer else s
    let t' := if q then .integer else t
    let result := if n then nullType s' t' else wider s' t'
    if wider s t = .smallint ∧ (p ∨ q ∨ s = .tinyint ∧ t = .smallint ∧ n) then
      result = .integer ∧ n = true
    else result = wider s t := by
  cases s <;> first
    | exact absurd hs (by decide)
    | cases t <;> first
      | exact absurd ht (by decide)
      | (cases n <;> cases p <;> cases q <;> first
          | decide
          | exact absurd (hp rfl) (by decide)
          | exact absurd (hq rfl) (by decide))

/-- What a tree evaluates to: a value of its type, or a NULL of type `INTEGER` instead of
`SMALLINT`. -/
def Outcome (decimals : ArithmeticType → Operation) (tuple : Reader) (e : ExpressionTree)
    (v : Value) : Prop :=
  e.MeetsNull decimals tuple ∧ e.getReturnType = .smallint ∧ v.dataType = .integer ∧
    v.isNull = true ∨
  ¬ e.MeetsNull decimals tuple ∧ v.dataType = e.getReturnType

theorem Outcome.flag {e : ExpressionTree} {v : Value} (h : Outcome decimals tuple e v) :
    ∃ p : Bool, (p = true ↔ e.MeetsNull decimals tuple) ∧
      v.dataType = (if p then .integer else e.getReturnType) ∧
      (p = true → e.getReturnType = .smallint ∧ v.isNull = true) := by
  rcases h with ⟨hm, hs, ht, hn⟩ | ⟨hm, ht⟩
  · exact ⟨true, by simp [hm], ht, fun _ => ⟨hs, hn⟩⟩
  · exact ⟨false, by simp [hm], ht, nofun⟩

theorem isNullOn_iff {e : ExpressionTree} {v : Value} (h : e.evaluate decimals tuple = .ok v) :
    e.IsNullOn decimals tuple ↔ v.isNull = true := by
  constructor
  · rintro ⟨v', hv', hn⟩
    cases h.symm.trans hv'
    exact hn
  · exact fun hn => ⟨v, h, hn⟩

theorem isInteger_of_flag {t : DataType} {p : Bool} (ht : t.isInteger = true) :
    (if p then DataType.integer else t).isInteger = true := by
  cases p
  · exact ht
  · rfl

theorem outcome_arithmetic {l r : ExpressionTree} {arithmeticType : ArithmeticType}
    {lv rv v : Value}
    (hil : l.getReturnType.isInteger = true) (hir : r.getReturnType.isInteger = true)
    (hl : l.evaluate decimals tuple = .ok lv) (hr : r.evaluate decimals tuple = .ok rv)
    (ol : Outcome decimals tuple l lv) (or : Outcome decimals tuple r rv)
    (hv : performComputation decimals arithmeticType lv rv = .ok v) :
    Outcome decimals tuple
      (.arithmetic l r arithmeticType (wider l.getReturnType r.getReturnType)) v := by
  obtain ⟨p, hp, htl, hpn⟩ := ol.flag
  obtain ⟨q, hq, htr, hqn⟩ := or.flag
  obtain ⟨n, hn⟩ : ∃ n, n = (lv.isNull || rv.isNull) := ⟨_, rfl⟩
  have hnull : n = true ↔ l.IsNullOn decimals tuple ∨ r.IsNullOn decimals tuple := by
    rw [isNullOn_iff hl, isNullOn_iff hr, hn, Bool.or_eq_true]
  have hcases := performComputation_cases (htl ▸ isInteger_of_flag hil)
    (htr ▸ isInteger_of_flag hir) hv
  have htypes := node_types l.getReturnType r.getReturnType p q n hil hir
    (fun h => ⟨(hpn h).1, by rw [hn, (hpn h).2, Bool.true_or]⟩)
    (fun h => ⟨(hqn h).1, by rw [hn, (hqn h).2, Bool.or_true]⟩)
  rw [← hn, htl, htr] at hcases
  have hresult : v.dataType = (if n then
        nullType (if p then .integer else l.getReturnType) (if q then .integer else r.getReturnType)
      else wider (if p then .integer else l.getReturnType)
        (if q then .integer else r.getReturnType)) ∧ (n = true → v.isNull = true) := by
    cases n with
    | true => exact ⟨hcases.1, fun _ => hcases.2⟩
    | false => exact ⟨hcases, nofun⟩
  have hmeets : MeetsNull decimals tuple
      (.arithmetic l r arithmeticType (wider l.getReturnType r.getReturnType)) ↔
      wider l.getReturnType r.getReturnType = .smallint ∧ (p = true ∨ q = true ∨
        l.getReturnType = .tinyint ∧ r.getReturnType = .smallint ∧ n = true) := by
    rw [MeetsNull, hp, hq, hnull]
  rw [Outcome, hmeets]
  dsimp only at htypes
  rw [← hresult.1] at htypes
  split at htypes
  next hbad => exact .inl ⟨hbad, hbad.1, htypes.1, hresult.2 htypes.2⟩
  next hgood => exact .inr ⟨hgood, htypes⟩

theorem Built.outcome {schema : ColumnSchema} (hreads : ReadsTypes schema tuple)
    {e : ExpressionTree} (hb : Built schema e) {v : Value} (hv : e.evaluate decimals tuple = .ok v) :
    Outcome decimals tuple e v := by
  induction hb generalizing v with
  | constantValue value =>
      cases hv
      exact .inr ⟨id, rfl⟩
  | columnValue hc => exact .inr ⟨id, hreads _ v hv _ hc⟩
  | arithmetic hl hr hil hir he ihl ihr =>
      rw [arithmeticExpression, inferReturnType] at he
      have hnum : ∀ {t : DataType}, t.isInteger = true → isNumeric t = true := by
        intro t ht
        cases t <;> first | exact absurd ht (by decide) | rfl
      simp only [hnum hil, hnum hir, Bool.not_true, Bool.or_self, Bool.false_eq_true, if_false,
        getCommonType_eq_wider hil hir, ok_bind] at he
      cases he
      rw [evaluate] at hv
      obtain ⟨lv, hlv, hv⟩ := bind_eq_ok.mp hv
      obtain ⟨rv, hrv, hv⟩ := bind_eq_ok.mp hv
      exact outcome_arithmetic hil hir hlv hrv (ihl hlv) (ihr hrv) hv
  | comparison hl hr ihl ihr =>
      rw [evaluate] at hv
      obtain ⟨lv, -, hv⟩ := bind_eq_ok.mp hv
      obtain ⟨rv, -, hv⟩ := bind_eq_ok.mp hv
      obtain ⟨state, -, hv⟩ := bind_eq_ok.mp hv
      cases hv
      exact .inr ⟨id, dataType_getBooleanValue state⟩
  | logic hl hr he ihl ihr =>
      rw [logicExpression] at he
      split at he
      · cases he
      · cases he
        rw [evaluate] at hv
        obtain ⟨lv, -, hv⟩ := bind_eq_ok.mp hv
        obtain ⟨rv, -, hv⟩ := bind_eq_ok.mp hv
        cases hv
        exact .inr ⟨id, dataType_getBooleanValue _⟩

theorem Outcome.dataType_iff {e : ExpressionTree} {v : Value} (h : Outcome decimals tuple e v) :
    v.dataType = e.getReturnType ↔ ¬ e.MeetsNull decimals tuple := by
  rcases h with ⟨hm, hs, ht, -⟩ | ⟨hm, ht⟩
  · rw [hs, ht]
    simp [hm]
  · simp [hm, ht]

/-- The value of a tree is of the type of the tree, unless a `TINYINT` meets a `SMALLINT` to its
right, one of them NULL, and the NULL reaches the root as a `SMALLINT`. -/
theorem returned_type_iff (decimals : ArithmeticType → Operation) (row : TypedRow)
    (e : ExpressionTree) (hb : Built row.schema e) (v : Value)
    (hv : e.evaluate decimals row.value = .ok v) :
    v.dataType = e.getReturnType ↔ ¬ e.MeetsNull decimals row.value :=
  (hb.outcome row.reads hv).dataType_iff

/-- `#0.0 + 4`. -/
def plusFour : ExpressionTree :=
  .arithmetic (.columnValue 0 0 .integer) (.constantValue (Value.ofInteger .integer 4)) .addition
    .integer

theorem built_plusFour : Built (single 3).schema plusFour := by
  have hcol : Built (single 3).schema (.columnValue 0 0 .integer) :=
    .columnValue (c := ⟨"a", .integer, 4⟩) rfl
  exact .arithmetic hcol (.constantValue (Value.ofInteger .integer 4)) rfl rfl rfl

theorem returned_type_iff_plusFour :
    (Value.ofInteger .integer 7).dataType = plusFour.getReturnType :=
  (returned_type_iff (fun _ _ r => .ok r) (single 3) plusFour built_plusFour _ rfl).mpr
    fun h => nomatch h.1

/-- A row of one `TINYINT` that is NULL. -/
def nullByte : TypedRow where
  schema := [⟨"t", .tinyint, 1⟩]
  values := [Value.null .tinyint]
  typed := rfl

/-- `#0.0 + 1` with a `SMALLINT` 1. -/
def byteAndWord : ExpressionTree :=
  .arithmetic (.columnValue 0 0 .tinyint) (.constantValue (Value.ofInteger .smallint 1)) .addition
    .smallint

/-- The sum is declared as `SMALLINT`, and its NULL is an `INTEGER`. -/
theorem byteAndWord_type : ¬ ∀ (row : TypedRow) (e : ExpressionTree) (v : Value),
    Built row.schema e → e.evaluate (fun _ _ r => .ok r) row.value = .ok v →
      v.dataType = e.getReturnType := by
  intro h
  have hcol : Built nullByte.schema (.columnValue 0 0 .tinyint) :=
    .columnValue (c := ⟨"t", .tinyint, 1⟩) rfl
  have hbuilt : Built nullByte.schema byteAndWord :=
    .arithmetic hcol (.constantValue (Value.ofInteger .smallint 1)) rfl rfl rfl
  cases h nullByte byteAndWord (Value.ofInt16 .integer 0x8000#16) hbuilt rfl

end ExpressionTree

end TurtleDb.Execution
