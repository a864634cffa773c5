import TurtleDb.Datatype.Compare

/-!
# The order of timestamps

Five of the six comparisons of `TimestampType` read the packed number as unsigned, `>` reads it as
signed, and `!=` does not ask whether its left value is NULL. They describe one order as long as the
numbers are in one half of the 64-bit range.
-/

namespace TurtleDb.Datatype.Value

open TurtleDb.Lib

/-- What the comparisons of two values say if they describe one total order: nothing is known of
NULL, and of the others one of `<`, `=` and `>` holds and determines the rest. -/
structure OneOrder (a b : Value) : Prop where
  null : a.isNull = true ∨ b.isNull = true → ∀ op, compare op a b = .ok .cmpNull
  trichotomy : a.isNull = false → b.isNull = false →
    (Holds .lt a b ∧ ¬ Holds .eq a b ∧ ¬ Holds .gt a b) ∨
    (¬ Holds .lt a b ∧ Holds .eq a b ∧ ¬ Holds .gt a b) ∨
    (¬ Holds .lt a b ∧ ¬ Holds .eq a b ∧ Holds .gt a b)
  known : a.isNull = false → b.isNull = false →
    ∀ op, ∃ state, compare op a b = .ok (getCmpBool state)
  gt_iff : a.isNull = false → b.isNull = false → (Holds .gt a b ↔ Holds .lt b a)
  le_iff : a.isNull = false → b.isNull = false → (Holds .le a b ↔ Holds .lt a b ∨ Holds .eq a b)
  ge_iff : a.isNull = false → b.isNull = false → (Holds .ge a b ↔ Holds .gt a b ∨ Holds .eq a b)
  ne_iff : a.isNull = false → b.isNull = false → (Holds .ne a b ↔ ¬ Holds .eq a b)

/-- The packed number. -/
def packed (v : Value) : Nat := (v.getAs 64).toNat

variable {a b c : Value}

/-! ## Two values that are not NULL -/

theorem compare_of_timestamp (op : CmpOp) (hta : a.dataType = .timestamp) :
    compare op a b = compareTimestamp op a b := by
  rw [compare, hta]

theorem compareInlined_of_notNull (cmp : Value → Value → Bool) (ht : a.dataType = b.dataType)
    (ha : a.isNull = false) (hb : b.isNull = false) :
    compareInlined cmp a b = .ok (getCmpBool (cmp a b)) := by
  have hcmp : a.checkComparable b = true := by simp [checkComparable, ht]
  rw [compareInlined, hcmp, ha, hb]
  rfl

/-- All comparisons but `>` are those of the unsigned numbers. -/
theorem compare_packed {op : CmpOp} (hop : op ≠ .gt) (hta : a.dataType = .timestamp)
    (htb : b.dataType = .timestamp) (ha : a.isNull = false) (hb : b.isNull = false) :
    compare op a b = .ok (getCmpBool (op.apply a.packed b.packed)) := by
  have hinlined := compareInlined_of_notNull
    (fun left right => op.apply (left.getAs 64).toNat (right.getAs 64).toNat) (hta.trans htb.symm)
    ha hb
  rw [compare_of_timestamp op hta]
  cases op with
  | gt => exact absurd rfl hop
  | ne =>
      have hcmp : a.checkComparable b = true := by simp [checkComparable, hta, htb]
      simp only [compareTimestamp, hcmp, hb]
      rfl
  | _ => exact hinlined

theorem holds_packed {op : CmpOp} (hop : op ≠ .gt) (hta : a.dataType = .timestamp)
    (htb : b.dataType = .timestamp) (ha : a.isNull = false) (hb : b.isNull = false) :
    Holds op a b ↔ op.apply a.packed b.packed = true :=
  holds_getCmpBool (compare_packed hop hta htb ha hb)

theorem compare_gt (hta : a.dataType = .timestamp) (htb : b.dataType = .timestamp)
    (ha : a.isNull = false) (hb : b.isNull = false) :
    compare .gt a b = .ok (getCmpBool ((b.getAs 64).slt (a.getAs 64))) := by
  rw [compare_of_timestamp .gt hta]
  exact compareInlined_of_notNull
    (fun left right => CmpOp.gt.apply (left.getAs 64).toInt (right.getAs 64).toInt)
    (hta.trans htb.symm) ha hb

/-- The signed comparison is the unsigned one turned around if the upper bits differ. -/
theorem holds_gt (hta : a.dataType = .timestamp) (htb : b.dataType = .timestamp)
    (ha : a.isNull = false) (hb : b.isNull = false) :
    Holds .gt a b ↔ if (a.packed < 2 ^ 63 ↔ b.packed < 2 ^ 63) then b.packed < a.packed
      else a.packed < b.packed := by
  have hmsb : ∀ v : Value, (v.getAs 64).msb = decide (¬ v.packed < 2 ^ 63) := fun v => by
    rw [BitVec.msb_eq_decide, packed]
    simp
  have hult : (b.getAs 64).ult (a.getAs 64) = decide (b.packed < a.packed) := rfl
  rw [holds_getCmpBool (compare_gt hta htb ha hb), BitVec.slt_eq_ult, hmsb, hmsb, hult]
  generalize 2 ^ 63 = half
  by_cases hA : a.packed < half
  · by_cases hB : b.packed < half
    · simp [hA, hB]
    · have hlt : a.packed < b.packed := Nat.lt_of_lt_of_le hA (Nat.le_of_not_lt hB)
      simp [hA, hB, hlt, Nat.not_lt_of_lt hlt]
  · by_cases hB : b.packed < half
    · have hlt : b.packed < a.packed := Nat.lt_of_lt_of_le hB (Nat.le_of_not_lt hA)
      simp [hA, hB, hlt, Nat.not_lt_of_lt hlt]
    · simp [hA, hB]

/-- The comparisons of two timestamps that are not NULL describe one order exactly if both numbers
are in the same half of the range. -/
theorem oneOrder_of_notNull (hta : a.dataType = .timestamp) (htb : b.dataType = .timestamp)
    (ha : a.isNull = false) (hb : b.isNull = false) :
    OneOrder a b ↔ (a.packed < 2 ^ 63 ↔ b.packed < 2 ^ 63) := by
  have hlt := holds_packed (show CmpOp.lt ≠ .gt by decide) hta htb ha hb
  have hlt' := holds_packed (show CmpOp.lt ≠ .gt by decide) htb hta hb ha
  have heq := holds_packed (show CmpOp.eq ≠ .gt by decide) hta htb ha hb
  have hle := holds_packed (show CmpOp.le ≠ .gt by decide) hta htb ha hb
  have hge := holds_packed (show CmpOp.ge ≠ .gt by decide) hta htb ha hb
  have hne := holds_packed (show CmpOp.ne ≠ .gt by decide) hta htb ha hb
  have hgt := holds_gt hta htb ha hb
  simp only [CmpOp.apply, decide_eq_true_eq] at hlt hlt' heq hle hge hne
  constructor
  · intro h
    have hiff := h.gt_iff ha hb
    rw [hgt, hlt'] at hiff
    by_contra hhalf
    rw [if_neg hhalf] at hiff
    omega
  · intro hhalf
    rw [if_pos hhalf] at hgt
    refine ⟨fun hnull => ?_, fun _ _ => ?_, fun _ _ op => ?_, fun _ _ => ?_, fun _ _ => ?_,
      fun _ _ => ?_, fun _ _ => ?_⟩
    · rw [ha, hb] at hnull
      simp at hnull
    · rw [hlt, heq, hgt]
      omega
    · cases op with
      | gt => exact ⟨_, compare_gt hta htb ha hb⟩
      | _ => exact ⟨_, compare_packed (by decide) hta htb ha hb⟩
    · rw [hgt, hlt']
    · rw [hle, hlt, heq]
      omega
    · rw [hge, hgt, heq]
      omega
    · rw [hne, heq]

/-! ## NULL -/

theorem compare_null {op : CmpOp} (hta : a.dataType = .timestamp) (htb : b.dataType = .timestamp)
    (hnull : b.isNull = true ∨ a.isNull = true ∧ op ≠ .ne) : compare op a b = .ok .cmpNull := by
  have hcmp : a.checkComparable b = true := by simp [checkComparable, hta, htb]
  have hinlined : a.isNull = true ∨ b.isNull = true →
      ∀ cmp, compareInlined cmp a b = .ok .cmpNull := fun hn cmp => by
    rw [compareInlined, hcmp]
    rcases hn with hn | hn <;> simp [hn]
  rw [compare_of_timestamp op hta]
  cases op with
  | ne =>
      have hb := hnull.resolve_right fun h => h.2 rfl
      simp only [compareTimestamp, hcmp, hb]
      rfl
  | _ =>
      unfold compareTimestamp
      exact hinlined (hnull.symm.imp_left And.left) _

/-- `!=` of a NULL and a value that is not compares the numbers. -/
theorem compare_ne_of_left_null (hta : a.dataType = .timestamp) (htb : b.dataType = .timestamp)
    (hb : b.isNull = false) :
    compare .ne a b = .ok (getCmpBool (CmpOp.ne.apply a.packed b.packed)) := by
  have hcmp : a.checkComparable b = true := by simp [checkComparable, hta, htb]
  rw [compare_of_timestamp .ne hta]
  simp only [compareTimestamp, hcmp, hb]
  rfl

/-- With a NULL among them the two are in order exactly if the right one is NULL. -/
theorem oneOrder_of_null (hta : a.dataType = .timestamp) (htb : b.dataType = .timestamp)
    (hnull : a.isNull = true ∨ b.isNull = true) : OneOrder a b ↔ b.isNull = true := by
  constructor
  · intro h
    by_contra hb
    rw [Bool.not_eq_true] at hb
    have hne := h.null hnull .ne
    rw [compare_ne_of_left_null hta htb hb] at hne
    cases hs : CmpOp.ne.apply a.packed b.packed <;> rw [hs] at hne <;> cases hne
  · intro hb
    have habsurd : b.isNull = false → False := fun h => by rw [hb] at h; cases h
    exact
      { null := fun _ _ => compare_null hta htb (.inl hb)
        trichotomy := fun _ h => (habsurd h).elim
        known := fun _ h => (habsurd h).elim
        gt_iff := fun _ h => (habsurd h).elim
        le_iff := fun _ h => (habsurd h).elim
        ge_iff := fun _ h => (habsurd h).elim
        ne_iff := fun _ h => (habsurd h).elim }

/-! ## Transitivity -/

theorem Holds.notNull {op : CmpOp} (h : Holds op a b) (hop : op ≠ .ne)
    (hta : a.dataType = .timestamp) (htb : b.dataType = .timestamp) :
    a.isNull = false ∧ b.isNull = false := by
  by_contra hn
  have hnull : b.isNull = true ∨ a.isNull = true ∧ op ≠ .ne := by
    cases ha : a.isNull <;> cases hb : b.isNull <;> simp_all
  rw [Holds, compare_null hta htb hnull] at h
  cases h

theorem Holds.lt_trans (hta : a.dataType = .timestamp) (htb : b.dataType = .timestamp)
    (htc : c.dataType = .timestamp) (hab : Holds .lt a b) (hbc : Holds .lt b c) :
    Holds .lt a c := by
  obtain ⟨ha, hb⟩ := hab.notNull (by decide) hta htb
  obtain ⟨-, hc⟩ := hbc.notNull (by decide) htb htc
  rw [holds_packed (by decide) hta htb ha hb, CmpOp.apply, decide_eq_true_eq] at hab
  rw [holds_packed (by decide) htb htc hb hc, CmpOp.apply, decide_eq_true_eq] at hbc
  rw [holds_packed (by decide) hta htc ha hc, CmpOp.apply, decide_eq_true_eq]
  exact hab.trans hbc

/-- Two timestamps are in order exactly if the left one is NULL only with the right one, and the
numbers of two that are not NULL are in the same half of the range. `<` is always transitive. -/
theorem timestamps_in_order (a b : Value) (hta : a.dataType = .timestamp)
    (htb : b.dataType = .timestamp) :
    (OneOrder a b ↔ (a.isNull = true → b.isNull = true) ∧
      (a.isNull = false → b.isNull = false → (a.packed < 2 ^ 63 ↔ b.packed < 2 ^ 63))) ∧
    ∀ c : Value, c.dataType = .timestamp → Holds .lt a b → Holds .lt b c → Holds .lt a c := by
  refine ⟨?_, fun c htc => Holds.lt_trans hta htb htc⟩
  cases ha : a.isNull with
  | true =>
      rw [oneOrder_of_null hta htb (.inl ha)]
      simp
  | false =>
      cases hb : b.isNull with
      | true =>
          rw [oneOrder_of_null hta htb (.inr hb), hb]
          simp
      | false =>
          rw [oneOrder_of_notNull hta htb ha hb]
          simp

/-- The first days of January, February and December 2020 at midnight, as they are packed. -/
def january : Value := ofInt64 .timestamp (BitVec.ofNat 64 903202000000000000)

def february : Value := ofInt64 .timestamp (BitVec.ofNat 64 1767202000000000000)

def december : Value := ofInt64 .timestamp (BitVec.ofNat 64 10407202000000000000)

/-- January and February are in the lower half of the range, and December is in the upper one. -/
theorem timestamps_in_order_january_february : OneOrder january february ∧
    Holds .lt january february ∧ Holds .lt january december := by
  obtain ⟨horder, htrans⟩ := timestamps_in_order january february rfl rfl
  have hlt : Holds .lt january february := by unfold Holds; decide
  have hlt' : Holds .lt february december := by unfold Holds; decide
  exact ⟨horder.mpr ⟨fun h => absurd h (by decide), fun _ _ => by decide⟩, hlt,
    htrans december rfl hlt hlt'⟩

/-- January is before December and also after it. -/
theorem january_december : ¬ ∀ a b : Value, a.dataType = .timestamp → b.dataType = .timestamp →
    OneOrder a b := by
  intro h
  have hiff := (h january december rfl rfl).gt_iff (by decide) (by decide)
  exact absurd (hiff.mp (by unfold Holds; decide)) (by unfold Holds; decide)

end TurtleDb.Datatype.Value
