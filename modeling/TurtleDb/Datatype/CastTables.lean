import TurtleDb.Datatype.Copying
import TurtleDb.Datatype.TimestampText

/-!
# The two tables of casts

`Value::cast_as` converts by the type of the value, `ValueFactory::cast_as` by the type that is asked
for. The second has a test in front that only `TIMESTAMP` passes.
-/

namespace TurtleDb.Datatype.ValueFactory

open TurtleDb.Lib Value

variable {decimals : Decimals} {v w : Value} {t : DataType}

/-- `ValueFactory` converts `v` to type `t` too, and to the value `w`. -/
def Agrees (decimals : Decimals) (v : Value) (t : DataType) (w : Value) : Prop :=
  ∃ w', castAs decimals v t = .ok w' ∧ w'.dataType = t ∧ w.SameAs w'

theorem coerce_ne_ok {switch : Option (Except Fault Value)}
    (h : t.isCoercableFrom v.dataType = false) : coerce decimals t v switch ≠ .ok w := by
  rw [coerce, h]
  cases toStringBy decimals v.dataType v with
  | error fault =>
      intro h
      cases h
  | ok text =>
      intro h
      cases h

/-- The test in front turns every other type away. -/
theorem castAs_ne_ok (ht : t ≠ .timestamp) : castAs decimals v t ≠ .ok w := by
  have hcoerce : t.isCoercableFrom v.dataType = false := by
    cases t <;> first | exact absurd rfl ht | rfl
  cases t <;> simp only [castAs, castAsBoolean, castAsTinyInt, castAsSmallInt, castAsInteger,
    castAsBigInt, castAsDecimal, castAsVarchar, castAsTimestamp]
  case timestamp => exact absurd rfl ht
  all_goals exact coerce_ne_ok hcoerce

/-- Only strings that are NULL, and timestamps, become timestamps. -/
theorem castAs_timestamp (hv : v.dataType ≠ .decimal)
    (h : Value.castAs decimals.ofInt (otherCastAs decimals) v .timestamp = .ok w) :
    v.dataType = .varchar ∧ v.isNull = true ∧ w = null .timestamp ∨
      v.dataType = .timestamp ∧ w = v := by
  rw [Value.castAs] at h
  cases hs : v.dataType with
  | decimal => exact absurd hs hv
  | varchar =>
      rw [hs] at h
      simp only [otherCastAs, hs, varcharCastAs] at h
      split at h
      next hn => exact .inl ⟨rfl, hn, (Except.ok.inj h).symm⟩
      · cases h
  | timestamp =>
      rw [hs] at h
      simp only [otherCastAs, hs, timestampCastAs, copy] at h
      exact .inr ⟨rfl, (Except.ok.inj h).symm⟩
  | boolean =>
      rw [hs] at h
      simp only [otherCastAs, hs, booleanCastAs] at h
      cases h
  | _ =>
      rw [hs] at h
      cases h

theorem castAsTimestamp_of_null (hn : v.isNull = true)
    (h : v.dataType = .varchar ∨ v.dataType = .timestamp) :
    castAs decimals v .timestamp = .ok (getTimestampValue 0xFFFFFFFFFFFFFFFF#64) := by
  rw [castAs, castAsTimestamp, coerce, hn]
  rcases h with h | h <;> rw [h] <;> rfl

theorem castAsTimestamp_of_timestamp (hn : v.isNull = false) (h : v.dataType = .timestamp) :
    castAs decimals v .timestamp = .ok (getTimestampValue (v.getAs 64)) := by
  rw [castAs, castAsTimestamp, coerce, hn, h]
  rfl

theorem payload_getTimestampValue (h : v.dataType = .timestamp) :
    (getTimestampValue (v.getAs 64)).payload = v.payload := by
  rw [payload, payload, h]
  simp [getTimestampValue, ofInt64, ofBits, getAs]

theorem agrees_of_timestamp (h : v.dataType = .timestamp) :
    Agrees decimals v .timestamp v ↔ v.isNull = false ∧ v.packed ≠ 2 ^ 63 := by
  cases hn : v.isNull with
  | true =>
      rw [Agrees, castAsTimestamp_of_null hn (.inr h)]
      refine ⟨?_, fun hfalse => Bool.noConfusion hfalse.1⟩
      rintro ⟨w', hw', -, hsame⟩
      rw [← Except.ok.inj hw'] at hsame
      exact absurd (hsame.isNull.trans hn) (by decide)
  | false =>
      have hnull : (getTimestampValue (v.getAs 64)).isNull = decide (v.packed = 2 ^ 63) :=
        isNull_getTimestampValue _
      rw [Agrees, castAsTimestamp_of_timestamp hn h]
      constructor
      · rintro ⟨w', hw', -, hsame⟩
        refine ⟨rfl, fun heq => ?_⟩
        rw [← Except.ok.inj hw'] at hsame
        rw [hsame.isNull, hn] at hnull
        exact absurd heq (of_decide_eq_false hnull.symm)
      · rintro ⟨-, hne⟩
        rw [decide_eq_false hne] at hnull
        exact ⟨_, rfl, rfl, h.symm, hnull.trans hn.symm, fun _ => payload_getTimestampValue h,
          fun _ hvar => absurd (h.symm.trans hvar) (by decide)⟩

/-- The two tables agree on the timestamps that are not NULL, cast to their own type, but for the one
whose number stands for NULL in the constructor of `BIGINT`. -/
theorem cast_tables_iff (decimals : Decimals) (v w : Value) (t : DataType)
    (hv : v.dataType ≠ .decimal) (ht : t ≠ .decimal)
    (h : Value.castAs decimals.ofInt (otherCastAs decimals) v t = .ok w) :
    Agrees decimals v t w ↔
      v.dataType = .timestamp ∧ t = .timestamp ∧ v.isNull = false ∧ v.packed ≠ 2 ^ 63 := by
  by_cases hstamp : t = .timestamp
  · subst hstamp
    rcases castAs_timestamp hv h with ⟨hs, hn, rfl⟩ | ⟨hs, rfl⟩
    · -- NULL becomes a timestamp that is not
      refine ⟨?_, fun hcond => absurd (hs.symm.trans hcond.1) (by decide)⟩
      rintro ⟨w', hw', -, hsame⟩
      rw [castAsTimestamp_of_null hn (.inl hs)] at hw'
      rw [← Except.ok.inj hw'] at hsame
      exact absurd hsame.isNull (by decide)
    · rw [agrees_of_timestamp hs]
      exact ⟨fun hcond => ⟨hs, rfl, hcond⟩, fun hcond => hcond.2.2⟩
  · refine ⟨?_, fun hcond => absurd hcond.2.1 hstamp⟩
    rintro ⟨w', hw', -⟩
    exact absurd hw' (castAs_ne_ok hstamp)

theorem cast_tables_iff_leapDay :
    Agrees .refusing (getTimestampValue (pack (.stated leapDay))) .timestamp
      (getTimestampValue (pack (.stated leapDay))) :=
  (cast_tables_iff .refusing _ _ .timestamp (by decide) (by decide) rfl).mpr
    ⟨rfl, rfl, by decide +kernel, by decide +kernel⟩

/-- The factory does not widen an `INTEGER`. -/
theorem integer_not_agrees : ¬ ∀ (decimals : Decimals) (v w : Value) (t : DataType),
    v.dataType ≠ .decimal → t ≠ .decimal →
      Value.castAs decimals.ofInt (otherCastAs decimals) v t = .ok w → Agrees decimals v t w := by
  intro h
  obtain ⟨w', hw', -⟩ := h .refusing (ofInteger .integer 5) (ofInteger .bigint 5) .bigint
    (by decide) (by decide) (by decide)
  exact castAs_ne_ok (by decide) hw'

end TurtleDb.Datatype.ValueFactory
