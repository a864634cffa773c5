import TurtleDb.Datatype.IntegerParentType

/-!
# Exactness of the operations on integers

The numbers of a type are those its words hold but one, which stands for NULL. The overflow checks
do not know of that one.
-/

namespace TurtleDb.Datatype.IntegerParentType

open TurtleDb.Lib Value

variable {s t : DataType} {x y z : Int} {u v : Value}

/-! ## Widths -/

theorem width_le_wider_left (s t : DataType) : s.width ≤ (wider s t).width := by
  unfold wider
  split
  next => exact Nat.le_refl _
  next h => exact Nat.le_of_not_le h

theorem width_le_wider_right (s t : DataType) : t.width ≤ (wider s t).width := by
  unfold wider
  split
  next h => exact h
  next => exact Nat.le_refl _

/-- The result is as wide as the words computed with, or half as wide at most. -/
theorem promotedWidth_cases (s t : DataType) : (wider s t).width = promotedWidth s t ∨
    2 * (wider s t).width ≤ promotedWidth s t := by
  cases s <;> cases t <;> decide

theorem promotedWidth_pos (s t : DataType) : 0 < promotedWidth s t :=
  Nat.lt_of_lt_of_le (by decide) (Nat.le_max_left 32 _)

theorem wider_le_promotedWidth (s t : DataType) : (wider s t).width ≤ promotedWidth s t := by
  rcases promotedWidth_cases s t with h | h
  · exact Nat.le_of_eq h
  · omega

theorem fits_iff_inRange (t : DataType) (x : Int) :
    Fits t.width x ↔ t.InRange x ∨ x = t.nullNumber := by
  have hnull : t.nullNumber = -2 ^ (t.width - 1) := rfl
  have hpos := half_pos t.width
  simp only [Fits, DataType.InRange, hnull]
  omega

/-- A number of a type is smaller than half a word of any type as wide. -/
theorem abs_lt_of_inRange (hx : s.InRange x) (hle : s.width ≤ t.width) :
    |x| < 2 ^ (t.width - 1) := by
  obtain ⟨hlo, hhi⟩ := ((fits_iff_inRange s x).mpr (.inl hx)).mono hle
  have hne : s.nullNumber = -2 ^ (s.width - 1) := rfl
  have hpow : (2 : Int) ^ (s.width - 1) ≤ 2 ^ (t.width - 1) :=
    pow_le_pow_right₀ (by decide) (Nat.sub_le_sub_right hle 1)
  have := hx.1
  rw [abs_lt]
  omega

/-! ## The overflow checks -/

theorem fits_wider (s t : DataType) (x : Int) :
    Fits (wider s t).width x ↔ Fits s.width x ∨ Fits t.width x := by
  constructor
  · intro h
    unfold wider at h
    split at h
    next => exact .inl h
    next => exact .inr h
  · rintro (h | h)
    · exact h.mono (width_le_wider_left s t)
    · exact h.mono (width_le_wider_right s t)

/-- A word passes if it fits one of the types, and then the cast to the wider one keeps it. -/
theorem checkedValue_eq (word : Int) (overflows : Int → Except Fault Bool) :
    checkedValue s t word overflows =
      if Fits (wider s t).width word then do
        if ← overflows word then throw outOfRange
        return ofInteger (wider s t) word
      else throw outOfRange := by
  have htest : (word ≠ wrap s.width word ∧ word ≠ wrap t.width word) ↔
      ¬ Fits (wider s t).width word := by
    rw [fits_wider, ← wrap_eq_self (width_pos s), ← wrap_eq_self (width_pos t), not_or, ne_comm,
      ne_comm (a := word)]
  unfold checkedValue
  by_cases hfits : Fits (wider s t).width word
  · have hcast : wrap (wider s t).width word = word := wrap_of_fits (width_pos _) hfits
    rw [if_pos hfits]
    simp only [htest, hfits, not_true_eq_false, if_false]
    unfold wider at hcast ⊢
    by_cases hle : t.width ≤ s.width
    · simp only [if_pos hle] at hcast ⊢
      rw [hcast]
    · simp only [if_neg hle] at hcast ⊢
      rw [hcast]
  · rw [if_neg hfits]
    simp only [htest, hfits, not_false_eq_true, if_true]
    rfl

/-- An overflow check lets the result `z` pass if it fits, and catches the word left of it if it
does not. -/
structure Detects (s t : DataType) (z : Int) (overflows : Int → Except Fault Bool) : Prop where
  exact : Fits (wider s t).width z → overflows z = .ok false
  caught : ¬ Fits (wider s t).width z → Fits (wider s t).width (wrap (promotedWidth s t) z) →
    overflows (wrap (promotedWidth s t) z) = .ok true

theorem Detects.checkedValue {overflows : Int → Except Fault Bool} (h : Detects s t z overflows) :
    checkedValue s t (wrap (promotedWidth s t) z) overflows =
      if Fits (wider s t).width z then .ok (ofInteger (wider s t) z) else .error outOfRange := by
  rw [checkedValue_eq]
  by_cases hfits : Fits (wider s t).width z
  · have hword : wrap (promotedWidth s t) z = z :=
      wrap_of_fits (promotedWidth_pos s t) (hfits.mono (wider_le_promotedWidth s t))
    rw [hword, if_pos hfits, if_pos hfits, h.exact hfits]
    rfl
  · rw [if_neg hfits]
    split
    next hword =>
      rw [h.caught hfits hword]
      rfl
    next => rfl

/-- Only words as wide as the result hide a number that does not fit: in wider ones there is room
for a product. -/
theorem width_eq_of_hidden (hz : |z| < 2 ^ ((wider s t).width - 1) * 2 ^ ((wider s t).width - 1))
    (hnot : ¬ Fits (wider s t).width z)
    (hfits : Fits (wider s t).width (wrap (promotedWidth s t) z)) :
    (wider s t).width = promotedWidth s t := by
  rcases promotedWidth_cases s t with heq | hle
  · exact heq
  · have hpow : (2 : Int) ^ ((wider s t).width - 1) * 2 ^ ((wider s t).width - 1) ≤
        2 ^ (promotedWidth s t - 1) := by
      rw [← pow_add]
      exact pow_le_pow_right₀ (by decide) (by omega)
    obtain ⟨hlo, hhi⟩ := abs_lt.mp (lt_of_lt_of_le hz hpow)
    rw [wrap_of_fits (promotedWidth_pos s t) ⟨Int.le_of_lt hlo, hhi⟩] at hfits
    exact absurd hfits hnot

theorem two_le_half (t : DataType) : (2 : Int) ≤ 2 ^ (t.width - 1) := by
  cases t <;> decide

theorem detects_add (hx : |x| < 2 ^ ((wider s t).width - 1))
    (hy : |y| < 2 ^ ((wider s t).width - 1)) :
    Detects s t (x + y) fun sum =>
      return (0 < x ∧ 0 < y ∧ sum < 0) ∨ (x < 0 ∧ y < 0 ∧ 0 < sum) := by
  have hx' := abs_lt.mp hx
  have hy' := abs_lt.mp hy
  constructor
  case exact =>
    intro _
    have hpass : ¬ ((0 < x ∧ 0 < y ∧ x + y < 0) ∨ (x < 0 ∧ y < 0 ∧ 0 < x + y)) := by omega
    rw [decide_eq_false hpass]
    rfl
  case caught =>
    intro hnot hfits
    have htwo := two_le_half (wider s t)
    have hsum : |x + y| < 2 ^ ((wider s t).width - 1) * 2 ^ ((wider s t).width - 1) := by
      calc |x + y| ≤ |x| + |y| := abs_add_le x y
        _ < 2 * 2 ^ ((wider s t).width - 1) := by omega
        _ ≤ 2 ^ ((wider s t).width - 1) * 2 ^ ((wider s t).width - 1) :=
            Int.mul_le_mul_of_nonneg_right htwo (Int.le_of_lt (half_pos _))
    have hw := promotedWidth_pos s t
    rw [width_eq_of_hidden hsum hnot hfits] at hx' hy' hnot
    have hcaught : (0 < x ∧ 0 < y ∧ wrap (promotedWidth s t) (x + y) < 0) ∨
        (x < 0 ∧ y < 0 ∧ 0 < wrap (promotedWidth s t) (x + y)) := by
      by_cases hlt : x + y < 0
      · have hlow : x + y < -2 ^ (promotedWidth s t - 1) := by
          by_contra hge
          exact hnot ⟨by omega, by omega⟩
        rw [wrap_below hw (by omega) hlow]
        omega
      · have hhigh : 2 ^ (promotedWidth s t - 1) ≤ x + y := by
          by_contra hge
          exact hnot ⟨by omega, by omega⟩
        rw [wrap_above hw hhigh (by omega)]
        omega
    rw [decide_eq_true hcaught]
    rfl

theorem detects_subtract (hx : |x| < 2 ^ ((wider s t).width - 1))
    (hy : |y| < 2 ^ ((wider s t).width - 1)) :
    Detects s t (x - y) fun diff =>
      return (0 < x ∧ y < 0 ∧ diff < 0) ∨ (x < 0 ∧ 0 < y ∧ 0 < diff) := by
  have h := detects_add (y := -y) hx (by rwa [abs_neg])
  simpa only [← sub_eq_add_neg, Int.neg_pos, Int.neg_neg_iff_pos] using h

theorem divides_of_ne {w : Nat} (hy : y ≠ 0) (htrap : y = -1 → x ≠ -2 ^ (w - 1)) :
    divides w x y = true := by
  rw [divides, decide_eq_true_iff]
  exact ⟨hy, fun h => htrap h.2 h.1⟩

theorem fits_mul_neg_one {w : Nat} (hx : |x| < 2 ^ (w - 1)) :
    Fits w (x * -1) ∧ x * -1 ≠ -2 ^ (w - 1) := by
  have := abs_lt.mp hx
  exact ⟨⟨by omega, by omega⟩, by omega⟩

theorem detects_multiply (hx : |x| < 2 ^ ((wider s t).width - 1))
    (hy : |y| < 2 ^ ((wider s t).width - 1)) :
    Detects s t (x * y) fun prod => do
      if y = 0 then return false
      return (← quotient (promotedWidth s t) prod y) ≠ x := by
  have hw := promotedWidth_pos s t
  have hhalf : (2 : Int) ^ ((wider s t).width - 1) ≤ 2 ^ (promotedWidth s t - 1) :=
    pow_le_pow_right₀ (by decide) (Nat.sub_le_sub_right (wider_le_promotedWidth s t) 1)
  constructor
  case exact =>
    intro _
    by_cases hy0 : y = 0
    · rw [if_pos hy0]
      rfl
    · have hdivides : divides (promotedWidth s t) (x * y) y = true := by
        refine divides_of_ne hy0 ?_
        rintro rfl
        exact (fits_mul_neg_one (lt_of_lt_of_le hx hhalf)).2
      have hback : (x * y).tdiv y = x := Int.mul_tdiv_cancel x hy0
      rw [if_neg hy0, quotient, if_pos hdivides, hback]
      simp
  case caught =>
    intro hnot hfits
    have hprod : |x * y| < 2 ^ ((wider s t).width - 1) * 2 ^ ((wider s t).width - 1) := by
      rw [abs_mul]
      exact mul_lt_mul'' hx hy (abs_nonneg x) (abs_nonneg y)
    have hwidth := width_eq_of_hidden hprod hnot hfits
    rw [hwidth] at hnot hy hx
    have hy0 : y ≠ 0 := by
      rintro rfl
      rw [Int.mul_zero] at hnot
      exact hnot ⟨by have := half_pos (promotedWidth s t); omega, half_pos _⟩
    have hdivides : divides (promotedWidth s t) (wrap (promotedWidth s t) (x * y)) y = true := by
      refine divides_of_ne hy0 ?_
      rintro rfl
      exact absurd (fits_mul_neg_one hx).1 hnot
    have hoff : (wrap (promotedWidth s t) (x * y)).tdiv y ≠ x :=
      fun h => hnot (fits_mul_of_tdiv_eq hw hy0 (Int.le_of_lt hy) h)
    rw [if_neg hy0, quotient, if_pos hdivides]
    simp [hoff]

/-! ## The operations -/

inductive ArithOp where
  | add
  | subtract
  | multiply
  deriving DecidableEq, Repr

namespace ArithOp

/-- The operation on the integers. -/
def exact : ArithOp → Int → Int → Int
  | add, x, y => x + y
  | subtract, x, y => x - y
  | multiply, x, y => x * y

def run : ArithOp → Value → Value → Except Fault Value
  | add => IntegerParentType.add
  | subtract => IntegerParentType.subtract
  | multiply => IntegerParentType.multiply

end ArithOp

theorem checkComparable_of_integers (hs : s.isInteger = true) (ht : t.isInteger = true)
    (hu : u.dataType = s) (hv : v.dataType = t) : u.checkComparable v = true := by
  subst hu hv
  simp only [DataType.isInteger, Bool.or_eq_true, decide_eq_true_eq] at hs ht
  simp [checkComparable, checkInteger, hs, ht]

theorem operate_of_integers {op : Value → Value → Except Fault Value} (hs : s.isInteger = true)
    (ht : t.isInteger = true) (hu : Carries s x u) (hv : Carries t y v) :
    operate op u v = op u v := by
  rw [operate, checkComparable_of_integers hs ht hu.dataType hv.dataType, hu.notNull, hv.notNull]
  rfl

theorem onNumbers_eq {method : DataType → DataType → Int → Int → Except Fault Value}
    (hu : Carries s x u) (hv : Carries t y v) : onNumbers method u v = method s t x y := by
  rw [onNumbers, hu.dataType, hv.dataType, hu.number, hv.number]

/-- Every result that fits a word of the wider type comes back, all others are rejected. -/
theorem ArithOp.run_eq (op : ArithOp) (hs : s.isInteger = true) (ht : t.isInteger = true)
    (hx : s.InRange x) (hy : t.InRange y) (hu : Carries s x u) (hv : Carries t y v) :
    op.run u v = if Fits (wider s t).width (op.exact x y) then
      .ok (ofInteger (wider s t) (op.exact x y)) else .error outOfRange := by
  have hx := abs_lt_of_inRange hx (width_le_wider_left s t)
  have hy := abs_lt_of_inRange hy (width_le_wider_right s t)
  cases op with
  | add =>
      rw [ArithOp.run, IntegerParentType.add, operate_of_integers hs ht hu hv, onNumbers_eq hu hv]
      exact (detects_add hx hy).checkedValue
  | subtract =>
      rw [ArithOp.run, IntegerParentType.subtract, operate_of_integers hs ht hu hv, onNumbers_eq hu hv]
      exact (detects_subtract hx hy).checkedValue
  | multiply =>
      rw [ArithOp.run, IntegerParentType.multiply, operate_of_integers hs ht hu hv, onNumbers_eq hu hv]
      exact (detects_multiply hx hy).checkedValue

/-- The result `z` is returned in type `t` if the type has it, and rejected otherwise. -/
def ExactOrRejected (t : DataType) (z : Int) (r : Except Fault Value) : Prop :=
  if t.InRange z then ∃ v, r = .ok v ∧ Carries t z v else r = .error outOfRange

/-- Addition, subtraction and multiplication are exact or rejected but for the one result that is
the number for NULL. -/
theorem exactOrRejected_iff (op : ArithOp) (s t : DataType) (hs : s.isInteger = true)
    (ht : t.isInteger = true) (x y : Int) (hx : s.InRange x) (hy : t.InRange y) (u v : Value)
    (hu : Carries s x u) (hv : Carries t y v) :
    ExactOrRejected (wider s t) (op.exact x y) (op.run u v) ↔
      op.exact x y ≠ (wider s t).nullNumber := by
  rw [op.run_eq hs ht hx hy hu hv, ExactOrRejected]
  by_cases hin : (wider s t).InRange (op.exact x y)
  · rw [if_pos hin, if_pos ((fits_iff_inRange _ _).mpr (.inl hin))]
    exact ⟨fun _ => Int.ne_of_gt hin.1, fun _ => ⟨_, rfl, carries_ofInteger hin⟩⟩
  · rw [if_neg hin]
    by_cases hnull : op.exact x y = (wider s t).nullNumber
    · rw [if_pos ((fits_iff_inRange _ _).mpr (.inr hnull))]
      exact ⟨nofun, fun h => absurd hnull h⟩
    · have hnot : ¬ Fits (wider s t).width (op.exact x y) := fun h =>
        ((fits_iff_inRange _ _).mp h).elim hin hnull
      rw [if_neg hnot]
      exact ⟨fun _ => hnull, fun _ => rfl⟩

theorem exactOrRejected_iff_bigint :
    ExactOrRejected (wider .tinyint .bigint) (ArithOp.add.exact 7 (-3))
        (ArithOp.add.run (ofInteger .tinyint 7) (ofInteger .bigint (-3))) ↔
      ArithOp.add.exact 7 (-3) ≠ (wider .tinyint .bigint).nullNumber :=
  exactOrRejected_iff .add .tinyint .bigint rfl rfl 7 (-3) (by decide) (by decide) _ _
    (carries_ofInteger (by decide)) (carries_ofInteger (by decide))

/-- `-127 + -1` is out of range, and comes back as NULL. -/
theorem add_tinyint_null :
    ¬ DataType.tinyint.InRange (-127 + -1) ∧
      add (ofInteger .tinyint (-127)) (ofInteger .tinyint (-1)) = .ok (ofInteger .tinyint (-128)) ∧
      (ofInteger .tinyint (-128)).isNull = true := by
  decide

theorem dataType_of_checkedValue {word : Int} {w : Value} {overflows : Int → Except Fault Bool}
    (h : checkedValue s t word overflows = .ok w) : w.dataType = wider s t := by
  rw [checkedValue_eq] at h
  split at h
  next =>
    obtain ⟨b, -, h⟩ := bind_eq_ok.mp h
    split at h
    · cases h
    · cases h
      rfl
  next => cases h

/-- Where the addition of the machine does not overflow, wrapping around makes no difference. -/
theorem addNumbers_eq_or_overflow (s t : DataType) (x y : Int) :
    Value.addNumbers s t x y = .error .overflow ∨
      Value.addNumbers s t x y = addNumbers s t x y := by
  unfold Value.addNumbers
  dsimp only
  by_cases hover : x + y < -2 ^ (promotedWidth s t - 1) ∨ 2 ^ (promotedWidth s t - 1) ≤ x + y
  · exact .inl (if_pos hover)
  · have hword : wrap (promotedWidth s t) (x + y) = x + y :=
      wrap_of_fits (promotedWidth_pos s t) ⟨by omega, by omega⟩
    refine .inr ((if_neg hover).trans ?_)
    rw [addNumbers, hword, checkedValue]
    simp only [wrap, ← BitVec.toInt_ofInt]
    split
    next => rfl
    next =>
      simp only [pure_bind, decide_eq_true_eq]
      rfl

/-! ## Division -/

theorem divides_of_inRange (hx : s.InRange x) (hy : y ≠ 0) :
    divides (promotedWidth s t) x y = true := by
  have hlt := abs_lt_of_inRange hx (width_le_wider_left s t)
  have hhalf : (2 : Int) ^ ((wider s t).width - 1) ≤ 2 ^ (promotedWidth s t - 1) :=
    pow_le_pow_right₀ (by decide) (Nat.sub_le_sub_right (wider_le_promotedWidth s t) 1)
  have := abs_lt.mp (lt_of_lt_of_le hlt hhalf)
  exact divides_of_ne hy fun _ => by omega

/-- A word no larger than the dividend is returned as it is. -/
theorem dividedValue_eq (op : Nat → Int → Int → Except Fault Int) (hx : s.InRange x) (hy : y ≠ 0)
    (hop : op (promotedWidth s t) x y = .ok z) (hz : |z| ≤ |x|) :
    ∃ w, dividedValue s t x y op = .ok w ∧ Carries (wider s t) z w := by
  have hlt := lt_of_le_of_lt hz (abs_lt_of_inRange hx (width_le_wider_left s t))
  obtain ⟨hlo, hhi⟩ := abs_lt.mp hlt
  have hin : (wider s t).InRange z := by
    refine ⟨hlo, ?_⟩
    rw [DataType.nullNumber, Int.neg_neg]
    exact hhi
  have hcast : wrap (wider s t).width z = z :=
    wrap_of_fits (width_pos _) ((fits_iff_inRange _ _).mpr (.inl hin))
  refine ⟨_, ?_, carries_ofInteger hin⟩
  unfold dividedValue
  unfold wider at hcast ⊢
  by_cases hle : t.width ≤ s.width
  · simp only [if_pos hle] at hcast ⊢
    rw [if_neg hy, hop]
    simp [hcast]
  · simp only [if_neg hle] at hcast ⊢
    rw [if_neg hy, hop]
    simp [hcast]

/-- A divisor of 0 is rejected. Any other gives the quotient rounded toward zero and the remainder
of the dividend's sign, both numbers of the wider type: no cast loses anything, and the machine's
division does not trap. -/
theorem divide_modulo (s t : DataType) (hs : s.isInteger = true) (ht : t.isInteger = true)
    (x y : Int) (hx : s.InRange x) (u v : Value) (hu : Carries s x u)
    (hv : Carries t y v) :
    (y = 0 → (∃ m, divide u v = .error (.raised m)) ∧ ∃ m, modulo u v = .error (.raised m)) ∧
      (y ≠ 0 → ∃ q r a b, divide u v = .ok a ∧ Carries (wider s t) q a ∧
        modulo u v = .ok b ∧ Carries (wider s t) r b ∧
        x = q * y + r ∧ |r| < |y| ∧ (r = 0 ∨ r.sign = x.sign) ∧ q = x.tdiv y) := by
  constructor
  · intro hy0
    have hzero : isZero v = true := decide_eq_true (hv.number.trans hy0)
    rw [divide, modulo, operate_of_integers hs ht hu hv, operate_of_integers hs ht hu hv]
    exact ⟨⟨_, if_pos hzero⟩, _, if_pos hzero⟩
  · intro hy0
    have hzero : ¬ isZero v = true := fun h => hy0 (hv.number.symm.trans (of_decide_eq_true h))
    have hdivides : divides (promotedWidth s t) x y = true := divides_of_inRange hx hy0
    obtain ⟨a, hdiv, ha⟩ := dividedValue_eq (t := t) quotient hx hy0 (if_pos hdivides)
      (abs_tdiv_le x y)
    obtain ⟨b, hmod, hb⟩ := dividedValue_eq (t := t) remainder hx hy0 (if_pos hdivides)
      (abs_tmod_le x y)
    refine ⟨_, _, a, b, ?_, ha, ?_, hb, ?_, abs_tmod_lt x hy0, ?_, rfl⟩
    · rw [divide, operate_of_integers hs ht hu hv, unlessZero, if_neg hzero, onNumbers_eq hu hv]
      exact hdiv
    · rw [modulo, operate_of_integers hs ht hu hv, unlessZero, if_neg hzero, onNumbers_eq hu hv]
      exact hmod
    · exact (Int.tdiv_mul_add_tmod x y).symm
    · by_cases hdvd : y ∣ x
      · exact .inl (Int.tmod_eq_zero_of_dvd hdvd)
      · exact .inr (by rw [Int.sign_tmod, if_neg hdvd])

theorem divide_modulo_bigint : ∃ q r a b,
    divide (ofInteger .bigint (-7)) (ofInteger .tinyint 2) = .ok a ∧
      Carries (wider .bigint .tinyint) q a ∧
      modulo (ofInteger .bigint (-7)) (ofInteger .tinyint 2) = .ok b ∧
      Carries (wider .bigint .tinyint) r b ∧ -7 = q * 2 + r ∧ |r| < |2| ∧
      (r = 0 ∨ r.sign = (-7 : Int).sign) ∧ q = Int.tdiv (-7) 2 :=
  (divide_modulo .bigint .tinyint rfl rfl (-7) 2 (by decide) _ _
    (carries_ofInteger (by decide)) (carries_ofInteger (by decide))).2 (by decide)

end TurtleDb.Datatype.IntegerParentType
