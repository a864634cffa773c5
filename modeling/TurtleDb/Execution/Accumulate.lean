import Mathlib.Order.Bounds.Basic
import TurtleDb.Execution.Aggregation

/-!
# One aggregate of one group

What a function computes when it is updated with the arguments of a group, one after the other. MIN
and MAX copy one of two values, and a copy of the number that stands for NULL is NULL.
-/

namespace TurtleDb.Execution.AggregateFunction

open TurtleDb.Lib TurtleDb.Datatype TurtleDb.Datatype.Value

variable {rt : Runtime} {t : DataType}

def accumulate (rt : Runtime) (func : AggregateFunction) (xs : List Value) :
    Except Fault BasicAccumulatorState :=
  xs.foldlM (fun st x => func.update rt st [some x]) createState

/-- What is emitted for a group with these arguments. -/
def result (rt : Runtime) (func : AggregateFunction) (xs : List Value) : Except Fault Value := do
  let st ← func.accumulate rt xs
  func.finalize st

def nonNull (xs : List Value) : List Value := xs.filter fun x => !x.isNull

def numbers (xs : List Value) : List Int := xs.map Value.number

/-! ## What should be computed -/

/-- `w` is the aggregate of `xs`. -/
def Computes (func : AggregateFunction) (xs : List Value) (w : Value) : Prop :=
  match func with
  | .countStar => Carries .bigint xs.length w
  | .count => Carries .integer (nonNull xs).length w
  | .sum => ∃ t, (∀ x ∈ xs, x.dataType = t) ∧ Carries t (numbers (nonNull xs)).sum w
  | .min => ∃ t m, (∀ x ∈ xs, x.dataType = t) ∧ IsLeast {n | n ∈ numbers (nonNull xs)} m ∧
      Carries t m w
  | .max => ∃ t m, (∀ x ∈ xs, x.dataType = t) ∧ IsGreatest {n | n ∈ numbers (nonNull xs)} m ∧
      Carries t m w

/-- `SUM`, `MIN` and `MAX`, which need numbers. -/
def Folds (func : AggregateFunction) : Prop := func = .sum ∨ func = .min ∨ func = .max

/-- Arguments of one integer type, not all of them NULL. -/
structure IntegerColumn (t : DataType) (xs : List Value) : Prop where
  integer : t.isInteger = true
  dataType : ∀ x ∈ xs, x.dataType = t
  notEmpty : nonNull xs ≠ []

/-- No prefix has a sum that the type cannot hold. -/
def SumsInRange (t : DataType) (xs : List Value) : Prop :=
  ∀ k, 1 ≤ k → k ≤ (nonNull xs).length → t.InRange (numbers ((nonNull xs).take k)).sum

/-- The arguments with which the function computes what it should. -/
def Fits (t : DataType) (func : AggregateFunction) (xs : List Value) : Prop :=
  match func with
  | .sum => SumsInRange t xs
  | .min => t.nullNumber ∉ numbers (nonNull xs)
  | .max => ¬ ∃ rest, numbers (nonNull xs) = t.nullNumber :: t.nullNumber :: rest
  | .count | .countStar => True

/-! ## COUNT -/

theorem accumulate_countStar (rt : Runtime) (xs : List Value) :
    ∃ st, accumulate rt .countStar xs = .ok st ∧ st.count = BitVec.ofNat 64 xs.length := by
  suffices ∀ st : BasicAccumulatorState, ∃ st',
      xs.foldlM (fun st x => update rt .countStar st [some x]) st = .ok st' ∧
        st'.count = st.count + BitVec.ofNat 64 xs.length by
    obtain ⟨st, hst, hcount⟩ := this createState
    exact ⟨st, hst, hcount.trans (BitVec.zero_add _)⟩
  induction xs with
  | nil => exact fun st => ⟨st, rfl, (BitVec.add_zero _).symm⟩
  | cons x xs ih =>
      intro st
      obtain ⟨st', hst', hcount⟩ := ih { st with count := st.count + 1, isNull := .cmpFalse }
      refine ⟨st', ?_, ?_⟩
      · rw [List.foldlM_cons]
        exact hst'
      · rw [hcount, List.length_cons, BitVec.ofNat_add, BitVec.add_comm (BitVec.ofNat 64 _),
          ← BitVec.add_assoc]
        rfl

theorem accumulate_count (rt : Runtime) (xs : List Value) : ∃ st,
    accumulate rt .count xs = .ok st ∧ st.count = BitVec.ofNat 64 (nonNull xs).length := by
  suffices ∀ st : BasicAccumulatorState, ∃ st',
      xs.foldlM (fun st x => update rt .count st [some x]) st = .ok st' ∧
        st'.count = st.count + BitVec.ofNat 64 (nonNull xs).length by
    obtain ⟨st, hst, hcount⟩ := this createState
    exact ⟨st, hst, hcount.trans (BitVec.zero_add _)⟩
  induction xs with
  | nil => exact fun st => ⟨st, rfl, (BitVec.add_zero _).symm⟩
  | cons x xs ih =>
      intro st
      rw [List.foldlM_cons]
      cases hx : x.isNull with
      | true =>
          obtain ⟨st', hst', hcount⟩ := ih st
          refine ⟨st', ?_, ?_⟩
          · simpa [update, checkCmpIsNull, hx, ok_bind] using hst'
          · rw [hcount, nonNull, nonNull, List.filter_cons_of_neg (by simp [hx])]
      | false =>
          obtain ⟨st', hst', hcount⟩ := ih { st with count := st.count + 1, isNull := .cmpFalse }
          refine ⟨st', ?_, ?_⟩
          · simpa [update, checkCmpIsNull, hx, ok_bind] using hst'
          · rw [hcount, nonNull, nonNull, List.filter_cons_of_pos (by simp [hx]),
              List.length_cons, BitVec.ofNat_add, BitVec.add_comm (BitVec.ofNat 64 _),
              ← BitVec.add_assoc]
            rfl

/-! ## SUM, MIN and MAX -/

/-- The operation of a function that folds. -/
def operation (rt : Runtime) : AggregateFunction → Value → Value → Except Fault Value
  | .sum => Value.add rt.addDouble
  | .min => Value.min
  | .max => Value.max
  | .count | .countStar => fun left _ => .ok left

theorem update_of_folds {func : AggregateFunction} (h : func.Folds) (st : BasicAccumulatorState)
    (args : List (Option Value)) :
    func.update rt st args = combine (operation rt func) st args := by
  rcases h with rfl | rfl | rfl <;> rfl

/-- What leaves the state alone at a NULL only sees the others. -/
theorem foldlM_nonNull {step : BasicAccumulatorState → Value → Except Fault BasicAccumulatorState}
    (h : ∀ st x, x.isNull = true → step st x = .ok st) (xs : List Value)
    (st : BasicAccumulatorState) : xs.foldlM step st = (nonNull xs).foldlM step st := by
  induction xs generalizing st with
  | nil => rfl
  | cons x xs ih =>
      rw [List.foldlM_cons]
      cases hx : x.isNull with
      | true =>
          rw [nonNull, List.filter_cons_of_neg (by simp [hx]), h st x hx]
          exact ih st
      | false =>
          rw [nonNull, List.filter_cons_of_pos (by simp [hx]), List.foldlM_cons]
          congr 1
          funext st'
          exact ih st'

theorem foldlM_update_null {func : AggregateFunction} (h : func.Folds) (xs : List Value)
    (st : BasicAccumulatorState) :
    xs.foldlM (fun st x => func.update rt st [some x]) st =
      (nonNull xs).foldlM (fun st x => func.update rt st [some x]) st := by
  refine foldlM_nonNull (fun st x hx => ?_) xs st
  rw [update_of_folds h]
  simp [combine, hx]

theorem mem_nonNull {x : Value} {xs : List Value} :
    x ∈ nonNull xs ↔ x ∈ xs ∧ x.isNull = false := by
  simp [nonNull]

theorem foldlM_update {func : AggregateFunction} (h : func.Folds) {vs : List Value}
    (hvs : ∀ v ∈ vs, v.isNull = false) (w : Value) :
    vs.foldlM (fun st x => func.update rt st [some x])
        { value := some w, count := 0, isNull := .cmpFalse } = (do
      let w' ← vs.foldlM (operation rt func) w
      return { value := some w', count := 0, isNull := .cmpFalse }) := by
  induction vs generalizing w with
  | nil => rfl
  | cons v vs ih =>
      have hv := hvs v List.mem_cons_self
      rw [List.foldlM_cons, List.foldlM_cons, update_of_folds h, bind_assoc]
      simp only [combine, hv, Bool.false_eq_true, if_false, reduceCtorEq]
      cases operation rt func w v with
      | error e => rfl
      | ok w' => exact ih (fun u hu => hvs u (List.mem_cons_of_mem _ hu)) w'

/-- NULLs play no part, the first value is taken as it is, and the others are folded in. -/
theorem result_of_folds {func : AggregateFunction} (h : func.Folds) {xs vs : List Value}
    {v : Value} (hxs : nonNull xs = v :: vs) :
    func.result rt xs = vs.foldlM (operation rt func) v := by
  have hnull : ∀ u ∈ v :: vs, u.isNull = false := fun u hu => (mem_nonNull.mp (hxs ▸ hu)).2
  have hfirst : func.update rt createState [some v] =
      .ok { value := some v, count := 0, isNull := .cmpFalse } := by
    rw [update_of_folds h]
    simp [combine, hnull v List.mem_cons_self, createState]
  rw [result, accumulate, foldlM_update_null h, hxs, List.foldlM_cons, hfirst, ok_bind,
    foldlM_update h (fun u hu => hnull u (List.mem_cons_of_mem _ hu)), bind_assoc]
  cases vs.foldlM (operation rt func) v with
  | error e => rfl
  | ok w => rcases h with rfl | rfl | rfl <;> rfl

/-- Values that are not NULL, all of one integer type. -/
structure Numbers (t : DataType) (vs : List Value) : Prop where
  integer : t.isInteger = true
  carries : ∀ v ∈ vs, Carries t v.number v

theorem Numbers.tail {v : Value} {vs : List Value} (h : Numbers t (v :: vs)) : Numbers t vs :=
  ⟨h.integer, fun u hu => h.carries u (List.mem_cons_of_mem _ hu)⟩

theorem IntegerColumn.numbers {xs : List Value} (h : IntegerColumn t xs) :
    Numbers t (nonNull xs) :=
  ⟨h.integer, fun _ hv => .of_notNull (h.dataType _ (mem_nonNull.mp hv).1) (mem_nonNull.mp hv).2⟩

theorem foldlM_add (rt : Runtime) {vs : List Value} (h : Numbers t vs) {x : Int} {v : Value}
    (hv : Carries t x v)
    (hsums : ∀ k, 1 ≤ k → k ≤ vs.length → t.InRange (x + (numbers (vs.take k)).sum)) :
    ∃ w, vs.foldlM (Value.add rt.addDouble) v = .ok w ∧ Carries t (x + (numbers vs).sum) w := by
  induction vs generalizing x v with
  | nil => exact ⟨v, rfl, by simpa [numbers] using hv⟩
  | cons u vs ih =>
      have hu := h.carries u List.mem_cons_self
      obtain ⟨s, hadd, hs⟩ := hv.add rt.addDouble h.integer hu (by
        simpa [numbers] using hsums 1 (Nat.le_refl 1) (by simp))
      obtain ⟨w, hfold, hw⟩ := ih h.tail hs (by
        intro k hk hlen
        have := hsums (k + 1) (by omega) (by simpa using hlen)
        rwa [List.take_succ_cons, numbers, List.map_cons, List.sum_cons, ← Int.add_assoc] at this)
      refine ⟨w, ?_, ?_⟩
      · rw [List.foldlM_cons, hadd, ok_bind, hfold]
      · rwa [numbers, List.map_cons, List.sum_cons, ← Int.add_assoc]

theorem isLeast_cons_min {x y m : Int} {ns : List Int}
    (h : IsLeast {n | n ∈ Min.min x y :: ns} m) : IsLeast {n | n ∈ x :: y :: ns} m := by
  obtain ⟨hmem, hle⟩ := h
  have hmin : m ≤ Min.min x y := hle List.mem_cons_self
  constructor
  · rcases List.mem_cons.mp hmem with rfl | hmem
    · rcases min_choice x y with heq | heq <;> rw [heq] <;> simp
    · exact List.mem_cons_of_mem _ (List.mem_cons_of_mem _ hmem)
  · intro n hn
    rcases List.mem_cons.mp hn with rfl | hn
    · exact Int.le_trans hmin (min_le_left n y)
    · rcases List.mem_cons.mp hn with rfl | hn
      · exact Int.le_trans hmin (min_le_right x n)
      · exact hle (List.mem_cons_of_mem _ hn)

theorem isGreatest_cons_max {x y m : Int} {ns : List Int}
    (h : IsGreatest {n | n ∈ Max.max x y :: ns} m) : IsGreatest {n | n ∈ x :: y :: ns} m := by
  obtain ⟨hmem, hle⟩ := h
  have hmax : Max.max x y ≤ m := hle List.mem_cons_self
  constructor
  · rcases List.mem_cons.mp hmem with rfl | hmem
    · rcases max_choice x y with heq | heq <;> rw [heq] <;> simp
    · exact List.mem_cons_of_mem _ (List.mem_cons_of_mem _ hmem)
  · intro n hn
    rcases List.mem_cons.mp hn with rfl | hn
    · exact Int.le_trans (le_max_left n y) hmax
    · rcases List.mem_cons.mp hn with rfl | hn
      · exact Int.le_trans (le_max_right x n) hmax
      · exact hle (List.mem_cons_of_mem _ hn)

theorem isLeast_singleton (x : Int) : IsLeast {n | n ∈ [x]} x := by
  simp [IsLeast, lowerBounds]

theorem isGreatest_singleton (x : Int) : IsGreatest {n | n ∈ [x]} x := by
  simp [IsGreatest, upperBounds]

/-- While no value has the number that stands for NULL, MIN is the least. -/
theorem foldlM_min {vs : List Value} (h : Numbers t vs) {x : Int} {v : Value}
    (hv : Carries t x v) (hx : t.nullNumber ≠ x) (hvs : t.nullNumber ∉ numbers vs) :
    ∃ w m, vs.foldlM Value.min v = .ok w ∧ IsLeast {n | n ∈ x :: numbers vs} m ∧
      Carries t m w := by
  induction vs generalizing x v with
  | nil => exact ⟨v, x, rfl, isLeast_singleton x, hv⟩
  | cons u vs ih =>
      have hu := h.carries u List.mem_cons_self
      rw [numbers, List.map_cons, List.mem_cons, not_or] at hvs
      have hstep : ∃ v', v.min u = .ok v' ∧ Carries t (Min.min x u.number) v' := by
        rw [hv.min h.integer hu]
        by_cases hlt : x < u.number
        · rw [if_pos hlt, min_eq_left (Int.le_of_lt hlt)]
          exact hv.copy h.integer (Ne.symm hx)
        · rw [if_neg hlt, min_eq_right (Int.not_lt.mp hlt)]
          exact hu.copy h.integer (Ne.symm hvs.1)
      obtain ⟨v', hmin, hv'⟩ := hstep
      obtain ⟨w, m, hfold, hleast, hw⟩ := ih h.tail hv' (by
        rcases min_choice x u.number with heq | heq <;> rw [heq]
        · exact hx
        · exact hvs.1) hvs.2
      exact ⟨w, m, by rw [List.foldlM_cons, hmin, ok_bind, hfold], isLeast_cons_min hleast, hw⟩

/-- MAX is the greatest unless it begins with two of that number. -/
theorem foldlM_max {vs : List Value} (h : Numbers t vs) {x : Int} {v : Value}
    (hv : Carries t x v)
    (hx : t.nullNumber = x → (numbers vs).head? ≠ some t.nullNumber) :
    ∃ w m, vs.foldlM Value.max v = .ok w ∧ IsGreatest {n | n ∈ x :: numbers vs} m ∧
      Carries t m w := by
  induction vs generalizing x v with
  | nil => exact ⟨v, x, rfl, isGreatest_singleton x, hv⟩
  | cons u vs ih =>
      have hu := h.carries u List.mem_cons_self
      have hlow := hv.bounds.1
      have hlow' := hu.bounds.1
      have hne : t.nullNumber ≠ Max.max x u.number := by
        intro heq
        have hx' : t.nullNumber = x := by
          have := le_max_left x u.number
          omega
        have hu' : t.nullNumber = u.number := by
          have := le_max_right x u.number
          omega
        exact hx hx' (by rw [hu']; rfl)
      have hstep : ∃ v', v.max u = .ok v' ∧ Carries t (Max.max x u.number) v' := by
        rw [hv.max h.integer hu]
        by_cases hlt : u.number < x
        · rw [if_pos hlt]
          rw [max_eq_left (Int.le_of_lt hlt)] at hne ⊢
          exact hv.copy h.integer (Ne.symm hne)
        · rw [if_neg hlt]
          rw [max_eq_right (Int.not_lt.mp hlt)] at hne ⊢
          exact hu.copy h.integer (Ne.symm hne)
      obtain ⟨v', hmax, hv'⟩ := hstep
      obtain ⟨w, m, hfold, hgreatest, hw⟩ := ih h.tail hv' (fun heq => absurd heq hne)
      exact ⟨w, m, by rw [List.foldlM_cons, hmax, ok_bind, hfold],
        isGreatest_cons_max hgreatest, hw⟩

/-! ## A NULL that stays -/

/-- A NULL of the type of the column. -/
def Spoiled (t : DataType) (w : Value) : Prop := w.dataType = t ∧ w.isNull = true

theorem foldlM_spoiled {op : Value → Value → Except Fault Value}
    (hop : ∀ {u v : Value}, Spoiled t u → v.dataType = t → ∃ w, op u v = .ok w ∧ Spoiled t w)
    {vs : List Value} (h : Numbers t vs) {v : Value} (hv : Spoiled t v) :
    ∃ w, vs.foldlM op v = .ok w ∧ Spoiled t w := by
  induction vs generalizing v with
  | nil => exact ⟨v, rfl, hv⟩
  | cons u vs ih =>
      obtain ⟨v', hop', hv'⟩ := hop hv (h.carries u List.mem_cons_self).dataType
      obtain ⟨w, hfold, hw⟩ := ih h.tail hv'
      exact ⟨w, by rw [List.foldlM_cons, hop', ok_bind, hfold], hw⟩

theorem foldlM_min_spoiled {vs : List Value} (h : Numbers t vs) {x : Int} {v : Value}
    (hv : Carries t x v) (hx : t.nullNumber ≠ x) (hvs : t.nullNumber ∈ numbers vs) :
    ∃ w, vs.foldlM Value.min v = .ok w ∧ Spoiled t w := by
  induction vs generalizing x v with
  | nil => exact absurd hvs (by simp [numbers])
  | cons u vs ih =>
      have hu := h.carries u List.mem_cons_self
      have hlow := hv.bounds.1
      rw [List.foldlM_cons, hv.min h.integer hu]
      by_cases heq : t.nullNumber = u.number
      · obtain ⟨v', hcopy, hv'⟩ := Carries.copy_null h.integer (heq ▸ hu)
        rw [if_neg (by omega), hcopy, ok_bind]
        exact foldlM_spoiled (fun hs hd => min_null h.integer hs.1 hd hs.2) h.tail hv'
      · rw [numbers, List.map_cons, List.mem_cons] at hvs
        have hrest := hvs.resolve_left heq
        by_cases hlt : x < u.number
        · obtain ⟨v', hcopy, hv'⟩ := hv.copy h.integer (Ne.symm hx)
          rw [if_pos hlt, hcopy, ok_bind]
          exact ih h.tail hv' hx hrest
        · obtain ⟨v', hcopy, hv'⟩ := hu.copy h.integer (Ne.symm heq)
          rw [if_neg hlt, hcopy, ok_bind]
          exact ih h.tail hv' heq hrest

theorem foldlM_max_spoiled {vs : List Value} (h : Numbers t vs) {v : Value}
    (hv : Carries t t.nullNumber v) (hvs : (numbers vs).head? = some t.nullNumber) :
    ∃ w, vs.foldlM Value.max v = .ok w ∧ Spoiled t w := by
  cases vs with
  | nil => cases hvs
  | cons u vs =>
      have hnum : u.number = t.nullNumber := Option.some.inj hvs
      have hu := h.carries u List.mem_cons_self
      rw [hnum] at hu
      obtain ⟨v', hcopy, hv'⟩ := hu.copy_null h.integer
      rw [List.foldlM_cons, hv.max h.integer hu, if_neg (Int.lt_irrefl _), hcopy, ok_bind]
      exact foldlM_spoiled (fun hs hd => max_null h.integer hs.1 hd hs.2) h.tail hv'

/-! ## One group -/

theorem carries_ofCount {n : Nat} (hn : n < 2 ^ 31) :
    Carries .integer n (Value.ofInt32 .integer ((BitVec.ofNat 64 n).setWidth 32)) ∧
      Carries .bigint n (Value.ofInt64 .bigint (BitVec.ofNat 64 n)) := by
  have h32 : (BitVec.ofNat 64 n).setWidth 32 = BitVec.ofInt 32 n := by
    rw [BitVec.ofInt_natCast]
    apply BitVec.eq_of_toNat_eq
    simp only [BitVec.toNat_setWidth, BitVec.toNat_ofNat]
    omega
  have h64 : BitVec.ofNat 64 n = BitVec.ofInt 64 n := (BitVec.ofInt_natCast ..).symm
  rw [h32, h64]
  constructor
  · refine carries_ofInteger (t := .integer) ?_
    simp only [DataType.InRange, DataType.nullNumber, DataType.width, DataType.size]
    omega
  · refine carries_ofInteger (t := .bigint) ?_
    simp only [DataType.InRange, DataType.nullNumber, DataType.width, DataType.size]
    omega

/-- With arguments that fit, what is emitted is the aggregate. -/
theorem result_computes (rt : Runtime) {func : AggregateFunction} {xs : List Value}
    (hlen : xs.length < 2 ^ 31) (h : func.Folds → IntegerColumn t xs ∧ func.Fits t xs) :
    ∃ w, func.result rt xs = .ok w ∧ func.Computes xs w := by
  cases func with
  | countStar =>
      obtain ⟨st, hst, hcount⟩ := accumulate_countStar rt xs
      refine ⟨_, by rw [result, hst]; rfl, ?_⟩
      rw [hcount]
      exact (carries_ofCount hlen).2
  | count =>
      obtain ⟨st, hst, hcount⟩ := accumulate_count rt xs
      refine ⟨_, by rw [result, hst]; rfl, ?_⟩
      rw [hcount]
      exact (carries_ofCount (Nat.lt_of_le_of_lt (List.length_filter_le ..) hlen)).1
  | sum =>
      obtain ⟨hcol, hfits⟩ := h (.inl rfl)
      obtain ⟨v, vs, hxs⟩ := List.exists_cons_of_ne_nil hcol.notEmpty
      have hnum := hcol.numbers
      rw [hxs] at hnum
      obtain ⟨w, hfold, hw⟩ := foldlM_add rt hnum.tail (hnum.carries v List.mem_cons_self)
        (by
          intro k hk hle
          have := hfits (k + 1) (by omega) (by rw [hxs]; simpa using hle)
          rwa [hxs, List.take_succ_cons, numbers, List.map_cons, List.sum_cons] at this)
      refine ⟨w, (result_of_folds (.inl rfl) hxs).trans hfold, t, hcol.dataType, ?_⟩
      rwa [hxs, numbers, List.map_cons, List.sum_cons]
  | min =>
      obtain ⟨hcol, hfits⟩ := h (.inr (.inl rfl))
      obtain ⟨v, vs, hxs⟩ := List.exists_cons_of_ne_nil hcol.notEmpty
      have hnum := hcol.numbers
      rw [Fits, hxs, numbers, List.map_cons, List.mem_cons, not_or] at hfits
      rw [hxs] at hnum
      obtain ⟨w, m, hfold, hleast, hw⟩ := foldlM_min hnum.tail
        (hnum.carries v List.mem_cons_self) hfits.1 hfits.2
      exact ⟨w, (result_of_folds (.inr (.inl rfl)) hxs).trans hfold, t, m, hcol.dataType,
        by rwa [hxs], hw⟩
  | max =>
      obtain ⟨hcol, hfits⟩ := h (.inr (.inr rfl))
      obtain ⟨v, vs, hxs⟩ := List.exists_cons_of_ne_nil hcol.notEmpty
      have hnum := hcol.numbers
      rw [hxs] at hnum
      obtain ⟨w, m, hfold, hgreatest, hw⟩ := foldlM_max hnum.tail
        (hnum.carries v List.mem_cons_self) (by
          intro hv hhead
          obtain ⟨rest, hrest⟩ := List.head?_eq_some_iff.mp hhead
          exact hfits ⟨rest, by rw [hxs, ← hrest, hv]; rfl⟩)
      exact ⟨w, (result_of_folds (.inr (.inr rfl)) hxs).trans hfold, t, m, hcol.dataType,
        by rwa [hxs], hw⟩

/-- The first value is a number, and one behind it has the number that stands for NULL. -/
theorem result_min_spoiled (rt : Runtime) {xs : List Value} (hcol : IntegerColumn t xs)
    (hfirst : (numbers (nonNull xs)).head? ≠ some t.nullNumber)
    (h : t.nullNumber ∈ numbers (nonNull xs)) :
    ∃ w, result rt .min xs = .ok w ∧ Spoiled t w := by
  obtain ⟨v, vs, hxs⟩ := List.exists_cons_of_ne_nil hcol.notEmpty
  have hnum := hcol.numbers
  rw [hxs] at hnum hfirst h
  have hv : t.nullNumber ≠ v.number := fun heq => hfirst (by rw [heq]; rfl)
  rw [numbers, List.map_cons, List.mem_cons] at h
  rw [result_of_folds (.inr (.inl rfl)) hxs]
  exact foldlM_min_spoiled hnum.tail (hnum.carries v List.mem_cons_self) hv (h.resolve_left hv)

theorem result_max_spoiled (rt : Runtime) {xs : List Value} (hcol : IntegerColumn t xs)
    {rest : List Int} (h : numbers (nonNull xs) = t.nullNumber :: t.nullNumber :: rest) :
    ∃ w, result rt .max xs = .ok w ∧ Spoiled t w := by
  obtain ⟨v, vs, hxs⟩ := List.exists_cons_of_ne_nil hcol.notEmpty
  have hnum := hcol.numbers
  rw [hxs] at hnum h
  rw [numbers, List.map_cons, List.cons.injEq] at h
  have hv := hnum.carries v List.mem_cons_self
  rw [h.1] at hv
  rw [result_of_folds (.inr (.inr rfl)) hxs]
  exact foldlM_max_spoiled hnum.tail hv (by rw [numbers, h.2]; rfl)

theorem Computes.notNull {func : AggregateFunction} {xs : List Value} {w : Value}
    (h : func.Computes xs w) : w.isNull = false := by
  cases func with
  | count | countStar => exact Carries.notNull h
  | sum =>
      obtain ⟨t, -, hw⟩ := h
      exact hw.notNull
  | min | max =>
      obtain ⟨t, m, -, -, hw⟩ := h
      exact hw.notNull

end TurtleDb.Execution.AggregateFunction
