import TurtleDb.Datatype.IntegerTheorems
import TurtleDb.Execution.Merging

/-!
# What a function answers for a column

A function that was updated with the arguments of all rows, or with a single NULL if there are none,
is finalized. Without an argument that is not NULL there is nothing whose type a NULL could have,
and SUM, MIN, MAX and AVG raise; COUNT(*) counts the row of NULLs.
-/

namespace TurtleDb.Execution

open TurtleDb.Lib TurtleDb.Datatype TurtleDb.Datatype.Value AggregateFunction

variable {rt : Runtime} {xs : List Value} {v w s : Value}

/-- The arguments of a column, as they are fed. -/
def fed (xs : List Value) : List (Option Value) := if xs = [] then [none] else xs.map some

/-- The value that is emitted for a column. -/
def outcome (rt : Runtime) (func : Aggregate) (xs : List Value) : Except Fault Value := do
  let st ← (fed xs).foldlM (fun st arg => func.update rt st [arg]) createState
  func.finalize st

theorem outcome_nil (rt : Runtime) (func : Aggregate) :
    outcome rt func [] = (do
      let st ← func.update rt createState [none]
      func.finalize st) := by
  rw [outcome, fed, if_pos rfl, List.foldlM_cons, bind_assoc]
  rfl

theorem outcome_of_ne (hxs : xs ≠ []) (func : Aggregate) :
    outcome rt func xs = (do
      let st ← func.accumulate rt xs
      func.finalize st) := by
  rw [outcome, fed, if_neg hxs, List.foldlM_map]
  rfl

/-- `w` is what the function should answer for the arguments `xs`. -/
def Answers (func : Aggregate) (xs : List Value) (w : Value) : Prop :=
  match func with
  | .basic .countStar => Carries .bigint xs.length w
  | .basic .count => Carries .integer (nonNull xs).length w
  | .basic .sum | .basic .min | .basic .max | .avg _ => nonNull xs = [] → w.isNull = true

/-- There are arguments that are not NULL, and the operation takes them all. -/
def Folded (operation : Value → Value → Except Fault Value) (xs : List Value) : Prop :=
  ∃ v vs w, nonNull xs = v :: vs ∧ vs.foldlM operation v = .ok w

/-- The columns for which a function gives an answer, and the right one. AVG divides by a DECIMAL,
and only a DECIMAL can be divided by one. -/
def Enough (rt : Runtime) (func : Aggregate) (xs : List Value) : Prop :=
  match func with
  | .basic .countStar => xs ≠ [] ∧ xs.length < 2 ^ 63
  | .basic .count => (nonNull xs).length < 2 ^ 31
  | .basic .sum => Folded (Value.add rt.addDouble) xs
  | .basic .min => Folded Value.min xs
  | .basic .max => Folded Value.max xs
  | .avg _ => Folded (Value.add rt.addDouble) xs ∧
      ((∀ x ∈ nonNull xs, x.dataType = .decimal) ∨ 2 ^ 64 ∣ (nonNull xs).length)

/-! ## COUNT and COUNT(*) -/

theorem carries_ofInt64 {n : Nat} (hn : n < 2 ^ 63) :
    Carries .bigint n (Value.ofInt64 .bigint (BitVec.ofNat 64 n)) := by
  have hofInt : BitVec.ofNat 64 n = BitVec.ofInt 64 n := (BitVec.ofInt_natCast ..).symm
  rw [hofInt]
  refine carries_ofInteger (t := .bigint) ?_
  simp only [DataType.InRange, DataType.nullNumber, DataType.width, DataType.size]
  omega

theorem lt_of_carries {t : DataType} {n : Nat} (h : Carries t n w) : n < 2 ^ (t.width - 1) := by
  have hlt := h.bounds.2
  rw [DataType.nullNumber, Int.neg_neg] at hlt
  exact_mod_cast hlt

theorem countStar_iff (rt : Runtime) (xs : List Value) :
    (∃ w, outcome rt (.basic .countStar) xs = .ok w ∧ Answers (.basic .countStar) xs w) ↔
      xs ≠ [] ∧ xs.length < 2 ^ 63 := by
  by_cases hxs : xs = []
  · subst hxs
    constructor
    · rintro ⟨w, hw, hanswer⟩
      cases hw
      exact absurd (Carries.number hanswer) (by decide)
    · rintro ⟨hne, -⟩
      exact absurd rfl hne
  · obtain ⟨st, hst, hcount⟩ := accumulate_countStar rt xs
    have houtcome : outcome rt (.basic .countStar) xs =
        .ok (Value.ofInt64 .bigint (BitVec.ofNat 64 xs.length)) := by
      rw [outcome_of_ne hxs, ← hcount]
      change (accumulate rt .countStar xs >>= _) = _
      rw [hst]
      rfl
    rw [houtcome]
    constructor
    · rintro ⟨w, hw, hanswer⟩
      exact ⟨hxs, lt_of_carries hanswer⟩
    · rintro ⟨-, hlt⟩
      exact ⟨_, rfl, carries_ofInt64 hlt⟩

theorem count_iff (rt : Runtime) (xs : List Value) :
    (∃ w, outcome rt (.basic .count) xs = .ok w ∧ Answers (.basic .count) xs w) ↔
      (nonNull xs).length < 2 ^ 31 := by
  have houtcome : outcome rt (.basic .count) xs =
      .ok (Value.ofInt32 .integer ((BitVec.ofNat 64 (nonNull xs).length).setWidth 32)) := by
    by_cases hxs : xs = []
    · subst hxs
      rfl
    · obtain ⟨st, hst, hcount⟩ := accumulate_count rt xs
      rw [outcome_of_ne hxs, ← hcount]
      change (accumulate rt .count xs >>= _) = _
      rw [hst]
      rfl
  rw [houtcome]
  constructor
  · rintro ⟨w, -, hanswer⟩
    exact lt_of_carries hanswer
  · intro hlt
    exact ⟨_, rfl, (carries_ofCount hlt).1⟩

/-! ## SUM, MIN and MAX -/

theorem folds_iff {func : AggregateFunction} (hfunc : func.Folds) (rt : Runtime)
    (xs : List Value) :
    (∃ w, outcome rt (.basic func) xs = .ok w ∧ (nonNull xs = [] → w.isNull = true)) ↔
      Folded (operation rt func) xs := by
  have hraise : func.finalize createState =
      .error (.raised "Attempting to create invalid null type") := by
    rcases hfunc with rfl | rfl | rfl <;> rfl
  cases hnonNull : nonNull xs with
  | nil =>
      have houtcome : outcome rt (.basic func) xs =
          .error (.raised "Attempting to create invalid null type") := by
        by_cases hxs : xs = []
        · subst hxs
          rw [outcome_nil, ← hraise]
          rcases hfunc with rfl | rfl | rfl <;> rfl
        · rw [outcome_of_ne hxs, ← hraise]
          change (accumulate rt func xs >>= _) = _
          rw [accumulate, foldlM_update_null hfunc, hnonNull]
          rfl
      rw [houtcome]
      constructor
      · rintro ⟨w, hw, -⟩
        cases hw
      · rintro ⟨v, vs, w, hcons, -⟩
        cases hnonNull.symm.trans hcons
  | cons v vs =>
      have hxs : xs ≠ [] := by
        rintro rfl
        cases hnonNull
      have houtcome : outcome rt (.basic func) xs = vs.foldlM (operation rt func) v := by
        rw [outcome_of_ne hxs]
        exact result_of_folds hfunc hnonNull
      rw [houtcome]
      constructor
      · rintro ⟨w, hw, -⟩
        exact ⟨v, vs, w, hnonNull, hw⟩
      · rintro ⟨v', vs', w, hcons, hw⟩
        cases hnonNull.symm.trans hcons
        exact ⟨w, hw, fun h => absurd h (List.cons_ne_nil v vs)⟩

/-! ## AVG -/

theorem operate_of_ok {op : Value → Value → Except Fault Value} (h : operate op v w = .ok s) :
    v.checkComparable w = true ∧ (v.operateNull w = .ok s ∨ op v w = .ok s) := by
  rw [operate] at h
  split at h
  next => cases h
  next hcmp =>
    refine ⟨by simpa using hcmp, ?_⟩
    split at h
    next => exact .inl h
    next => exact .inr h

theorem addNumbers_type {t t' : DataType} {x y : Int} (h : Value.addNumbers t t' x y = .ok s) :
    s.dataType = IntegerParentType.wider t t' := by
  rcases IntegerParentType.addNumbers_eq_or_overflow t t' x y with he | he
  · cases he.symm.trans h
  · exact IntegerParentType.dataType_of_checkedValue (he.symm.trans h)

theorem operateNull_type (hv : v.dataType.isInteger = true) (hw : w.dataType.isInteger = true)
    (h : v.operateNull w = .ok s) : s.dataType.isInteger = true := by
  rw [operateNull] at h
  cases ht : v.dataType <;> rw [ht] at h hv <;> first
    | exact absurd hv (by decide)
    | cases ht' : w.dataType <;> rw [ht'] at h hw <;> first
      | exact absurd hw (by decide)
      | (cases h; rfl)

/-- A sum is of the kind of its summands: all are DECIMAL, or all are integers. -/
theorem add_types {addDouble : BitVec 64 → BitVec 64 → BitVec 64}
    (h : Value.add addDouble v w = .ok s) :
    (v.dataType = .decimal ∧ w.dataType = .decimal ∧ s.dataType = .decimal) ∨
      (v.dataType.isInteger = true ∧ w.dataType.isInteger = true ∧
        s.dataType.isInteger = true) := by
  have hinteger : v.dataType.isInteger = true → operate addValue v w = .ok s →
      w.dataType.isInteger = true ∧ s.dataType.isInteger = true := by
    intro hv hop
    obtain ⟨hcmp, hs⟩ := operate_of_ok hop
    have hw : w.dataType.isInteger = true := by
      rw [checkComparable, Bool.or_eq_true, Bool.and_eq_true, decide_eq_true_eq] at hcmp
      rcases hcmp with heq | ⟨-, hw⟩
      · exact heq ▸ hv
      · exact hw
    refine ⟨hw, ?_⟩
    rcases hs with hs | hs
    · exact operateNull_type hv hw hs
    · rw [addNumbers_type hs, IntegerParentType.wider]
      split
      · exact hv
      · exact hw
  rw [Value.add] at h
  split at h
  case h_1 hv | h_2 hv | h_3 hv | h_4 hv =>
    have hv' : v.dataType.isInteger = true := by rw [hv]; rfl
    exact .inr ⟨hv', hinteger hv' h⟩
  case h_5 hv =>
    obtain ⟨hcmp, hs⟩ := operate_of_ok h
    have hw : w.dataType = .decimal := by
      simpa [checkComparable, checkInteger, hv, eq_comm] using hcmp
    refine .inl ⟨hv, hw, ?_⟩
    rcases hs with hs | hs
    · rw [operateNull, hv] at hs
      cases hs
      rfl
    · cases hs
      rfl
  all_goals cases h

theorem foldlM_add_types {addDouble : BitVec 64 → BitVec 64 → BitVec 64} {vs : List Value}
    (h : vs.foldlM (Value.add addDouble) v = .ok w) :
    (w.dataType = .decimal ↔ ∀ x ∈ v :: vs, x.dataType = .decimal) ∧
      (vs ≠ [] → w.dataType = .decimal ∨ w.dataType.isInteger = true) := by
  induction vs generalizing v with
  | nil =>
      cases h
      simp
  | cons u vs ih =>
      rw [List.foldlM_cons] at h
      obtain ⟨s, hs, h⟩ := bind_eq_ok.mp h
      obtain ⟨hiff, hkind⟩ := ih h
      have hlast : vs = [] → w = s := by
        rintro rfl
        cases h
        rfl
      rcases add_types hs with ⟨hv, hu, hsum⟩ | ⟨hv, hu, hsum⟩
      · refine ⟨by simp [hiff, hv, hu, hsum], fun _ => ?_⟩
        by_cases hvs : vs = []
        · exact .inl (hlast hvs ▸ hsum)
        · exact hkind hvs
      · have hnot : ∀ {t : DataType}, t.isInteger = true → t ≠ .decimal := by
          rintro t ht rfl
          exact absurd ht (by decide)
        refine ⟨by simp [hiff, hnot hv, hnot hsum], fun _ => ?_⟩
        by_cases hvs : vs = []
        · exact .inr (hlast hvs ▸ hsum)
        · exact hkind hvs

/-- Only a DECIMAL can be divided by the count. -/
theorem valueDivide_iff (double : DoubleOps) {count : BitVec 64} (hcount : count ≠ 0)
    (v : Value) :
    (∃ q, valueDivide double v (ofDouble .decimal (double.ofCount count)) = .ok q) ↔
      v.dataType = .decimal := by
  constructor
  · rintro ⟨q, hq⟩
    rw [valueDivide] at hq
    split at hq
    case h_1 hv | h_2 hv | h_3 hv | h_4 hv =>
      obtain ⟨hcmp, -⟩ := operate_of_ok hq
      simp [checkComparable, checkInteger, hv, ofDouble, ofBits] at hcmp
    case h_5 hv => exact hv
    all_goals cases hq
  · intro hv
    have hbits : (ofDouble .decimal (double.ofCount count)).getAs 64 = double.ofCount count := by
      simp [ofDouble, ofBits, getAs]
    have hzero := double.ofCount_ne_zero count hcount
    rw [valueDivide, hv]
    simp only [operate, checkComparable_of_eq (hv.trans (rfl : _ = (ofDouble .decimal _).dataType)),
      hbits, hzero, Bool.not_true, Bool.false_eq_true, if_false]
    split
    next =>
      rw [operateNull, hv]
      exact ⟨_, rfl⟩
    next => exact ⟨_, rfl⟩

theorem avg_update_null (st : BasicAccumulatorState) (v : Value) (hv : v.isNull = true) :
    AvgFunction.update rt st [some v] = .ok st := by
  simp [AvgFunction.update, checkCmpIsNull, hv]
  rfl

theorem avg_foldlM {vs : List Value} (hvs : ∀ v ∈ vs, v.isNull = false) (v : Value)
    (count : BitVec 64) :
    vs.foldlM (fun st x => AvgFunction.update rt st [some x])
        { value := some v, count := count, isNull := .cmpFalse } = (do
      let w ← vs.foldlM (Value.add rt.addDouble) v
      return { value := some w, count := count + BitVec.ofNat 64 vs.length,
               isNull := .cmpFalse }) := by
  induction vs generalizing v count with
  | nil =>
      change Except.ok _ = Except.ok _
      rw [List.length_nil, BitVec.add_zero]
  | cons u vs ih =>
      have hu := hvs u List.mem_cons_self
      rw [List.foldlM_cons, List.foldlM_cons, bind_assoc]
      simp only [AvgFunction.update, checkCmpIsNull, List.isEmpty_cons, List.head?_cons,
        Option.join_some, hu, Bool.or_self, Bool.false_eq_true, if_false, combine, reduceCtorEq]
      cases Value.add rt.addDouble v u with
      | error e => rfl
      | ok s =>
          have hlen : count + 1 + BitVec.ofNat 64 vs.length =
              count + BitVec.ofNat 64 (u :: vs).length := by
            rw [List.length_cons, Nat.add_comm, BitVec.ofNat_add, BitVec.add_assoc]
            rfl
          have hrest := ih (fun x hx => hvs x (List.mem_cons_of_mem _ hx)) s (count + 1)
          rw [hlen] at hrest
          exact hrest

/-- The state of AVG after a column: the sum of the arguments that are not NULL, and how many. -/
theorem avg_accumulate {vs : List Value} (double : DoubleOps) (hxs : nonNull xs = v :: vs) :
    (Aggregate.avg double).accumulate rt xs = (do
      let w ← vs.foldlM (Value.add rt.addDouble) v
      return { value := some w, count := BitVec.ofNat 64 (nonNull xs).length,
               isNull := .cmpFalse }) := by
  have hnull : ∀ u ∈ v :: vs, u.isNull = false := fun u hu => (mem_nonNull.mp (hxs ▸ hu)).2
  have hfirst : AvgFunction.update rt createState [some v] =
      .ok { value := some v, count := 1, isNull := .cmpFalse } := by
    simp [AvgFunction.update, checkCmpIsNull, hnull v List.mem_cons_self, combine, createState]
  have hlen : (1 : BitVec 64) + BitVec.ofNat 64 vs.length = BitVec.ofNat 64 (v :: vs).length := by
    rw [List.length_cons, Nat.add_comm, BitVec.ofNat_add]
    rfl
  rw [hxs, ← hlen, ← avg_foldlM fun u hu => hnull u (List.mem_cons_of_mem _ hu)]
  change xs.foldlM (fun st x => AvgFunction.update rt st [some x]) createState = _
  rw [foldlM_nonNull avg_update_null, hxs, List.foldlM_cons, hfirst, ok_bind]

theorem ofNat_eq_zero_iff (n : Nat) : BitVec.ofNat 64 n = 0 ↔ 2 ^ 64 ∣ n := by
  rw [← BitVec.toNat_inj, BitVec.toNat_ofNat, Nat.dvd_iff_mod_eq_zero]
  rfl

/-- A count of 0 gives the NULL of the type of the sum. -/
theorem avg_finalize_iff {double : DoubleOps} {count : BitVec 64} :
    (∃ q, AvgFunction.finalize double ⟨some w, count, .cmpFalse⟩ = .ok q) ↔
      (count = 0 ∧ w.dataType ≠ .timestamp) ∨ (count ≠ 0 ∧ w.dataType = .decimal) := by
  by_cases hcount : count = 0
  · have hfinal : AvgFunction.finalize double ⟨some w, count, .cmpFalse⟩ =
        getNullValueByType (some w.dataType) := by
      simp [AvgFunction.finalize, hcount]
    rw [hfinal]
    cases hw : w.dataType <;> simp [getNullValueByType, hcount]
  · have hcount' : ¬ count = 0#64 := hcount
    have hfinal : AvgFunction.finalize double ⟨some w, count, .cmpFalse⟩ =
        valueDivide double w (ofDouble .decimal (double.ofCount count)) := by
      simp [AvgFunction.finalize, hcount']
    rw [hfinal, valueDivide_iff double hcount]
    simp [hcount']

theorem avg_iff (rt : Runtime) (double : DoubleOps) (xs : List Value) :
    (∃ w, outcome rt (.avg double) xs = .ok w ∧ Answers (.avg double) xs w) ↔
      Enough rt (.avg double) xs := by
  cases hnonNull : nonNull xs with
  | nil =>
      have houtcome : outcome rt (.avg double) xs =
          .error (.raised "Attempting to create invalid null type") := by
        by_cases hxs : xs = []
        · subst hxs
          rfl
        · rw [outcome_of_ne hxs]
          change (xs.foldlM (fun st x => AvgFunction.update rt st [some x]) createState >>= _) = _
          rw [foldlM_nonNull avg_update_null, hnonNull]
          rfl
      rw [houtcome]
      constructor
      · rintro ⟨w, hw, -⟩
        cases hw
      · rintro ⟨⟨v, vs, w, hcons, -⟩, -⟩
        cases hnonNull.symm.trans hcons
  | cons v vs =>
      have hxs : xs ≠ [] := by
        rintro rfl
        cases hnonNull
      have houtcome : outcome rt (.avg double) xs = (do
          let w ← vs.foldlM (Value.add rt.addDouble) v
          AvgFunction.finalize double
            ⟨some w, BitVec.ofNat 64 (nonNull xs).length, .cmpFalse⟩) := by
        rw [outcome_of_ne hxs, avg_accumulate double hnonNull, bind_assoc]
        rfl
      have hanswers : ∀ w, Answers (.avg double) xs w := fun w hnil => by
        cases hnonNull.symm.trans hnil
      have hlong : 2 ^ 64 ∣ (nonNull xs).length → vs ≠ [] := by
        rintro hdvd rfl
        rw [hnonNull, List.length_singleton, Nat.dvd_one] at hdvd
        exact absurd hdvd (by decide)
      rw [houtcome]
      constructor
      · rintro ⟨q, hq, -⟩
        obtain ⟨w, hw, hfinal⟩ := bind_eq_ok.mp hq
        refine ⟨⟨v, vs, w, hnonNull, hw⟩, ?_⟩
        rcases avg_finalize_iff.mp ⟨q, hfinal⟩ with ⟨hzero, -⟩ | ⟨-, hdecimal⟩
        · exact .inr ((ofNat_eq_zero_iff _).mp hzero)
        · rw [hnonNull]
          exact .inl ((foldlM_add_types hw).1.mp hdecimal)
      · rintro ⟨⟨v', vs', w, hcons, hw⟩, hkind⟩
        cases hnonNull.symm.trans hcons
        obtain ⟨hdecimal, hsummed⟩ := foldlM_add_types hw
        have hfinal : ∃ q, AvgFunction.finalize double
            ⟨some w, BitVec.ofNat 64 (nonNull xs).length, .cmpFalse⟩ = .ok q := by
          refine avg_finalize_iff.mpr ?_
          by_cases hzero : BitVec.ofNat 64 (nonNull xs).length = 0
          · refine .inl ⟨hzero, fun ht => ?_⟩
            rcases hsummed (hlong ((ofNat_eq_zero_iff _).mp hzero)) with h | h
            · cases ht.symm.trans h
            · rw [ht] at h
              cases h
          · have hall := hkind.resolve_right fun h => hzero ((ofNat_eq_zero_iff _).mpr h)
            rw [hnonNull] at hall
            exact .inr ⟨hzero, hdecimal.mpr hall⟩
        obtain ⟨q, hq⟩ := hfinal
        exact ⟨q, by rw [hw, ok_bind]; exact hq, hanswers q⟩

/-- The condition is exact. -/
theorem answers_iff (rt : Runtime) (func : Aggregate) (xs : List Value) :
    (∃ w, outcome rt func xs = .ok w ∧ Answers func xs w) ↔ Enough rt func xs := by
  cases func with
  | avg double => exact avg_iff rt double xs
  | basic func =>
      cases func with
      | count => exact count_iff rt xs
      | countStar => exact countStar_iff rt xs
      | sum => exact folds_iff (.inl rfl) rt xs
      | min => exact folds_iff (.inr (.inl rfl)) rt xs
      | max => exact folds_iff (.inr (.inr rfl)) rt xs

end TurtleDb.Execution
