import TurtleDb.Execution.Aggregates
import TurtleDb.Execution.GroupByTheorems
import TurtleDb.Lib.Chunks

/-!
# Partial aggregation

A state says of the arguments it was updated with how many there are, or their sum, least or
greatest number. What it says of two runs of arguments gives what is to be said of both together,
and that is what `merge` computes.
-/

namespace TurtleDb.Execution

open TurtleDb.Lib TurtleDb.Datatype TurtleDb.Datatype.Value AggregateFunction AggregationExecutor

variable {rt : Runtime} {t : DataType} {a b : Option Int} {x y : Int} {v w : Value}
  {st d s : BasicAccumulatorState}

/-! ## Numbers -/

/-- `op` on the numbers, of which there may be none. -/
def reduce (op : Int → Int → Int) (ns : List Int) : Option Int :=
  ns.foldl (fun a n => Option.merge op a (some n)) none

variable {op : Int → Int → Int}

theorem reduce_concat (ns : List Int) (n : Int) :
    reduce op (ns ++ [n]) = Option.merge op (reduce op ns) (some n) := by
  rw [reduce, List.foldl_append]
  rfl

theorem reduce_append (hassoc : ∀ x y z, op (op x y) z = op x (op y z)) (ns ms : List Int) :
    reduce op (ns ++ ms) = Option.merge op (reduce op ns) (reduce op ms) := by
  induction ms using List.reverseRecOn with
  | nil => simp [reduce]
  | append_singleton ms m ih =>
      rw [← List.append_assoc, reduce_concat, ih, reduce_concat]
      cases reduce op ns with
      | none => simp
      | some x =>
          cases reduce op ms with
          | none => simp
          | some y => simp [hassoc]

theorem reduce_add (ns : List Int) : reduce (· + ·) ns = if ns = [] then none else some ns.sum := by
  induction ns using List.reverseRecOn with
  | nil => rfl
  | append_singleton ns n ih =>
      rw [reduce_concat, ih]
      by_cases h : ns = []
      · simp [h]
      · simp [h]

theorem mem_of_reduce (hop : ∀ x y, op x y = x ∨ op x y = y) {ns : List Int}
    (h : reduce op ns = some x) : x ∈ ns := by
  induction ns using List.reverseRecOn generalizing x with
  | nil => cases h
  | append_singleton ns n ih =>
      rw [reduce_concat] at h
      cases hns : reduce op ns with
      | none =>
          rw [hns, Option.merge_none_left] at h
          cases h
          simp
      | some y =>
          rw [hns, Option.merge_some_some, Option.some.injEq] at h
          rcases hop y n with heq | heq
          · exact List.mem_append_left _ (ih (hns.trans (by rw [← h, heq])))
          · rw [← h, heq]
            simp

/-! ## What a state shows -/

/-- Nothing, or the number `x` of type `t`. -/
def Shows (t : DataType) : Option Int → BasicAccumulatorState → Prop
  | none, st => st.isNull = .cmpTrue ∧ st.value = none
  | some x, st => st.isNull = .cmpFalse ∧ ∃ v, st.value = some v ∧ Carries t x v

theorem Shows.congr (h : Shows t a st) (hnull : s.isNull = st.isNull)
    (hvalue : s.value = st.value) : Shows t a s := by
  cases a with
  | none => exact ⟨hnull.trans h.1, hvalue.trans h.2⟩
  | some x => exact ⟨hnull.trans h.1, h.2.imp fun _ hv => ⟨hvalue.trans hv.1, hv.2⟩⟩

theorem Shows.unique (hd : Shows t a d) (hs : Shows t a s) :
    d.isNull = s.isNull ∧ d.value.map face = s.value.map face := by
  cases a with
  | none =>
      rw [hd.1, hd.2, hs.1, hs.2]
      exact ⟨rfl, rfl⟩
  | some x =>
      obtain ⟨hdnull, v, hdv, hv⟩ := hd
      obtain ⟨hsnull, w, hsw, hw⟩ := hs
      refine ⟨hdnull.trans hsnull.symm, ?_⟩
      rw [hdv, hsw, Option.map_some, Option.map_some, face, face, hv.dataType, hv.notNull,
        hv.number, hw.dataType, hw.notNull, hw.number]

/-- The operation on values does on the numbers of type `t` what `op` does. -/
def Implements (t : DataType) (op : Int → Int → Int)
    (operation : Value → Value → Except Fault Value) : Prop :=
  ∀ x y v w, Carries t x v → Carries t y w → t.InRange (op x y) →
    ∃ u, operation v w = .ok u ∧ Carries t (op x y) u

theorem implements_add (rt : Runtime) (ht : t.isInteger = true) :
    Implements t (· + ·) (Value.add rt.addDouble) := by
  intro x y v w hv hw hr
  exact hv.add rt.addDouble ht hw hr

theorem implements_min (ht : t.isInteger = true) : Implements t Min.min Value.min := by
  intro x y v w hv hw hr
  rw [hv.min ht hw]
  by_cases hlt : x < y
  · rw [min_eq_left (Int.le_of_lt hlt)] at hr ⊢
    rw [if_pos hlt]
    exact hv.copy ht (Int.ne_of_gt hr.1)
  · rw [min_eq_right (Int.not_lt.mp hlt)] at hr ⊢
    rw [if_neg hlt]
    exact hw.copy ht (Int.ne_of_gt hr.1)

theorem implements_max (ht : t.isInteger = true) : Implements t Max.max Value.max := by
  intro x y v w hv hw hr
  rw [hv.max ht hw]
  by_cases hlt : y < x
  · rw [max_eq_left (Int.le_of_lt hlt)] at hr ⊢
    rw [if_pos hlt]
    exact hv.copy ht (Int.ne_of_gt hr.1)
  · rw [max_eq_right (Int.not_lt.mp hlt)] at hr ⊢
    rw [if_neg hlt]
    exact hw.copy ht (Int.ne_of_gt hr.1)

variable {operation : Value → Value → Except Fault Value}

theorem combine_null (st : BasicAccumulatorState) (hv : v.isNull = true) :
    combine operation st [some v] = .ok st := by
  simp [combine, hv]

theorem Shows.combine (hop : Implements t op operation) (hst : Shows t a st) (hv : Carries t x v)
    (hr : ∀ y ∈ Option.merge op a (some x), t.InRange y) :
    ∃ st', combine operation st [some v] = .ok st' ∧
      Shows t (Option.merge op a (some x)) st' := by
  cases a with
  | none =>
      refine ⟨{ st with value := some v, isNull := .cmpFalse }, ?_, rfl, v, rfl, hv⟩
      simp [AggregateFunction.combine, hv.notNull, hst.1]
  | some y =>
      obtain ⟨hnull, u, hu, hy⟩ := hst
      obtain ⟨w, hw, hcarries⟩ := hop y x u v hy hv (hr _ rfl)
      refine ⟨{ st with value := some w }, ?_, hnull, w, rfl, hcarries⟩
      simp [AggregateFunction.combine, hv.notNull, hnull, hu, hw]

theorem Shows.mergeValues (hop : Implements t op operation) (hd : Shows t a d) (hs : Shows t b s)
    (hr : ∀ y ∈ Option.merge op a b, t.InRange y) :
    ∃ u, mergeValues operation d s = .ok u ∧ Shows t (Option.merge op a b) u := by
  cases b with
  | none =>
      refine ⟨d, by simp [AggregateFunction.mergeValues, hs.1], ?_⟩
      rwa [Option.merge_none_right]
  | some y =>
      obtain ⟨hsnull, v, hv, hy⟩ := hs
      cases a with
      | none =>
          refine ⟨{ d with value := s.value, isNull := .cmpFalse }, ?_, rfl, v, hv, hy⟩
          simp [AggregateFunction.mergeValues, hsnull, hd.1]
      | some x =>
          obtain ⟨hdnull, u, hu, hx⟩ := hd
          obtain ⟨w, hw, hcarries⟩ := hop x y u v hx hy (hr _ rfl)
          refine ⟨{ d with value := some w }, ?_, hdnull, w, rfl, hcarries⟩
          simp [AggregateFunction.mergeValues, hsnull, hdnull, hu, hv, hw]

/-! ## Runs of arguments -/

/-- Arguments of one integer type, NULL or not. No run of consecutive ones has a sum that the type
cannot hold. -/
structure Summands (t : DataType) (xs : List Value) : Prop where
  integer : t.isInteger = true
  dataType : ∀ x ∈ xs, x.dataType = t
  sums : ∀ run, run <:+: nonNull xs → t.InRange (numbers run).sum

/-- What a state has to say of the arguments `xs`. -/
def Summarises (t : DataType) (func : Aggregate) (xs : List Value) (st : BasicAccumulatorState) :
    Prop :=
  match func with
  | .basic .count => st.count = BitVec.ofNat 64 (nonNull xs).length ∧ st.isNull ≠ .cmpNull
  | .basic .countStar => st.count = BitVec.ofNat 64 xs.length ∧ st.isNull ≠ .cmpNull
  | .basic .sum => Shows t (reduce (· + ·) (numbers (nonNull xs))) st
  | .basic .min => Shows t (reduce Min.min (numbers (nonNull xs))) st
  | .basic .max => Shows t (reduce Max.max (numbers (nonNull xs))) st
  | .avg _ => Shows t (reduce (· + ·) (numbers (nonNull xs))) st ∧
      st.count = BitVec.ofNat 64 (nonNull xs).length

/-- What can be observed of a state is the same. -/
def Agrees (func : Aggregate) (st st' : BasicAccumulatorState) : Prop :=
  match func with
  | .basic .count | .basic .countStar => st.count = st'.count
  | .basic .sum | .basic .min | .basic .max =>
      st.isNull = st'.isNull ∧ st.value.map face = st'.value.map face
  | .avg _ => (st.isNull = st'.isNull ∧ st.value.map face = st'.value.map face) ∧
      st.count = st'.count

variable {func : Aggregate} {xs ys whole : List Value}

theorem Summarises.agrees (h : Summarises t func xs st) (h' : Summarises t func xs s) :
    Agrees func st s := by
  cases func with
  | basic func =>
      cases func with
      | count | countStar => exact h.1.trans h'.1.symm
      | sum | min | max => exact Shows.unique h h'
  | avg double => exact ⟨Shows.unique h.1 h'.1, h.2.trans h'.2.symm⟩

theorem nonNull_append (xs ys : List Value) : nonNull (xs ++ ys) = nonNull xs ++ nonNull ys :=
  List.filter_append ..

theorem nonNull_single (hv : v.isNull = false) : nonNull [v] = [v] := by
  simp [nonNull, hv]

theorem nonNull_single_null (hv : v.isNull = true) : nonNull [v] = [] := by
  simp [nonNull, hv]

theorem numbers_append (xs ys : List Value) : numbers (xs ++ ys) = numbers xs ++ numbers ys :=
  List.map_append

theorem isInfix_nonNull (h : xs <:+: whole) : nonNull xs <:+: nonNull whole := h.filter _

/-! ## SUM, MIN and MAX -/

/-- The numbers that come up are all of the type. -/
def InRangeOn (t : DataType) (op : Int → Int → Int) (whole : List Value) : Prop :=
  ∀ xs, xs <:+: whole → ∀ y ∈ reduce op (numbers (nonNull xs)), t.InRange y

theorem Summands.inRange_add (h : Summands t whole) : InRangeOn t (· + ·) whole := by
  intro xs hxs y hy
  rw [reduce_add] at hy
  split at hy
  next => cases hy
  next =>
    cases hy
    exact h.sums _ (isInfix_nonNull hxs)

theorem Summands.inRange_choice (h : Summands t whole) (hop : ∀ x y, op x y = x ∨ op x y = y) :
    InRangeOn t op whole := by
  intro xs hxs y hy
  obtain ⟨v, hv, rfl⟩ := List.mem_map.mp (mem_of_reduce hop hy)
  have hmem : v ∈ nonNull whole := (isInfix_nonNull hxs).subset hv
  have hsum := h.sums [v] ((List.singleton_infix_iff v _).mpr hmem)
  simpa [numbers] using hsum

/-- A function that folds numbers with `op`. -/
theorem sums_values (h : Summands t whole) (hop : Implements t op operation)
    (hassoc : ∀ x y z, op (op x y) z = op x (op y z)) (hr : InRangeOn t op whole) :
    Chunks.Sums (fun st x => combine operation st [some x]) (mergeValues operation) createState
      (fun xs st => Shows t (reduce op (numbers (nonNull xs))) st) whole where
  init := ⟨rfl, rfl⟩
  update xs x st hxs hst := by
    have hrange := hr _ hxs
    rw [nonNull_append, numbers_append] at hrange ⊢
    cases hx : x.isNull with
    | true =>
        rw [nonNull_single_null hx]
        exact ⟨st, combine_null st hx, by simpa [numbers] using hst⟩
    | false =>
        have hcarries : Carries t x.number x :=
          .of_notNull (h.dataType x (hxs.subset (by simp))) hx
        rw [nonNull_single hx, numbers, numbers, List.map_singleton, reduce_concat] at hrange ⊢
        exact hst.combine hop hcarries hrange
  merge xs ys d s hxs hd hs := by
    have hrange := hr _ hxs
    rw [nonNull_append, numbers_append, reduce_append hassoc] at hrange ⊢
    exact hd.mergeValues hop hs hrange

/-! ## AVG -/

theorem combine_count {args : List (Option Value)} (h : combine operation st args = .ok s) :
    s.count = st.count := by
  unfold combine at h
  split at h
  · split at h
    · cases h
      rfl
    · split at h
      · cases h
        rfl
      · split at h
        · cases h
        · obtain ⟨w, -, hw⟩ := bind_eq_ok.mp h
          cases hw
          rfl
  · cases h
    rfl

theorem mergeValues_count {u : BasicAccumulatorState} (h : mergeValues operation d s = .ok u) :
    u.count = d.count := by
  unfold mergeValues at h
  split at h
  · cases h
    rfl
  · split at h
    · cases h
      rfl
    · split at h
      · obtain ⟨w, -, hw⟩ := bind_eq_ok.mp h
        cases hw
        rfl
      · cases h

theorem ofNat_length_append (xs ys : List Value) :
    BitVec.ofNat 64 (xs ++ ys).length = BitVec.ofNat 64 xs.length + BitVec.ofNat 64 ys.length := by
  rw [List.length_append, BitVec.ofNat_add]

theorem sums_avg (h : Summands t whole) :
    Chunks.Sums (fun st x => AvgFunction.update rt st [some x]) (AvgFunction.merge rt) createState
      (fun xs st => Shows t (reduce (· + ·) (numbers (nonNull xs))) st ∧
        st.count = BitVec.ofNat 64 (nonNull xs).length) whole := by
  have hvalues := sums_values h (implements_add rt h.integer) Int.add_assoc h.inRange_add
  refine ⟨⟨hvalues.init, rfl⟩, ?_, ?_⟩
  · rintro xs x st hxs ⟨hst, hcount⟩
    cases hx : x.isNull with
    | true =>
        refine ⟨st, by simp [AvgFunction.update, checkCmpIsNull, hx]; rfl, ?_⟩
        rw [nonNull_append, nonNull_single_null hx, List.append_nil]
        exact ⟨hst, hcount⟩
    | false =>
        obtain ⟨st', hst', hshows⟩ := hvalues.update xs x st hxs hst
        refine ⟨{ st' with count := st'.count + 1 }, ?_, hshows.congr rfl rfl, ?_⟩
        · simp [AvgFunction.update, checkCmpIsNull, hx, hst']
        · rw [nonNull_append, nonNull_single hx, ofNat_length_append, ← hcount,
            ← combine_count hst']
          rfl
  · rintro xs ys d s hxs ⟨hd, hdcount⟩ ⟨hs, hscount⟩
    obtain ⟨u, hu, hshows⟩ := hvalues.merge xs ys d s hxs hd hs
    by_cases hnull : s.isNull = .cmpTrue
    · have hnil : nonNull ys = [] := by
        by_contra hne
        rw [reduce_add, if_neg (by simpa [numbers] using hne)] at hs
        exact absurd (hs.1.symm.trans hnull) (by decide)
      refine ⟨d, by simp [AvgFunction.merge, hnull]; rfl, ?_⟩
      rw [nonNull_append, hnil, List.append_nil]
      exact ⟨hd, hdcount⟩
    · refine ⟨{ u with count := u.count + s.count }, ?_, hshows.congr rfl rfl, ?_⟩
      · simp [AvgFunction.merge, hnull, hu]
      · rw [nonNull_append, ofNat_length_append, ← hdcount, ← hscount, ← mergeValues_count hu]

/-! ## COUNT -/

theorem mergeCounts_count (hd : d.isNull ≠ .cmpNull) (hs : s.isNull ≠ .cmpNull) :
    (mergeCounts d s).count = d.count + s.count ∧ (mergeCounts d s).isNull ≠ .cmpNull := by
  simp [mergeCounts, hd, hs]

theorem sums_countStar (rt : Runtime) (whole : List Value) :
    Chunks.Sums (fun st x => AggregateFunction.update rt .countStar st [some x])
      (fun d s => .ok (mergeCounts d s)) createState
      (fun xs st => st.count = BitVec.ofNat 64 xs.length ∧ st.isNull ≠ .cmpNull) whole where
  init := ⟨rfl, by decide⟩
  update xs x st _ hst := by
    refine ⟨_, rfl, ?_, fun h => CmpBool.noConfusion h⟩
    rw [ofNat_length_append, ← hst.1]
    rfl
  merge xs ys d s _ hd hs := by
    have hmerge := mergeCounts_count hd.2 hs.2
    refine ⟨_, rfl, ?_, hmerge.2⟩
    rw [ofNat_length_append, ← hd.1, ← hs.1, hmerge.1]

theorem sums_count (rt : Runtime) (whole : List Value) :
    Chunks.Sums (fun st x => AggregateFunction.update rt .count st [some x])
      (fun d s => .ok (mergeCounts d s)) createState
      (fun xs st => st.count = BitVec.ofNat 64 (nonNull xs).length ∧ st.isNull ≠ .cmpNull)
      whole where
  init := ⟨rfl, by decide⟩
  update xs x st _ hst := by
    rw [nonNull_append]
    cases hx : x.isNull with
    | true =>
        refine ⟨st, by simp [AggregateFunction.update, checkCmpIsNull, hx], ?_, hst.2⟩
        rw [nonNull_single_null hx, List.append_nil, hst.1]
    | false =>
        refine ⟨{ st with count := st.count + 1, isNull := .cmpFalse }, ?_, ?_,
          fun h => CmpBool.noConfusion h⟩
        · simp [AggregateFunction.update, checkCmpIsNull, hx]
        · rw [nonNull_single hx, ofNat_length_append, ← hst.1]
          rfl
  merge xs ys d s _ hd hs := by
    have hmerge := mergeCounts_count hd.2 hs.2
    refine ⟨_, rfl, ?_, hmerge.2⟩
    rw [nonNull_append, ofNat_length_append, ← hd.1, ← hs.1, hmerge.1]

/-! ## All functions -/

theorem sums_aggregate (rt : Runtime) (func : Aggregate) (h : Summands t whole) :
    Chunks.Sums (fun st x => func.update rt st [some x]) (func.merge rt) createState
      (Summarises t func) whole := by
  cases func with
  | basic func =>
      cases func with
      | count => exact sums_count rt whole
      | countStar => exact sums_countStar rt whole
      | sum => exact sums_values h (implements_add rt h.integer) Int.add_assoc h.inRange_add
      | min =>
          exact sums_values h (implements_min h.integer) min_assoc (h.inRange_choice min_choice)
      | max =>
          exact sums_values h (implements_max h.integer) max_assoc (h.inRange_choice max_choice)
  | avg double => exact sums_avg h

/-- However a list of arguments is cut into chunks and the states of the chunks are merged, what can
be observed is the state of the whole list. Merging in a fresh state changes nothing. -/
theorem merges_to_fold (rt : Runtime) (func : Aggregate) (t : DataType) (tree : Chunks Value)
    (h : Summands t tree.items) :
    ∃ whole merged, func.accumulate rt tree.items = .ok whole ∧
      tree.summarise (func.accumulate rt) (func.merge rt) = .ok merged ∧
      Agrees func merged whole ∧
      (∃ st, func.merge rt createState merged = .ok st ∧ Agrees func st merged) ∧
      ∃ st, func.merge rt merged createState = .ok st ∧ Agrees func st merged := by
  have hsums := sums_aggregate rt func h
  obtain ⟨whole, hwhole, hR⟩ := hsums.fold List.infix_rfl
  obtain ⟨merged, hmerged, hR'⟩ := hsums.summarise tree List.infix_rfl
  obtain ⟨⟨l, hl, hRl⟩, r, hr, hRr⟩ := hsums.merge_init List.infix_rfl hR'
  exact ⟨whole, merged, hwhole, hmerged, hR'.agrees hR, ⟨l, hl, hRl.agrees hR'⟩,
    r, hr, hRr.agrees hR'⟩

/-- The states of the chunks 5, nothing and NULL. -/
theorem merges_to_fold_min : ∃ whole merged,
    (Aggregate.basic .min).accumulate plainRuntime [ofInteger .tinyint 5, null .tinyint] =
        .ok whole ∧
      (Chunks.join (.chunk [ofInteger .tinyint 5])
        (.join (.chunk []) (.chunk [null .tinyint]))).summarise
          ((Aggregate.basic .min).accumulate plainRuntime)
          ((Aggregate.basic .min).merge plainRuntime) = .ok merged ∧
      Agrees (.basic .min) merged whole ∧
      (∃ st, (Aggregate.basic .min).merge plainRuntime createState merged = .ok st ∧
        Agrees (.basic .min) st merged) ∧
      ∃ st, (Aggregate.basic .min).merge plainRuntime merged createState = .ok st ∧
        Agrees (.basic .min) st merged := by
  refine merges_to_fold plainRuntime (.basic .min) .tinyint
    (.join (.chunk [ofInteger .tinyint 5]) (.join (.chunk []) (.chunk [null .tinyint])))
    ⟨rfl, ?_, ?_⟩
  · intro x hx
    rcases List.mem_cons.mp hx with rfl | hx
    · rfl
    · cases List.mem_singleton.mp hx
      rfl
  · intro run hrun
    have hnonNull : nonNull [ofInteger .tinyint 5, null .tinyint] = [ofInteger .tinyint 5] := by
      decide
    rcases List.sublist_singleton.mp (hnonNull ▸ hrun.sublist) with rfl | rfl
    · decide
    · decide

end TurtleDb.Execution
