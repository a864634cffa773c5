import TurtleDb.Execution.Answers

/-!
# Aggregation without GROUP BY

All rows have the empty key, so the table has one element. A child without rows is replaced by one
row of NULLs, so that there is an element in any case. The single row that the executor should emit
is compared with what comes out of it.
-/

namespace TurtleDb.Execution.AggregationExecutor

open TurtleDb.Lib TurtleDb.Table TurtleDb.Datatype TurtleDb.Datatype.Value AggregateFunction
  AggregationHashTable

variable {rt : Runtime} {φ σ : Type} [Aggregating φ] {funcs : List φ}
  {states out : List BasicAccumulatorState} {argss : List (List (Option Value))}

/-! ## The states of the only group -/

/-- The `i`-th arguments of the rows. -/
def argColumn (i : Nat) (argss : List (List (Option Value))) : List (Option Value) :=
  argss.filterMap fun args => args[i]?

/-- One state, updated with the arguments of all rows. -/
def updateAll (rt : Runtime) (func : φ) (st : BasicAccumulatorState) (args : List (Option Value)) :
    Except Fault BasicAccumulatorState :=
  args.foldlM (fun st arg => Aggregating.update rt func st [arg]) st

theorem argColumn_cons {i : Nat} {args : List (Option Value)} {arg : Option Value}
    (h : args[i]? = some arg) : argColumn i (args :: argss) = arg :: argColumn i argss := by
  rw [argColumn, List.filterMap_cons, h]
  rfl

omit [Aggregating φ] in
theorem getElem?_of_length {α : Type} {l : List α} {i : Nat} {func : φ}
    (hlen : l.length = funcs.length) (h : funcs[i]? = some func) : ∃ a, l[i]? = some a := by
  have hi : i < l.length := by
    rw [hlen]
    exact (List.getElem?_eq_some_iff.mp h).1
  exact ⟨l[i], List.getElem?_eq_getElem hi⟩

/-- The rows go into all states at once. Each state sees its own column. -/
theorem foldlM_updateStates_of_ok (hs : states.length = funcs.length)
    (ha : ∀ args ∈ argss, args.length = funcs.length)
    (h : argss.foldlM (updateStates rt funcs) states = .ok out) :
    out.length = funcs.length ∧
      ∀ (i : Nat) func st st', funcs[i]? = some func → states[i]? = some st →
        out[i]? = some st' → updateAll rt func st (argColumn i argss) = .ok st' := by
  induction argss generalizing states with
  | nil =>
      cases h
      refine ⟨hs, fun i func st st' _ hst hst' => ?_⟩
      cases hst.symm.trans hst'
      rfl
  | cons args argss ih =>
      rw [List.foldlM_cons] at h
      obtain ⟨mid, hmid, h⟩ := bind_eq_ok.mp h
      have hargs := ha args List.mem_cons_self
      obtain ⟨hlen, hall⟩ := updateStates_of_ok hs hargs hmid
      obtain ⟨hlen', hall'⟩ := ih hlen (fun a h => ha a (List.mem_cons_of_mem _ h)) h
      refine ⟨hlen', fun i func st st' hf hst hst' => ?_⟩
      obtain ⟨m, hm⟩ := getElem?_of_length hlen hf
      obtain ⟨arg, harg⟩ := getElem?_of_length hargs hf
      rw [argColumn_cons harg, updateAll, List.foldlM_cons, hall i func st arg m hf hst harg hm]
      exact hall' i func m st' hf hm hst'

theorem exists_foldlM_updateStates (hs : states.length = funcs.length)
    (ha : ∀ args ∈ argss, args.length = funcs.length)
    (h : ∀ (i : Nat) func st, funcs[i]? = some func → states[i]? = some st →
      ∃ st', updateAll rt func st (argColumn i argss) = .ok st') :
    ∃ out, argss.foldlM (updateStates rt funcs) states = .ok out := by
  induction argss generalizing states with
  | nil => exact ⟨states, rfl⟩
  | cons args argss ih =>
      have hargs := ha args List.mem_cons_self
      have hstep : ∀ (i : Nat) func st arg, funcs[i]? = some func → states[i]? = some st →
          args[i]? = some arg → ∃ m, Aggregating.update rt func st [arg] = .ok m ∧
            ∃ st', updateAll rt func m (argColumn i argss) = .ok st' := by
        intro i func st arg hf hst harg
        obtain ⟨st', hst'⟩ := h i func st hf hst
        rw [argColumn_cons harg, updateAll, List.foldlM_cons] at hst'
        obtain ⟨m, hm, hrest⟩ := bind_eq_ok.mp hst'
        exact ⟨m, hm, st', hrest⟩
      obtain ⟨mid, hmid⟩ := exists_updateStates hs hargs fun i func st arg hf hst harg =>
        (hstep i func st arg hf hst harg).imp fun _ hm => hm.1
      obtain ⟨hlen, hall⟩ := updateStates_of_ok hs hargs hmid
      obtain ⟨out, hout⟩ := ih hlen (fun a h => ha a (List.mem_cons_of_mem _ h)) (by
        intro i func m hf hm
        obtain ⟨st, hst⟩ := getElem?_of_length hs hf
        obtain ⟨arg, harg⟩ := getElem?_of_length hargs hf
        obtain ⟨m', hm', hrest⟩ := hstep i func st arg hf hst harg
        cases (hall i func st arg m hf hst harg hm).symm.trans hm'
        exact hrest)
      exact ⟨out, by rw [List.foldlM_cons, hmid]; exact hout⟩

/-! ## The table -/

theorem emptyKey_equivalence {keys : List (List Value)} (h : ∀ key ∈ keys, key = []) :
    EquivalenceOn AggregateKey.equal (AggregateKey.hash rt) (fun a b => a = b) keys where
  decides a ha b hb := by
    rw [h a ha, h b hb]
    exact ⟨true, rfl, by simp⟩
  refl _ _ := rfl
  symm _ _ _ _ hab := hab.symm
  trans _ _ _ _ _ _ hab hbc := hab.trans hbc
  hash a ha b hb _ := by rw [h a ha, h b hb]

/-- The states of a new element. -/
def freshStates (funcs : List φ) : List BasicAccumulatorState := funcs.map fun _ => createState

theorem insertCombine_first (hmap : rt.map.Correct) (args : List (Option Value)) :
    insertCombine rt funcs [] [] args = (do
      let states ← updateStates rt funcs (freshStates funcs) args
      return [([], states)]) := by
  have hequiv : EquivalenceOn AggregateKey.equal (AggregateKey.hash rt) (fun a b => a = b)
      ([] :: ([] : List Entry).map Prod.fst) := emptyKey_equivalence (by simp)
  have hfind : rt.map.find AggregateKey.equal (AggregateKey.hash rt) [] [] = .ok none := by
    rcases hmap.find_cases hequiv List.Pairwise.nil with ⟨i, e, -, hi, -⟩ | ⟨hfind, -⟩
    · cases hi
    · exact hfind
  rw [insertCombine, findOrCreate, hfind]
  rfl

theorem insertCombine_again (hmap : rt.map.Correct) (states : List BasicAccumulatorState)
    (args : List (Option Value)) :
    insertCombine rt funcs [([], states)] [] args = (do
      let states ← updateStates rt funcs states args
      return [([], states)]) := by
  have hequiv : EquivalenceOn AggregateKey.equal (AggregateKey.hash rt) (fun a b => a = b)
      ([] :: [(([], states) : Entry)].map Prod.fst) := emptyKey_equivalence (by simp)
  have hfind : rt.map.find AggregateKey.equal (AggregateKey.hash rt) [([], states)] [] =
      .ok (some 0) := by
    rcases hmap.find_cases hequiv (List.pairwise_singleton _ _) with
      ⟨i, e, hfind, hi, -⟩ | ⟨-, hnone⟩
    · obtain rfl : i = 0 := by
        have hlt := (List.getElem?_eq_some_iff.mp hi).1
        exact Nat.lt_one_iff.mp hlt
      exact hfind
    · exact absurd rfl (hnone _ List.mem_cons_self)
  rw [insertCombine, findOrCreate, hfind]
  rfl

theorem insertInputs_again (hmap : rt.map.Correct) {inputs : List Input}
    (hkeys : ∀ input ∈ inputs, input.1 = []) (states : List BasicAccumulatorState) :
    insertInputs rt funcs [([], states)] inputs = (do
      let states ← (inputs.map fun input => input.2.map some).foldlM (updateStates rt funcs) states
      return [([], states)]) := by
  induction inputs generalizing states with
  | nil => rfl
  | cons input inputs ih =>
      rw [insertInputs, List.foldlM_cons, hkeys input List.mem_cons_self,
        insertCombine_again hmap, List.map_cons, List.foldlM_cons]
      cases updateStates rt funcs states (input.2.map some) with
      | error e => rfl
      | ok states' => exact ih (fun i hi => hkeys i (List.mem_cons_of_mem _ hi)) states'

/-- The arguments the functions are updated with: without a row of the child, NULLs. -/
def argumentsOf (funcs : List φ) (inputs : List Input) : List (List (Option Value)) :=
  if inputs = [] then [funcs.map fun _ => none] else inputs.map fun input => input.2.map some

variable {plan : AggregationPlan φ} {child : AbstractExecutor σ} {fuel : Nat} {c : σ}
  {rows : List Row} {input : Row → Input}

theorem init_keyless (hmap : rt.map.Correct) (hkeyless : plan.groupBys = [])
    (hinput : ∀ row ∈ rows, inputOf plan row.1 = .ok (input row))
    (hkeys : ∀ row ∈ rows, (input row).1 = []) (hchild : Yields child (fun _ => 256) c rows)
    (hfuel : rows.length < fuel) :
    init rt plan child fuel c = (do
      let states ← (argumentsOf plan.aggFuncs (rows.map input)).foldlM
        (updateStates rt plan.aggFuncs) (freshStates plan.aggFuncs)
      return { ahead := [([], states)] }) := by
  have horder : ∀ e : Entry, rt.map.order [e] = [e] := fun e =>
    List.perm_singleton.mp (hmap.order_perm [e])
  rw [init_eq hchild hfuel, insertBatch_eq hinput, hkeyless]
  cases rows with
  | nil =>
      rw [List.map_nil, argumentsOf, if_pos rfl, List.foldlM_cons, insertInputs]
      change (insertCombine rt plan.aggFuncs [] [] _ >>= _) = _
      rw [insertCombine_first hmap]
      cases updateStates rt plan.aggFuncs (freshStates plan.aggFuncs)
          (plan.aggFuncs.map fun _ => none) with
      | error e => rfl
      | ok states =>
          change Except.ok _ = Except.ok _
          rw [horder]
  | cons row rows =>
      have hkey := hkeys row List.mem_cons_self
      rw [argumentsOf, if_neg (by simp), List.map_cons, List.map_cons, List.foldlM_cons,
        insertInputs, List.foldlM_cons, hkey, insertCombine_first hmap]
      cases updateStates rt plan.aggFuncs (freshStates plan.aggFuncs)
          ((input row).2.map some) with
      | error e => rfl
      | ok states =>
          change (insertInputs rt plan.aggFuncs [([], states)] (rows.map input) >>= _) = _
          rw [insertInputs_again hmap (by
            intro e he
            obtain ⟨r, hr, rfl⟩ := List.mem_map.mp he
            exact hkeys r (List.mem_cons_of_mem _ hr))]
          change _ = ((rows.map input).map (fun input => input.2.map some)).foldlM _ states >>= _
          cases ((rows.map input).map fun input => input.2.map some).foldlM
              (updateStates rt plan.aggFuncs) states with
          | error e => rfl
          | ok states' =>
              change Except.ok _ = Except.ok _
              rw [horder]

theorem nextWith_single (states : List BasicAccumulatorState) :
    nextWith plan .ok { ahead := [([], states)] } 1 = (do
      let ws ← finalizeAll plan.aggFuncs states
      return (some [ws], { ahead := [] })) := by
  rw [nextWith, List.take_one, List.head?_cons, Option.toList_some, List.mapM_cons, List.mapM_nil,
    valuesOf]
  cases finalizeAll plan.aggFuncs states <;> rfl

/-- What is emitted is the row of the finalized states. -/
theorem emits_keyless_iff (hmap : rt.map.Correct) (hkeyless : plan.groupBys = [])
    (hinput : ∀ row ∈ rows, inputOf plan row.1 = .ok (input row))
    (hkeys : ∀ row ∈ rows, (input row).1 = []) (hchild : Yields child (fun _ => 256) c rows)
    (hfuel : rows.length < fuel) (ws : List Value) :
    Emits rt plan child fuel c [ws] ↔
      ∃ states, (argumentsOf plan.aggFuncs (rows.map input)).foldlM
          (updateStates rt plan.aggFuncs) (freshStates plan.aggFuncs) = .ok states ∧
        finalizeAll plan.aggFuncs states = .ok ws := by
  have hinit := init_keyless hmap hkeyless hinput hkeys hchild hfuel
  constructor
  · rintro ⟨s, hs, hyields⟩
    obtain ⟨states, hstates, hs'⟩ := bind_eq_ok.mp (hinit.symm.trans hs)
    cases hs'
    have hone := hyields (fun _ => 1) fun _ => Nat.le_refl 1
    generalize hout : [ws] = out at hone
    cases hone with
    | stop _ => cases hout
    | @batch _ _ _ b rest h hb hrest =>
        obtain ⟨finals, hfinals, hbatch⟩ := bind_eq_ok.mp ((nextWith_single states).symm.trans h)
        cases hbatch
        cases hout
        exact ⟨states, hstates, hfinals⟩
  · rintro ⟨states, hstates, hws⟩
    refine ⟨_, by rw [hinit, hstates]; rfl, fun size hsize => ?_⟩
    refine @yields_ahead _ _ _ _ hsize (fun _ => ws) [([], states)] fun e he => ?_
    rw [List.mem_singleton.mp he, valuesOf, hws]
    rfl

/-! ## The row that should come out -/

/-- One row is emitted, in which every function answers for its column. It is handed on as the tuple
of the output schema that can be made of it. -/
def EmitsOneRow (rt : Runtime) (plan : AggregationPlan Aggregate) (child : AbstractExecutor σ)
    (fuel : Nat) (c : σ) (inputs : List Input) : Prop :=
  ∃ ws, Emits rt plan child fuel c [ws] ∧ ws.length = plan.aggFuncs.length ∧
    (∀ (i : Nat) func w, plan.aggFuncs[i]? = some func → ws[i]? = some w →
      Answers func (column i inputs) w) ∧
    ∀ row, makeRow plan ws = .ok row → ∃ s, init rt plan child fuel c = .ok s ∧
      ∀ size : Nat → Nat, (∀ i, 1 ≤ size i) → Yields (next plan) size s [row]

omit [Aggregating φ] in
theorem inputOf_keyless {tuple : Tuple} {e : Input} (hkeyless : plan.groupBys = [])
    (h : inputOf plan tuple = .ok e) : e.1 = [] := by
  rw [inputOf, hkeyless] at h
  obtain ⟨keys, hkeys, h⟩ := bind_eq_ok.mp h
  obtain ⟨vals, -, h⟩ := bind_eq_ok.mp h
  cases h
  cases hkeys
  rfl

omit [Aggregating φ] in
theorem argColumn_argumentsOf {inputs : List Input} {i : Nat} {func : φ}
    (hf : funcs[i]? = some func) (hlen : ∀ e ∈ inputs, e.2.length = funcs.length) :
    argColumn i (argumentsOf funcs inputs) = fed (column i inputs) := by
  cases inputs with
  | nil =>
      rw [argumentsOf, if_pos rfl, argColumn, List.filterMap_cons, List.getElem?_map, hf]
      rfl
  | cons e inputs =>
      obtain ⟨v, hv⟩ := getElem?_of_length (hlen e List.mem_cons_self) hf
      have hne : column i (e :: inputs) ≠ [] := by
        rw [column, List.filterMap_cons, hv]
        simp
      rw [argumentsOf, if_neg (by simp), fed, if_neg hne, argColumn, List.filterMap_map, column,
        List.map_filterMap]
      congr 1
      funext d
      exact List.getElem?_map ..

omit [Aggregating φ] in
theorem argumentsOf_length {inputs : List Input}
    (hlen : ∀ e ∈ inputs, e.2.length = funcs.length) :
    ∀ args ∈ argumentsOf funcs inputs, args.length = funcs.length := by
  intro args hargs
  rw [argumentsOf] at hargs
  split at hargs
  next =>
    rw [List.mem_singleton.mp hargs, List.length_map]
  next =>
    obtain ⟨e, he, rfl⟩ := List.mem_map.mp hargs
    rw [List.length_map, hlen e he]

/-- Without GROUP BY, one row with the right counts and NULLs is emitted exactly when there is
enough data for every function. -/
theorem emitsOneRow_iff {rt : Runtime} (hmap : rt.map.Correct) {plan : AggregationPlan Aggregate}
    (hkeyless : plan.groupBys = []) (hargs : plan.aggregates.length = plan.aggFuncs.length)
    {child : AbstractExecutor σ} {fuel : Nat} {c : σ} {rows : List Row} {input : Row → Input}
    (hinput : ∀ row ∈ rows, inputOf plan row.1 = .ok (input row))
    (hchild : Yields child (fun _ => 256) c rows) (hfuel : rows.length < fuel) :
    EmitsOneRow rt plan child fuel c (rows.map input) ↔
      ∀ (i : Nat) func, plan.aggFuncs[i]? = some func →
        Enough rt func (column i (rows.map input)) := by
  have hkeys : ∀ row ∈ rows, (input row).1 = [] := fun row hrow =>
    inputOf_keyless hkeyless (hinput row hrow)
  have hlen : ∀ e ∈ rows.map input, e.2.length = plan.aggFuncs.length := by
    intro e he
    obtain ⟨row, hrow, rfl⟩ := List.mem_map.mp he
    exact (length_of_inputOf (hinput row hrow)).trans hargs
  have hfresh : (freshStates plan.aggFuncs).length = plan.aggFuncs.length := List.length_map ..
  have hcreate : ∀ (i : Nat) func st, plan.aggFuncs[i]? = some func →
      (freshStates plan.aggFuncs)[i]? = some st → st = createState := by
    intro i func st hf hst
    rw [freshStates, List.getElem?_map, hf] at hst
    cases hst
    rfl
  have hemits := emits_keyless_iff hmap hkeyless hinput hkeys hchild hfuel
  constructor
  · rintro ⟨ws, hws, -, hanswers, -⟩ i func hf
    obtain ⟨states, hstates, hfinal⟩ := (hemits ws).mp hws
    obtain ⟨hslen, hcolumns⟩ :=
      foldlM_updateStates_of_ok hfresh (argumentsOf_length hlen) hstates
    obtain ⟨hwlen, hvalues⟩ := finalizeAll_of_ok hslen hfinal
    obtain ⟨st₀, hst₀⟩ := getElem?_of_length hfresh hf
    obtain ⟨st, hst⟩ := getElem?_of_length hslen hf
    obtain ⟨w, hw⟩ := getElem?_of_length hwlen hf
    have hupdate := hcolumns i func st₀ st hf hst₀ hst
    rw [argColumn_argumentsOf hf hlen, hcreate i func st₀ hf hst₀] at hupdate
    refine (answers_iff rt func _).mp ⟨w, ?_, hanswers i func w hf hw⟩
    exact bind_eq_ok.mpr ⟨st, hupdate, hvalues i func st w hf hst hw⟩
  · intro h
    have houtcome : ∀ (i : Nat) func, plan.aggFuncs[i]? = some func → ∃ st w,
        updateAll rt func createState (argColumn i (argumentsOf plan.aggFuncs (rows.map input))) =
          .ok st ∧ func.finalize st = .ok w ∧ Answers func (column i (rows.map input)) w := by
      intro i func hf
      obtain ⟨w, hw, hanswer⟩ := (answers_iff rt func _).mpr (h i func hf)
      obtain ⟨st, hst, hw⟩ := bind_eq_ok.mp hw
      rw [argColumn_argumentsOf hf hlen]
      exact ⟨st, w, hst, hw, hanswer⟩
    obtain ⟨states, hstates⟩ := exists_foldlM_updateStates hfresh (argumentsOf_length hlen) (by
      intro i func st hf hst
      obtain ⟨st', w, hst', -⟩ := houtcome i func hf
      rw [hcreate i func st hf hst]
      exact ⟨st', hst'⟩)
    obtain ⟨hslen, hcolumns⟩ :=
      foldlM_updateStates_of_ok hfresh (argumentsOf_length hlen) hstates
    have hfinalize : ∀ (i : Nat) func st, plan.aggFuncs[i]? = some func → states[i]? = some st →
        ∃ w, func.finalize st = .ok w ∧ Answers func (column i (rows.map input)) w := by
      intro i func st hf hst
      obtain ⟨st', w, hst', hw, hanswer⟩ := houtcome i func hf
      obtain ⟨st₀, hst₀⟩ := getElem?_of_length hfresh hf
      have hupdate := hcolumns i func st₀ st hf hst₀ hst
      rw [hcreate i func st₀ hf hst₀] at hupdate
      cases hupdate.symm.trans hst'
      exact ⟨w, hw, hanswer⟩
    obtain ⟨ws, hws⟩ := exists_finalizeAll hslen fun i func st hf hst =>
      (hfinalize i func st hf hst).imp fun _ hw => hw.1
    obtain ⟨hwlen, hvalues⟩ := finalizeAll_of_ok hslen hws
    have hrow := (hemits ws).mpr ⟨states, hstates, hws⟩
    refine ⟨ws, hrow, hwlen, ?_, fun row hmake => ?_⟩
    · intro i func w hf hw
      obtain ⟨st, hst⟩ := getElem?_of_length hslen hf
      obtain ⟨w', hw', hanswer⟩ := hfinalize i func st hf hst
      cases (hvalues i func st w hf hst hw).symm.trans hw'
      exact hanswer
    · have hmade : ∀ values ∈ [ws],
          makeRow plan values = .ok ((fun _ : List Value => row) values) := by
        intro values hvalues
        rw [List.mem_singleton.mp hvalues, hmake]
      exact hrow.yields_next hmade

/-! ## One column -/

def oneSchema : ColumnSchema := [⟨"x", .integer, 4⟩]

/-- `SELECT f(x), …` for the given functions. -/
def onePlan (funcs : List Aggregate) : AggregationPlan Aggregate where
  outputSchema := funcs.map fun _ => ⟨"f", .integer, 4⟩
  groupBys := []
  aggregates := funcs.map fun _ tuple => tuple.value oneSchema 0
  aggFuncs := funcs

/-- A tuple with the byte `x` in the column, and one with NULL. -/
def oneRow (x : UInt8) : Row := (⟨[0, x, 0, 0, 0], .invalid⟩, .invalid)

def nullRow : Row := (⟨[1, 0, 0, 0, 0], .invalid⟩, .invalid)

def oneInput (funcs : List Aggregate) (row : Row) : Input :=
  (inputOf (onePlan funcs) row.1).toOption.getD ([], [])

/-- Two rows, of which one has a NULL. -/
theorem emitsOneRow_five :
    EmitsOneRow plainRuntime (onePlan [.basic .countStar, .basic .count, .basic .sum]) listSource 3
      [oneRow 5, nullRow]
      ([oneRow 5, nullRow].map (oneInput [.basic .countStar, .basic .count, .basic .sum])) := by
  have hyields : Yields (listSource : AbstractExecutor (List Row)) (fun _ => 256)
      [oneRow 5, nullRow] [oneRow 5, nullRow] :=
    listSource_delivers.yields (fun _ => by decide) _
  have hinput : ∀ row ∈ [oneRow 5, nullRow],
      inputOf (onePlan [.basic .countStar, .basic .count, .basic .sum]) row.1 =
        .ok (oneInput [.basic .countStar, .basic .count, .basic .sum] row) := by
    intro row hrow
    rcases List.mem_cons.mp hrow with rfl | hrow
    · rfl
    · cases List.mem_singleton.mp hrow
      rfl
  refine (emitsOneRow_iff scanMap_correct rfl rfl hinput hyields (by decide)).mpr ?_
  intro i func hf
  match i, hf with
  | 0, hf =>
      cases hf
      exact ⟨List.cons_ne_nil _ _, (by decide : 2 < 2 ^ 63)⟩
  | 1, hf =>
      cases hf
      exact (by decide : 1 < 2 ^ 31)
  | 2, hf =>
      cases hf
      exact ⟨ofInt32 .integer 5, [], ofInt32 .integer 5, rfl, rfl⟩

/-- Over no rows COUNT(*) is 1, and over a single NULL there is no SUM. -/
theorem not_emitsOneRow :
    ¬ EmitsOneRow plainRuntime (onePlan [.basic .countStar]) listSource 1 [] [] ∧
      ¬ EmitsOneRow plainRuntime (onePlan [.basic .sum]) listSource 2 [nullRow]
        ([nullRow].map (oneInput [.basic .sum])) := by
  constructor
  · rintro ⟨ws, hws, -, hanswers, -⟩
    have hyields : Yields (listSource : AbstractExecutor (List Row)) (fun _ => 256) [] [] :=
      listSource_delivers.yields (fun _ => by decide) _
    obtain ⟨states, hstates, hfinal⟩ := (@emits_keyless_iff _ _ _ _ _ _ _ _ _ (fun _ => ([], []))
      scanMap_correct rfl (by simp) (by simp) hyields (by decide) ws).mp hws
    cases hstates
    cases hfinal
    exact absurd (Carries.number (hanswers 0 _ _ rfl rfl)) (by decide)
  · rintro ⟨ws, hws, -⟩
    have hyields : Yields (listSource : AbstractExecutor (List Row)) (fun _ => 256) [nullRow]
        [nullRow] := listSource_delivers.yields (fun _ => by decide) _
    have hinput : ∀ row ∈ [nullRow],
        inputOf (onePlan [.basic .sum]) row.1 = .ok (oneInput [.basic .sum] row) := by
      intro row hrow
      cases List.mem_singleton.mp hrow
      rfl
    have hkeys : ∀ row ∈ [nullRow], (oneInput [.basic .sum] row).1 = [] := by
      intro row hrow
      cases List.mem_singleton.mp hrow
      rfl
    obtain ⟨states, hstates, hfinal⟩ :=
      (emits_keyless_iff scanMap_correct rfl hinput hkeys hyields (by decide) ws).mp hws
    cases hstates
    cases hfinal

end TurtleDb.Execution.AggregationExecutor
