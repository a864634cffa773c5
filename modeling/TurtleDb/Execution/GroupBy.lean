import TurtleDb.Execution.GroupTable

/-!
# What GROUP BY emits

The rows that the executor emits are those of a GROUP BY when no aggregate copies the number that
stands for NULL.
-/

namespace TurtleDb.Execution.AggregationExecutor

open TurtleDb.Lib TurtleDb.Table TurtleDb.Datatype AggregateFunction AggregationHashTable

variable {rt : Runtime} {ts : List DataType} {φ σ : Type} [Aggregating φ] {plan : AggregationPlan φ}
  {child : AbstractExecutor σ} {fuel : Nat} {c : σ} {rows : List Row} {input : Row → Input}

/-! ## Specification -/

/-- The rows of a GROUP BY over `inputs`, each a key with its aggregates: one for each name of a key,
and every aggregate is in relation `R` with the arguments of its group. -/
structure GroupedBy {κ : Type} [DecidableEq κ] (name : List Value → κ)
    (R : φ → List Value → Value → Prop) (funcs : List φ) (inputs : List Input)
    (table : List Input) : Prop where
  nodup : (table.map fun e => name e.1).Nodup
  mem_iff : ∀ n, n ∈ table.map (fun e => name e.1) ↔ n ∈ inputs.map fun e => name e.1
  carried : ∀ e ∈ table, e.1 ∈ inputs.map Prod.fst
  length : ∀ e ∈ table, e.2.length = funcs.length
  results : ∀ e ∈ table, ∀ (i : Nat) func w, funcs[i]? = some func → e.2[i]? = some w →
    R func (column i (groupBy name inputs e.1)) w

/-- The rows of a GROUP BY over numbers. -/
abbrev Grouped (R : AggregateFunction → List Value → Value → Prop)
    (funcs : List AggregateFunction) (inputs : List Input) (table : List Input) : Prop :=
  GroupedBy numbers R funcs inputs table

/-- The values of a row: the key and the aggregates. -/
def valuesIn (e : Input) : List Value := e.1 ++ e.2

/-- Drained in batches of any sizes, the executor emits these rows. -/
def Emits (rt : Runtime) (plan : AggregationPlan φ) (child : AbstractExecutor σ) (fuel : Nat)
    (c : σ) (out : List (List Value)) : Prop :=
  ∃ s, init rt plan child fuel c = .ok s ∧
    ∀ size : Nat → Nat, (∀ i, 1 ≤ size i) → Yields (nextWith plan .ok) size s out

/-- What there is to see of a number. -/
def face (v : Value) : DataType × Bool × Int := (v.dataType, v.isNull, v.number)

/-- The executor emits the rows of the GROUP BY, and without a SUM the same ones whatever order the
child has its rows in. -/
def Groups (rt : Runtime) (plan : AggregationPlanNode) (child : AbstractExecutor σ) (fuel : Nat)
    (c : σ) (rows : List Row) (input : Row → Input) : Prop :=
  ∃ table, Grouped Computes plan.aggFuncs (rows.map input) table ∧
    Emits rt plan child fuel c (table.map valuesIn) ∧
    (.sum ∉ plan.aggFuncs → ∀ (σ' : Type) (child' : AbstractExecutor σ') (c' : σ')
      (rows' : List Row), rows'.Perm rows → Yields child' (fun _ => 256) c' rows' →
        ∃ out, Emits rt plan child' fuel c' out ∧
          (out.map (List.map face)).Perm (table.map fun e => (valuesIn e).map face))

/-! ## The inputs -/

/-- Keys without NULLs, as many arguments as functions, and columns of integers for the functions
that need them. -/
structure Typed (ts : List DataType) (funcs : List AggregateFunction) (inputs : List Input) :
    Prop where
  keys : ∀ e ∈ inputs, GroupKey ts e.1
  args : ∀ e ∈ inputs, e.2.length = funcs.length
  count : inputs.length < 2 ^ 31
  columns : ∀ (i : Nat) func, funcs[i]? = some func → func.Folds →
    ∃ t, ∀ e ∈ inputs, IntegerColumn t (column i (groupOf inputs e.1))

/-- No prefix of a group has a sum that the type of the column cannot hold. -/
def Summable (funcs : List AggregateFunction) (inputs : List Input) : Prop :=
  ∀ (i : Nat) func t, funcs[i]? = some func → func.Folds → ∀ e ∈ inputs,
    IntegerColumn t (column i (groupOf inputs e.1)) →
      SumsInRange t (column i (groupOf inputs e.1))

/-- Where a value is the number that stands for NULL in its type. -/
def isStray (v : Value) : Bool := v.number == v.dataType.nullNumber

/-- MIN has no argument with the number that stands for NULL, and without a SUM, which would not
have let two of them come first, MAX has one at most in a group. -/
def Sound (funcs : List AggregateFunction) (inputs : List Input) : Prop :=
  ∀ (i : Nat) func, funcs[i]? = some func → ∀ e ∈ inputs,
    (func = .min → (nonNull (column i (groupOf inputs e.1))).countP isStray = 0) ∧
    (func = .max → .sum ∉ funcs →
      (nonNull (column i (groupOf inputs e.1))).countP isStray ≤ 1)

/-! ## Draining the child -/

omit [Aggregating φ] in
theorem length_of_inputOf {tuple : Tuple} {e : Input} (h : inputOf plan tuple = .ok e) :
    e.2.length = plan.aggregates.length := by
  obtain ⟨keys, -, h⟩ := bind_eq_ok.mp h
  obtain ⟨vals, hvals, h⟩ := bind_eq_ok.mp h
  cases h
  exact length_of_mapM hvals

/-- The rows go into the table one after the other. -/
def insertInputs (rt : Runtime) (funcs : List φ) (entries : List Entry)
    (inputs : List Input) : Except Fault (List Entry) :=
  inputs.foldlM (fun entries e => insertCombine rt funcs entries e.1 (e.2.map some)) entries

theorem insertBatch_eq (hinput : ∀ row ∈ rows, inputOf plan row.1 = .ok (input row))
    (entries : List Entry) :
    insertBatch rt plan entries rows = insertInputs rt plan.aggFuncs entries (rows.map input) := by
  induction rows generalizing entries with
  | nil => rfl
  | cons row rows ih =>
      rw [insertBatch, List.foldlM_cons, hinput row List.mem_cons_self]
      simp only [ok_bind, List.map_cons, insertInputs, List.foldlM_cons]
      cases insertCombine rt plan.aggFuncs entries (input row).1 ((input row).2.map some) with
      | error e => rfl
      | ok entries' => exact ih (fun r hr => hinput r (List.mem_cons_of_mem _ hr)) entries'

theorem insertBatch_append (entries : List Entry) (b out : List Row) :
    insertBatch rt plan entries (b ++ out) = (do
      let entries ← insertBatch rt plan entries b
      insertBatch rt plan entries out) :=
  List.foldlM_append

theorem consume_eq (hchild : Yields child (fun _ => 256) c rows) (hfuel : rows.length < fuel)
    (entries : List Entry) :
    (consume rt plan child fuel c entries).map Prod.fst = insertBatch rt plan entries rows := by
  generalize hsize : (fun _ : Nat => 256) = size at hchild
  induction hchild generalizing fuel entries with
  | stop h =>
      cases fuel with
      | zero => exact absurd hfuel (Nat.not_lt_zero _)
      | succ fuel =>
          rw [← hsize] at h
          rw [consume, h]
          rfl
  | @batch size s s' b out h hb hrest ih =>
      cases fuel with
      | zero => exact absurd hfuel (Nat.not_lt_zero _)
      | succ fuel =>
          subst hsize
          have hpos := List.length_pos_of_ne_nil hb
          rw [List.length_append] at hfuel
          rw [consume, h]
          simp only [ok_bind]
          rw [insertBatch_append]
          cases insertBatch rt plan entries b with
          | error e => rfl
          | ok entries' => exact ih (by omega) entries' rfl

theorem init_eq (hchild : Yields child (fun _ => 256) c rows) (hfuel : rows.length < fuel) :
    init rt plan child fuel c = (do
      let entries ← insertBatch rt plan [] rows
      let entries ←
        if entries.isEmpty && plan.groupBys.isEmpty then
          insertCombine rt plan.aggFuncs entries [] (plan.aggFuncs.map fun _ => none)
        else .ok entries
      return { ahead := rt.map.order entries }) := by
  rw [init, ← consume_eq hchild hfuel]
  cases consume rt plan child fuel c [] <;> rfl

variable {funcs : List AggregateFunction} {inputs seen : List Input}

/-- What is emitted for a group with these arguments. -/
def resultWith (rt : Runtime) (func : φ) (xs : List Value) : Except Fault Value := do
  let st ← accumulateWith rt func xs
  Aggregating.finalize func st

/-- Every aggregate of every group comes out. -/
def Runs (rt : Runtime) (funcs : List AggregateFunction) (inputs : List Input) : Prop :=
  ∀ (i : Nat) func, funcs[i]? = some func → ∀ e ∈ inputs,
    ∃ w, func.result rt (column i (groupOf inputs e.1)) = .ok w

section

variable {κ : Type} [DecidableEq κ] {name : List Value → κ} {good : List Value → Prop}
  {funcs : List φ}

/-- `Runs`, for functions of any kind and groups by any name. -/
def RunsBy (rt : Runtime) (name : List Value → κ) (funcs : List φ) (inputs : List Input) : Prop :=
  ∀ (i : Nat) func, funcs[i]? = some func → ∀ e ∈ inputs,
    ∃ w, resultWith rt func (column i (groupBy name inputs e.1)) = .ok w

theorem accumulateWith_prefix {func : φ} {xs ys : List Value} {st : BasicAccumulatorState}
    (h : accumulateWith rt func (xs ++ ys) = .ok st) :
    ∃ st', accumulateWith rt func xs = .ok st' := by
  rw [accumulateWith, List.foldlM_append] at h
  obtain ⟨st', hst', -⟩ := bind_eq_ok.mp h
  exact ⟨st', hst'⟩

theorem insertInputs_of_ok {entries : List Entry} (hmap : rt.map.Correct)
    (hnamed : NamedBy rt name good) (hkeys : ∀ e ∈ inputs, good e.1)
    (hargs : ∀ e ∈ inputs, e.2.length = funcs.length)
    (h : insertInputs rt funcs [] inputs = .ok entries) :
    TableBy rt name funcs (inputs.map Prod.fst) inputs entries := by
  induction inputs using List.reverseRecOn generalizing entries with
  | nil =>
      cases h
      exact .nil
  | append_singleton inputs e ih =>
      rw [insertInputs, List.foldlM_append] at h
      obtain ⟨before, hbefore, h⟩ := bind_eq_ok.mp h
      obtain ⟨after, hafter, h⟩ := bind_eq_ok.mp h
      cases h
      have hsub : ∀ d ∈ inputs, d ∈ inputs ++ [e] := fun d hd => List.mem_append_left _ hd
      have htable := ih (fun d hd => hkeys d (hsub d hd)) (fun d hd => hargs d (hsub d hd)) hbefore
      exact htable.insertCombine_of_ok hmap hnamed (fun d hd => hkeys d (hsub d hd))
        (hkeys e (by simp)) (hargs e (by simp)) hafter

theorem insertInputs_ok (hmap : rt.map.Correct) (hnamed : NamedBy rt name good)
    (hkeys : ∀ e ∈ inputs, good e.1) (hargs : ∀ e ∈ inputs, e.2.length = funcs.length)
    (hruns : RunsBy rt name funcs inputs) :
    ∃ entries, insertInputs rt funcs [] inputs = .ok entries ∧
      TableBy rt name funcs (inputs.map Prod.fst) inputs entries := by
  suffices ∀ seen rest, inputs = seen ++ rest →
      ∃ entries, insertInputs rt funcs [] seen = .ok entries by
    obtain ⟨entries, h⟩ := this inputs [] (List.append_nil _).symm
    exact ⟨entries, h, insertInputs_of_ok hmap hnamed hkeys hargs h⟩
  intro seen
  induction seen using List.reverseRecOn with
  | nil => exact fun _ _ => ⟨[], rfl⟩
  | append_singleton seen e ih =>
      intro rest hsplit
      have hsub : ∀ d ∈ seen ++ [e], d ∈ inputs := by
        intro d hd
        rw [hsplit]
        exact List.mem_append_left _ hd
      have hseen : ∀ d ∈ seen, d ∈ inputs := fun d hd => hsub d (List.mem_append_left _ hd)
      have he := hsub e (by simp)
      obtain ⟨before, hbefore⟩ := ih (e :: rest) (hsplit.trans (List.append_cons ..).symm)
      have htable := insertInputs_of_ok hmap hnamed (fun d hd => hkeys d (hseen d hd))
        (fun d hd => hargs d (hseen d hd)) hbefore
      obtain ⟨after, hafter⟩ := htable.exists_insertCombine hmap hnamed
        (fun d hd => hkeys d (hseen d hd)) (hkeys e he) (hargs e he) (by
          intro i func hf
          obtain ⟨w, hw⟩ := hruns i func hf e he
          obtain ⟨st, hst, -⟩ := bind_eq_ok.mp hw
          rw [hsplit, groupBy_append, column_append] at hst
          exact accumulateWith_prefix hst)
      refine ⟨after, ?_⟩
      rw [insertInputs, List.foldlM_append]
      exact bind_eq_ok.mpr ⟨before, hbefore, bind_eq_ok.mpr ⟨after, hafter, rfl⟩⟩

end

/-! ## Emitting the rows -/

theorem finalizeAll_of_ok {funcs : List φ} {states : List BasicAccumulatorState}
    {ws : List Value} (hs : states.length = funcs.length) (h : finalizeAll funcs states = .ok ws) :
    ws.length = funcs.length ∧
      ∀ (i : Nat) func st w, funcs[i]? = some func → states[i]? = some st → ws[i]? = some w →
        Aggregating.finalize func st = .ok w := by
  induction funcs generalizing states ws with
  | nil =>
      cases h
      exact ⟨rfl, by simp⟩
  | cons func funcs ih =>
      cases states with
      | nil => cases hs
      | cons st states =>
          rw [finalizeAll] at h
          obtain ⟨w, hw, h⟩ := bind_eq_ok.mp h
          obtain ⟨ws', hws', h⟩ := bind_eq_ok.mp h
          cases h
          obtain ⟨hlen, hall⟩ := ih (Nat.succ.inj hs) hws'
          refine ⟨by simp [hlen], fun i => ?_⟩
          cases i with
          | zero =>
              rintro f s w' ⟨⟩ ⟨⟩ ⟨⟩
              exact hw
          | succ i => exact hall i

theorem exists_finalizeAll {funcs : List φ} {states : List BasicAccumulatorState}
    (hs : states.length = funcs.length)
    (h : ∀ (i : Nat) func st, funcs[i]? = some func → states[i]? = some st →
      ∃ w, Aggregating.finalize func st = .ok w) :
    ∃ ws, finalizeAll funcs states = .ok ws := by
  induction funcs generalizing states with
  | nil => exact ⟨[], rfl⟩
  | cons func funcs ih =>
      cases states with
      | nil => cases hs
      | cons st states =>
          obtain ⟨w, hw⟩ := h 0 func st rfl rfl
          obtain ⟨ws, hws⟩ := ih (Nat.succ.inj hs) fun i => h (i + 1)
          exact ⟨w :: ws, by rw [finalizeAll, hw, ok_bind, hws]; rfl⟩

/-- A list of elements whose values come out is emitted in batches of any sizes. -/
theorem yields_ahead {size : Nat → Nat} (hsize : ∀ i, 1 ≤ size i) {values : Entry → List Value}
    {ahead : List Entry} (h : ∀ e ∈ ahead, valuesOf plan e = .ok (values e)) :
    Yields (nextWith plan .ok) size { ahead := ahead } (ahead.map values) := by
  have hmap : ∀ l : List Entry, (∀ e ∈ l, valuesOf plan e = .ok (values e)) →
      l.mapM (fun e => valuesOf plan e >>= Except.ok) = .ok (l.map values) := by
    intro l hl
    induction l with
    | nil => rfl
    | cons e l ih =>
        rw [List.mapM_cons, hl e List.mem_cons_self, ok_bind,
          ih fun d hd => hl d (List.mem_cons_of_mem _ hd)]
        rfl
  induction hn : ahead.length using Nat.strongRecOn generalizing ahead size with
  | ind n ih =>
      have hnext := hmap (ahead.take (size 0)) fun e he => h e (List.mem_of_mem_take he)
      by_cases hnil : ahead = []
      · subst hnil
        refine @Yields.stop _ _ _ _ _ _ { ahead := [] } ?_
        simp only [nextWith, List.take_nil, List.drop_nil]
        rfl
      · have hpos : 0 < ahead.length := List.length_pos_of_ne_nil hnil
        have hne : (ahead.take (size 0)).map values ≠ [] := by
          have := hsize 0
          rw [← List.length_pos_iff, List.length_map, List.length_take]
          omega
        rw [← List.take_append_drop (size 0) ahead, List.map_append]
        refine .batch ?_ hne (ih _ ?_ (fun i => hsize (i + 1))
          (fun e he => h e (List.mem_of_mem_drop he)) rfl)
        · rw [nextWith]
          simp only [List.take_append_drop]
          rw [hnext, ok_bind, if_neg (by simpa using hne)]
          rfl
        · have := hsize 0
          rw [List.length_drop]
          omega

theorem mapM_make {make : List Value → Except Fault α} {g : List Value → α} {l : List Entry}
    {b : List (List Value)} (h : l.mapM (fun e => valuesOf plan e >>= Except.ok) = .ok b)
    (hmake : ∀ values ∈ b, make values = .ok (g values)) :
    l.mapM (fun e => valuesOf plan e >>= make) = .ok (b.map g) := by
  induction l generalizing b with
  | nil =>
      cases h
      rfl
  | cons e l ih =>
      rw [List.mapM_cons] at h
      obtain ⟨values, hvalues, hrest⟩ := bind_eq_ok.mp h
      obtain ⟨bs, hbs, hb⟩ := bind_eq_ok.mp hrest
      obtain ⟨_, hof, ⟨⟩⟩ := bind_eq_ok.mp hvalues
      cases hb
      rw [List.mapM_cons, hof, ok_bind, hmake values List.mem_cons_self, ok_bind,
        ih hbs fun vs hvs => hmake vs (List.mem_cons_of_mem _ hvs)]
      rfl

/-- The rows that are made of the emitted values, when each can be made, are emitted the same. -/
theorem yields_make {make : List Value → Except Fault α} {g : List Value → α} {size : Nat → Nat}
    {s : State} {out : List (List Value)} (h : Yields (nextWith plan .ok) size s out)
    (hmake : ∀ values ∈ out, make values = .ok (g values)) :
    Yields (nextWith plan make) size s (out.map g) := by
  induction h with
  | @stop size s s' h =>
      obtain ⟨b, hb, hnext⟩ := bind_eq_ok.mp h
      obtain ⟨hnone, hs'⟩ := Prod.mk.inj (Except.ok.inj hnext)
      refine @Yields.stop _ _ _ _ _ _ s' ?_
      have hempty : b = [] := by
        by_contra hne
        rw [if_neg (by simpa using hne)] at hnone
        cases hnone
      subst hempty
      rw [nextWith, mapM_make hb hmake, ok_bind]
      exact congrArg Except.ok (Prod.ext rfl hs')
  | @batch size s s' b out h hne _ ih =>
      obtain ⟨b', hb', hnext⟩ := bind_eq_ok.mp h
      obtain ⟨hsome, hs'⟩ := Prod.mk.inj (Except.ok.inj hnext)
      have hbb : b' = b := by
        cases hempty : b'.isEmpty with
        | true =>
            rw [hempty] at hsome
            cases hsome
        | false =>
            rw [hempty] at hsome
            exact Option.some.inj hsome
      subst hbb
      rw [List.map_append]
      refine .batch ?_ (by simpa using hne)
        (ih fun values hv => hmake values (List.mem_append_right _ hv))
      rw [nextWith, mapM_make hb' fun values hv => hmake values (List.mem_append_left _ hv), ok_bind,
        if_neg (by simpa using hne)]
      exact congrArg Except.ok (Prod.ext rfl hs')

/-- What the executor hands on are the tuples of the emitted values. -/
theorem Emits.yields_next {out : List (List Value)} {row : List Value → Row}
    (h : Emits rt plan child fuel c out)
    (hmake : ∀ values ∈ out, makeRow plan values = .ok (row values)) :
    ∃ s, init rt plan child fuel c = .ok s ∧
      ∀ size : Nat → Nat, (∀ i, 1 ≤ size i) → Yields (next plan) size s (out.map row) := by
  obtain ⟨s, hinit, hall⟩ := h
  exact ⟨s, hinit, fun size hsize => yields_make (hall size hsize) hmake⟩

/-- The elements in any order, with their aggregates, are the rows of the GROUP BY. -/
theorem groupedBy_of_table {κ : Type} [DecidableEq κ] {name : List Value → κ} {funcs : List φ}
    {entries ahead : List Entry}
    (htable : TableBy rt name funcs (inputs.map Prod.fst) inputs entries)
    (hperm : ahead.Perm entries) (hruns : RunsBy rt name funcs inputs) :
    ∃ ws : Entry → List Value, (∀ e ∈ ahead, finalizeAll funcs e.2 = .ok (ws e)) ∧
      GroupedBy name (fun func xs w => resultWith rt func xs = .ok w) funcs inputs
        (ahead.map fun e => (e.1, ws e)) := by
  have hfinal : ∀ e ∈ entries, ∃ ws, finalizeAll funcs e.2 = .ok ws ∧ ws.length = funcs.length ∧
      ∀ (i : Nat) func w, funcs[i]? = some func → ws[i]? = some w →
        resultWith rt func (column i (groupBy name inputs e.1)) = .ok w := by
    intro e he
    obtain ⟨d, hd, hde⟩ := List.mem_map.mp (htable.carried e he)
    have hresult : ∀ (i : Nat) func st, funcs[i]? = some func → e.2[i]? = some st →
        resultWith rt func (column i (groupBy name inputs e.1)) =
          Aggregating.finalize func st := by
      intro i func st hf hst
      rw [resultWith, htable.states e he i func st hf hst, ok_bind]
    obtain ⟨ws, hws⟩ := exists_finalizeAll (htable.length e he) (by
      intro i func st hf hst
      have hruns' := hruns i func hf d hd
      rwa [hde, hresult i func st hf hst] at hruns')
    obtain ⟨hlen, hall⟩ := finalizeAll_of_ok (htable.length e he) hws
    refine ⟨ws, hws, hlen, fun i func w hf hw => ?_⟩
    have hi : i < e.2.length := by
      rw [htable.length e he]
      exact (List.getElem?_eq_some_iff.mp hf).1
    have hst := List.getElem?_eq_getElem hi
    rw [hresult i func _ hf hst]
    exact hall i func _ w hf hst hw
  choose! ws hws hlen hall using hfinal
  have hmem : ∀ e, e ∈ ahead ↔ e ∈ entries := fun e => hperm.mem_iff
  have hnames : (ahead.map fun e => ((e.1, ws e) : Input)).map (fun e => name e.1) =
      ahead.map fun e => name e.1 := by
    rw [List.map_map]
    rfl
  refine ⟨ws, fun e he => hws e ((hmem e).mp he), ?_, ?_, ?_, ?_, ?_⟩
  · rw [hnames, (hperm.map _).nodup_iff]
    exact htable.nodup
  · intro n
    rw [hnames, (hperm.map _).mem_iff, htable.mem_iff, List.map_map]
    rfl
  · intro d hd
    obtain ⟨e, he, rfl⟩ := List.mem_map.mp hd
    exact htable.carried e ((hmem e).mp he)
  · intro d hd
    obtain ⟨e, he, rfl⟩ := List.mem_map.mp hd
    exact hlen e ((hmem e).mp he)
  · intro d hd
    obtain ⟨e, he, rfl⟩ := List.mem_map.mp hd
    exact hall e ((hmem e).mp he)

theorem emitsBy_of_runs {κ : Type} [DecidableEq κ] {name : List Value → κ}
    {good : List Value → Prop} (hmap : rt.map.Correct) (hnamed : NamedBy rt name good)
    (hinput : ∀ row ∈ rows, inputOf plan row.1 = .ok (input row))
    (hchild : Yields child (fun _ => 256) c rows) (hfuel : rows.length < fuel)
    (hrows : plan.groupBys = [] → rows ≠ []) (hkeys : ∀ e ∈ rows.map input, good e.1)
    (hargs : ∀ e ∈ rows.map input, e.2.length = plan.aggFuncs.length)
    (hruns : RunsBy rt name plan.aggFuncs (rows.map input)) :
    ∃ table, GroupedBy name (fun func xs w => resultWith rt func xs = .ok w) plan.aggFuncs
        (rows.map input) table ∧
      Emits rt plan child fuel c (table.map valuesIn) := by
  obtain ⟨entries, hinsert, htable⟩ := insertInputs_ok hmap hnamed hkeys hargs hruns
  have hempty : (entries.isEmpty && plan.groupBys.isEmpty) = false := by
    by_contra h
    rw [Bool.not_eq_false, Bool.and_eq_true, List.isEmpty_iff, List.isEmpty_iff] at h
    obtain ⟨row, hrow⟩ := List.exists_mem_of_ne_nil _ (hrows h.2)
    have hmem := (htable.mem_iff (name (input row).1)).mpr
      (List.mem_map_of_mem (List.mem_map_of_mem (List.mem_map_of_mem hrow)))
    rw [h.1] at hmem
    cases hmem
  have hinit : init rt plan child fuel c = .ok { ahead := rt.map.order entries } := by
    rw [init_eq hchild hfuel, insertBatch_eq hinput, hinsert]
    simp only [ok_bind, hempty, Bool.false_eq_true, if_false]
    rfl
  obtain ⟨ws, hws, hgrouped⟩ := groupedBy_of_table htable (hmap.order_perm entries) hruns
  refine ⟨_, hgrouped, _, hinit, fun size hsize => ?_⟩
  rw [List.map_map]
  refine yields_ahead hsize fun e he => ?_
  rw [valuesOf, hws e he]
  rfl

theorem emits_of_runs {plan : AggregationPlanNode} (hmap : rt.map.Correct)
    (hinput : ∀ row ∈ rows, inputOf plan row.1 = .ok (input row))
    (hchild : Yields child (fun _ => 256) c rows) (hfuel : rows.length < fuel)
    (hrows : plan.groupBys = [] → rows ≠ [])
    (htyped : Typed ts plan.aggFuncs (rows.map input))
    (hruns : Runs rt plan.aggFuncs (rows.map input)) :
    ∃ table, Grouped (fun func xs w => func.result rt xs = .ok w) plan.aggFuncs
        (rows.map input) table ∧
      Emits rt plan child fuel c (table.map valuesIn) :=
  emitsBy_of_runs hmap namedBy_numbers hinput hchild hfuel hrows htyped.keys htyped.args hruns

end TurtleDb.Execution.AggregationExecutor
