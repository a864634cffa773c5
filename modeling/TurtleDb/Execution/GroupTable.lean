import Mathlib.Data.List.Nodup
import TurtleDb.Execution.Keys

/-!
# The table of the groups

Keys of one list of integer types agree when their numbers do. So the hash table has one element for
each key, and the states of an element are those of its group.
-/

namespace TurtleDb.Execution

open TurtleDb.Lib TurtleDb.Table TurtleDb.Datatype AggregateFunction AggregationHashTable

variable {rt : Runtime} {ts : List DataType}

/-! ## Keys -/

/-- The types a key may have. -/
def Groupable (t : DataType) : Prop := t.isInteger = true ∨ t = .boolean

/-- A key of these types, without a NULL. -/
structure GroupKey (ts : List DataType) (key : List Value) : Prop where
  groupable : ∀ t ∈ ts, Groupable t
  types : key.map Value.dataType = ts
  notNull : ∀ v ∈ key, v.isNull = false

theorem GroupKey.length {key : List Value} (h : GroupKey ts key) : key.length = ts.length := by
  rw [← h.types, List.length_map]

theorem Groupable.fixed {t : DataType} (h : Groupable t) : t ≠ .decimal ∧ t ≠ .varchar := by
  rcases h with h | rfl
  · cases t <;> first | exact absurd h (by decide) | decide
  · decide

theorem GroupKey.fixed {key : List Value} (h : GroupKey ts key) :
    ∀ v ∈ key, v.dataType ≠ .decimal ∧ v.dataType ≠ .varchar := by
  intro v hv
  refine (h.groupable _ ?_).fixed
  rw [← h.types]
  exact List.mem_map_of_mem hv

theorem GroupKey.keyOf {key : List Value} (h : GroupKey ts key) : KeyOf ts key ∧ NoNull key :=
  ⟨⟨fun ht => (h.groupable _ ht).fixed.1 rfl, h.types,
    fun v hv hvar => absurd hvar (h.fixed v hv).2⟩, h.notNull⟩

theorem GroupKey.components {key : List Value} (h : GroupKey ts key) :
    components key = (numbers key).map fun n => some [n] := by
  rw [Execution.components, numbers, List.map_map]
  refine List.map_congr_left fun v hv => ?_
  rw [component, h.notNull v hv, key_of_ne_varchar (h.fixed v hv).2]
  rfl

theorem GroupKey.components_eq_iff {a b : List Value} (ha : GroupKey ts a) (hb : GroupKey ts b) :
    Execution.components a = Execution.components b ↔ numbers a = numbers b := by
  have hinj : Function.Injective fun n : Int => some [n] := fun _ _ h =>
    List.singleton_inj.mp (Option.some.inj h)
  rw [ha.components, hb.components, (List.map_injective_iff.mpr hinj).eq_iff]

theorem equivalenceOn {keys : List (List Value)} (h : ∀ key ∈ keys, GroupKey ts key) :
    EquivalenceOn AggregateKey.equal (AggregateKey.hash rt)
      (fun a b => numbers a = numbers b) keys := by
  have hcomp := @equivalenceOn_components rt ts keys fun key hkey => (h key hkey).keyOf
  refine ⟨fun a ha b hb => ?_, fun _ _ => rfl, fun _ _ _ _ hab => hab.symm,
    fun _ _ _ _ _ _ hab hbc => hab.trans hbc, fun a ha b hb hab => ?_⟩
  · rw [← (h a ha).components_eq_iff (h b hb)]
    exact hcomp.decides a ha b hb
  · exact hcomp.hash a ha b hb (((h a ha).components_eq_iff (h b hb)).mpr hab)

/-! ## Groups -/

/-- A row of the child: its key and its arguments. -/
abbrev Input := List Value × List Value

def groupOf (inputs : List Input) (key : List Value) : List Input :=
  inputs.filter fun input => numbers input.1 = numbers key

/-- The `i`-th arguments. -/
def column (i : Nat) (inputs : List Input) : List Value := inputs.filterMap fun input => input.2[i]?

section

variable {κ : Type} [DecidableEq κ] {name : List Value → κ}

/-- The rows whose keys have the name of `key`. -/
def groupBy (name : List Value → κ) (inputs : List Input) (key : List Value) : List Input :=
  inputs.filter fun input => name input.1 = name key

theorem groupBy_congr {inputs : List Input} {key key' : List Value} (h : name key = name key') :
    groupBy name inputs key = groupBy name inputs key' := by
  rw [groupBy, groupBy, h]

theorem groupBy_append (inputs inputs' : List Input) (key : List Value) :
    groupBy name (inputs ++ inputs') key = groupBy name inputs key ++ groupBy name inputs' key :=
  List.filter_append ..

end

theorem groupOf_congr {inputs : List Input} {key key' : List Value}
    (h : numbers key = numbers key') : groupOf inputs key = groupOf inputs key' := groupBy_congr h

theorem column_append (i : Nat) (inputs inputs' : List Input) :
    column i (inputs ++ inputs') = column i inputs ++ column i inputs' :=
  List.filterMap_append

/-! ## One insertion -/

variable {κ : Type} [DecidableEq κ] {name : List Value → κ} {good : List Value → Prop}
  {φ : Type} [Aggregating φ] {funcs : List φ} {states out : List BasicAccumulatorState}
  {seen : List Input} {entries entries' : List Entry} {key : List Value}

/-- A function of any kind, updated with the arguments one after the other. -/
def accumulateWith (rt : Runtime) (func : φ) (xs : List Value) :
    Except Fault BasicAccumulatorState :=
  xs.foldlM (fun st x => Aggregating.update rt func st [some x]) createState

/-- The equality of good keys is that of their names. -/
def NamedBy (rt : Runtime) (name : List Value → κ) (good : List Value → Prop) : Prop :=
  ∀ keys, (∀ key ∈ keys, good key) →
    EquivalenceOn AggregateKey.equal (AggregateKey.hash rt) (fun a b => name a = name b) keys

theorem namedBy_numbers : NamedBy rt numbers (GroupKey ts) := fun _ h => equivalenceOn h

/-- The table behind the rows `seen`, with an element for each name of `keys`. -/
structure TableBy (rt : Runtime) (name : List Value → κ) (funcs : List φ)
    (keys : List (List Value)) (seen : List Input) (entries : List Entry) : Prop where
  nodup : (entries.map fun e => name e.1).Nodup
  mem_iff : ∀ n, n ∈ entries.map (fun e => name e.1) ↔ n ∈ keys.map name
  carried : ∀ e ∈ entries, e.1 ∈ keys
  length : ∀ e ∈ entries, e.2.length = funcs.length
  states : ∀ e ∈ entries, ∀ (i : Nat) func st, funcs[i]? = some func → e.2[i]? = some st →
    accumulateWith rt func (column i (groupBy name seen e.1)) = .ok st

theorem TableBy.nil : TableBy rt name funcs [] [] [] :=
  ⟨List.nodup_nil, by simp, by simp, by simp, by simp⟩

theorem findOrCreate_ok (hmap : rt.map.Correct) (hnamed : NamedBy rt name good)
    (h : TableBy rt name funcs (seen.map Prod.fst) seen entries)
    (hseen : ∀ input ∈ seen, good input.1) (hkey : good key) :
    ∃ entries' i e, findOrCreate rt funcs entries key = .ok (entries', i) ∧
      entries'[i]? = some e ∧ name e.1 = name key ∧
      TableBy rt name funcs (seen.map Prod.fst ++ [key]) seen entries' := by
  have hkeys : ∀ k ∈ key :: entries.map Prod.fst, good k := by
    intro k hk
    rcases List.mem_cons.mp hk with rfl | hk
    · exact hkey
    · obtain ⟨e, he, rfl⟩ := List.mem_map.mp hk
      obtain ⟨input, hinput, heq⟩ := List.mem_map.mp (h.carried e he)
      rw [← heq]
      exact hseen input hinput
  have hpair : (entries.map Prod.fst).Pairwise fun a b => ¬ name a = name b := by
    have := h.nodup
    rw [List.Nodup, List.pairwise_map] at this
    rwa [List.pairwise_map]
  rcases hmap.find_cases (hnamed _ hkeys) hpair with ⟨i, e, hfind, hi, hsame⟩ |
    ⟨hfind, hnone⟩
  · refine ⟨entries, i, e, by rw [findOrCreate, hfind]; rfl, hi, hsame, h.nodup, ?_, ?_, h.length,
      h.states⟩
    · intro n
      rw [h.mem_iff, List.map_append, List.mem_append]
      refine ⟨.inl, fun hor => hor.elim id fun hn => ?_⟩
      rw [List.map_singleton, List.mem_singleton] at hn
      rw [hn, ← hsame]
      exact (h.mem_iff _).mp (List.mem_map.mpr ⟨e, List.mem_of_getElem? hi, rfl⟩)
    · exact fun e he => List.mem_append_left _ (h.carried e he)
  · have hnew : name key ∉ (seen.map Prod.fst).map name := by
      rw [← h.mem_iff]
      intro hin
      obtain ⟨e, he, heq⟩ := List.mem_map.mp hin
      exact hnone e he heq
    have hgroup : groupBy name seen key = [] := by
      rw [groupBy, List.filter_eq_nil_iff]
      intro input hinput hdec
      refine hnew (List.mem_map.mpr ⟨input.1, List.mem_map_of_mem hinput, ?_⟩)
      simpa using hdec
    refine ⟨entries ++ [(key, funcs.map fun _ => createState)], entries.length, _,
      by rw [findOrCreate, hfind]; rfl, List.getElem?_concat_length, rfl, ?_, ?_, ?_, ?_, ?_⟩
    · rw [List.map_append, List.map_singleton, List.nodup_append]
      refine ⟨h.nodup, List.nodup_singleton _, fun a ha b hb heq => ?_⟩
      rw [List.mem_singleton] at hb
      rw [heq, hb, h.mem_iff] at ha
      exact hnew ha
    · intro n
      simp only [List.map_append, List.mem_append, List.map_singleton, h.mem_iff]
    · intro e he
      rcases List.mem_append.mp he with he | he
      · exact List.mem_append_left _ (h.carried e he)
      · rw [List.mem_singleton.mp he]
        simp
    · intro e he
      rcases List.mem_append.mp he with he | he
      · exact h.length e he
      · rw [List.mem_singleton.mp he]
        simp
    · intro e he i func st hf hst
      rcases List.mem_append.mp he with he | he
      · exact h.states e he i func st hf hst
      · rw [List.mem_singleton.mp he] at hst ⊢
        rw [hgroup]
        rw [List.getElem?_map, hf] at hst
        cases hst
        rfl

theorem updateStates_of_ok {args : List (Option Value)} (hs : states.length = funcs.length)
    (ha : args.length = funcs.length) (h : updateStates rt funcs states args = .ok out) :
    out.length = funcs.length ∧
      ∀ (i : Nat) func st arg st', funcs[i]? = some func → states[i]? = some st →
        args[i]? = some arg → out[i]? = some st' →
          Aggregating.update rt func st [arg] = .ok st' := by
  induction funcs generalizing states args out with
  | nil =>
      cases states with
      | nil =>
          cases h
          exact ⟨rfl, by simp⟩
      | cons st states => cases hs
  | cons func funcs ih =>
      cases states with
      | nil => cases hs
      | cons st states =>
          cases args with
          | nil => cases ha
          | cons arg args =>
              rw [updateStates] at h
              obtain ⟨st', hst', h⟩ := bind_eq_ok.mp h
              obtain ⟨states', hstates', h⟩ := bind_eq_ok.mp h
              cases h
              obtain ⟨hlen, hall⟩ := ih (Nat.succ.inj hs) (Nat.succ.inj ha) hstates'
              refine ⟨by simp [hlen], fun i => ?_⟩
              cases i with
              | zero =>
                  rintro f s a s' ⟨⟩ ⟨⟩ ⟨⟩ ⟨⟩
                  exact hst'
              | succ i => exact hall i

theorem exists_updateStates {args : List (Option Value)} (hs : states.length = funcs.length)
    (ha : args.length = funcs.length)
    (h : ∀ (i : Nat) func st arg, funcs[i]? = some func → states[i]? = some st →
      args[i]? = some arg → ∃ st', Aggregating.update rt func st [arg] = .ok st') :
    ∃ out, updateStates rt funcs states args = .ok out := by
  induction funcs generalizing states args with
  | nil =>
      refine ⟨states, ?_⟩
      cases states <;> rfl
  | cons func funcs ih =>
      cases states with
      | nil => cases hs
      | cons st states =>
          cases args with
          | nil => cases ha
          | cons arg args =>
              obtain ⟨st', hst'⟩ := h 0 func st arg rfl rfl rfl
              obtain ⟨states', hstates'⟩ := ih (Nat.succ.inj hs) (Nat.succ.inj ha)
                fun i => h (i + 1)
              exact ⟨st' :: states', by rw [updateStates, hst', ok_bind, hstates']; rfl⟩

omit [DecidableEq κ] in
theorem map_set_states {i : Nat} {e : Entry} (hi : entries[i]? = some e)
    (states : List BasicAccumulatorState) :
    (entries.set i (e.1, states)).map (fun d => name d.1) = entries.map fun d => name d.1 := by
  rw [List.map_set]
  apply List.ext_getElem?
  intro j
  rw [List.getElem?_set]
  split
  next hij =>
    subst hij
    have hlt : i < (entries.map fun d => name d.1).length := by
      rw [List.length_map]
      exact (List.getElem?_eq_some_iff.mp hi).1
    rw [if_pos hlt, List.getElem?_map, hi]
    rfl
  next => rfl

/-- The state that a new argument goes into. -/
theorem TableBy.accumulate_concat {e : Entry} {input : Input}
    (h : TableBy rt name funcs (seen.map Prod.fst ++ [input.1]) seen entries) (he : e ∈ entries)
    (hsame : name e.1 = name input.1) {j : Nat} {func : φ} {st : BasicAccumulatorState}
    {arg : Value} (hf : funcs[j]? = some func) (hst : e.2[j]? = some st)
    (harg : input.2[j]? = some arg) :
    accumulateWith rt func (column j (groupBy name (seen ++ [input]) e.1)) =
      Aggregating.update rt func st [some arg] := by
  have hgroup : groupBy name (seen ++ [input]) e.1 = groupBy name seen e.1 ++ [input] := by
    rw [groupBy_append]
    congr 1
    simp [groupBy, hsame]
  have hcol : column j [input] = [arg] := by simp [column, harg]
  have hbefore := h.states e he j func st hf hst
  rw [accumulateWith] at hbefore
  rw [hgroup, column_append, hcol, accumulateWith, List.foldlM_append, hbefore, ok_bind,
    List.foldlM_cons]
  cases Aggregating.update rt func st [some arg] <;> rfl

/-- A row is added to the states of its key and to no others. -/
theorem TableBy.set_states {i : Nat} {e : Entry} {input : Input}
    (h : TableBy rt name funcs (seen.map Prod.fst ++ [input.1]) seen entries)
    (hi : entries[i]? = some e) (hsame : name e.1 = name input.1)
    (hargs : input.2.length = funcs.length)
    (hupdate : updateStates rt funcs e.2 (input.2.map some) = .ok states) :
    TableBy rt name funcs ((seen ++ [input]).map Prod.fst) (seen ++ [input])
      (entries.set i (e.1, states)) := by
  have he := List.mem_of_getElem? hi
  have hargs' : (input.2.map some).length = funcs.length := by rwa [List.length_map]
  obtain ⟨hlen, hall⟩ := updateStates_of_ok (h.length e he) hargs' hupdate
  refine ⟨?_, ?_, ?_, ?_, ?_⟩
  · rw [map_set_states hi]
    exact h.nodup
  · intro n
    rw [map_set_states hi, h.mem_iff, List.map_append, List.map_append, List.map_append]
    rfl
  · intro d hd
    rw [List.map_append]
    rcases List.mem_or_eq_of_mem_set hd with hd | rfl
    · exact h.carried d hd
    · exact h.carried e he
  · intro d hd
    rcases List.mem_or_eq_of_mem_set hd with hd | rfl
    · exact h.length d hd
    · exact hlen
  · intro d hd j func st hf hst
    obtain ⟨k, hk⟩ := List.getElem?_of_mem hd
    rw [List.getElem?_set] at hk
    by_cases hik : i = k
    · rw [if_pos hik, if_pos (List.getElem?_eq_some_iff.mp hi).1] at hk
      cases hk
      have hj : j < funcs.length := (List.getElem?_eq_some_iff.mp hf).1
      have helen : j < e.2.length := by rwa [h.length e he]
      have hinlen : j < input.2.length := by rwa [hargs]
      have hold := List.getElem?_eq_getElem helen
      have harg := List.getElem?_eq_getElem hinlen
      have hsome : (input.2.map some)[j]? = some (some input.2[j]) := by
        rw [List.getElem?_map, harg, Option.map_some]
      exact (h.accumulate_concat he hsame hf hold harg).trans
        (hall j func _ _ st hf hold hsome hst)
    · rw [if_neg hik] at hk
      have hne : name d.1 ≠ name input.1 := by
        rw [← hsame]
        intro heq
        have hki : (entries.map fun e => name e.1)[k]? = (entries.map fun e => name e.1)[i]? := by
          rw [List.getElem?_map, List.getElem?_map, hk, hi, Option.map_some, Option.map_some, heq]
        have hlt : k < (entries.map fun e => name e.1).length := by
          rw [List.length_map]
          exact (List.getElem?_eq_some_iff.mp hk).1
        exact hik ((List.getElem?_inj hlt h.nodup).mp hki).symm
      have hother : groupBy name (seen ++ [input]) d.1 = groupBy name seen d.1 := by
        rw [groupBy_append]
        simp [groupBy, Ne.symm hne]
      rw [hother]
      exact h.states d (List.mem_of_getElem? hk) j func st hf hst

theorem TableBy.insertCombine_of_ok (hmap : rt.map.Correct) (hnamed : NamedBy rt name good)
    (h : TableBy rt name funcs (seen.map Prod.fst) seen entries)
    (hseen : ∀ input ∈ seen, good input.1) {input : Input} (hkey : good input.1)
    (hargs : input.2.length = funcs.length)
    (hinsert : insertCombine rt funcs entries input.1 (input.2.map some) = .ok entries') :
    TableBy rt name funcs ((seen ++ [input]).map Prod.fst) (seen ++ [input]) entries' := by
  obtain ⟨entries'', i, e, hfind, hi, hsame, htable⟩ :=
    findOrCreate_ok hmap hnamed h hseen hkey
  rw [insertCombine, hfind, ok_bind] at hinsert
  simp only [hi] at hinsert
  obtain ⟨states, hstates, hset⟩ := bind_eq_ok.mp hinsert
  cases hset
  exact htable.set_states hi hsame hargs hstates

theorem TableBy.exists_insertCombine (hmap : rt.map.Correct) (hnamed : NamedBy rt name good)
    (h : TableBy rt name funcs (seen.map Prod.fst) seen entries)
    (hseen : ∀ input ∈ seen, good input.1) {input : Input} (hkey : good input.1)
    (hargs : input.2.length = funcs.length)
    (hrun : ∀ (i : Nat) func, funcs[i]? = some func →
      ∃ st, accumulateWith rt func (column i (groupBy name (seen ++ [input]) input.1)) = .ok st) :
    ∃ entries', insertCombine rt funcs entries input.1 (input.2.map some) = .ok entries' := by
  obtain ⟨entries'', i, e, hfind, hi, hsame, htable⟩ :=
    findOrCreate_ok hmap hnamed h hseen hkey
  have he := List.mem_of_getElem? hi
  have hargs' : (input.2.map some).length = funcs.length := by rwa [List.length_map]
  obtain ⟨states, hstates⟩ := exists_updateStates (htable.length e he) hargs' (by
    intro j func st arg hf hst harg
    rw [List.getElem?_map, Option.map_eq_some_iff] at harg
    obtain ⟨v, hv, rfl⟩ := harg
    obtain ⟨st', hst'⟩ := hrun j func hf
    rw [← groupBy_congr hsame, htable.accumulate_concat he hsame hf hst hv] at hst'
    exact ⟨st', hst'⟩)
  refine ⟨entries''.set i (e.1, states), ?_⟩
  rw [insertCombine, hfind, ok_bind]
  simp only [hi, hstates, ok_bind]
  rfl

end TurtleDb.Execution
