import Mathlib.Algebra.BigOperators.Group.List.Basic
import TurtleDb.Execution.GroupBy

/-!
# GROUP BY

The executor computes a GROUP BY exactly when no MIN and no MAX has to copy the number that stands
for NULL, and when there is a GROUP BY or a row.
-/

namespace TurtleDb.Execution.AggregationExecutor

open TurtleDb.Lib TurtleDb.Table TurtleDb.Datatype TurtleDb.Datatype.Value AggregateFunction
  AggregationHashTable

variable {rt : Runtime} {ts : List DataType} {plan : AggregationPlanNode} {σ : Type}
  {child : AbstractExecutor σ} {fuel : Nat} {c : σ} {rows : List Row} {input : Row → Input}
  {t : DataType} {funcs : List AggregateFunction} {inputs inputs' : List Input}

/-! ## Another order -/

theorem groupOf_perm (h : inputs'.Perm inputs) (key : List Value) :
    (groupOf inputs' key).Perm (groupOf inputs key) := h.filter _

theorem column_perm (h : inputs'.Perm inputs) (i : Nat) (key : List Value) :
    (column i (groupOf inputs' key)).Perm (column i (groupOf inputs key)) :=
  (groupOf_perm h key).filterMap _

theorem nonNull_perm {xs ys : List Value} (h : xs.Perm ys) : (nonNull xs).Perm (nonNull ys) :=
  h.filter _

theorem integerColumn_perm {xs ys : List Value} (h : xs.Perm ys) (hys : IntegerColumn t ys) :
    IntegerColumn t xs := by
  refine ⟨hys.integer, fun x hx => hys.dataType x (h.mem_iff.mp hx), fun hnil => ?_⟩
  have hperm := nonNull_perm h
  rw [hnil] at hperm
  exact hys.notEmpty hperm.symm.eq_nil

theorem Typed.perm (h : Typed ts funcs inputs) (hperm : inputs'.Perm inputs) :
    Typed ts funcs inputs' := by
  refine ⟨fun e he => h.keys e (hperm.mem_iff.mp he), fun e he => h.args e (hperm.mem_iff.mp he),
    hperm.length_eq ▸ h.count, fun i func hf hfolds => ?_⟩
  obtain ⟨t, ht⟩ := h.columns i func hf hfolds
  exact ⟨t, fun e he => integerColumn_perm (column_perm hperm i e.1) (ht e (hperm.mem_iff.mp he))⟩

theorem face_of_carries {x : Int} {v w : Value} (hv : Carries t x v) (hw : Carries t x w) :
    face v = face w := by
  rw [face, face, hv.dataType, hv.notNull, hv.number, hw.dataType, hw.notNull, hw.number]

theorem computes_perm {func : AggregateFunction} {xs ys : List Value} (hperm : xs.Perm ys)
    (hne : func.Folds → xs ≠ []) {v w : Value} (hv : func.Computes xs v)
    (hw : func.Computes ys w) : face v = face w := by
  have hnums : (numbers (nonNull xs)).Perm (numbers (nonNull ys)) := (nonNull_perm hperm).map _
  have hset : {n | n ∈ numbers (nonNull xs)} = {n | n ∈ numbers (nonNull ys)} :=
    Set.ext fun n => hnums.mem_iff
  have htype : ∀ {t t' : DataType}, func.Folds → (∀ x ∈ xs, x.dataType = t) →
      (∀ y ∈ ys, y.dataType = t') → t = t' := by
    intro t t' hfolds hxs hys
    obtain ⟨x, hx⟩ := List.exists_mem_of_ne_nil _ (hne hfolds)
    exact (hxs x hx).symm.trans (hys x (hperm.mem_iff.mp hx))
  cases func with
  | countStar =>
      rw [Computes, hperm.length_eq] at hv
      exact face_of_carries hv hw
  | count =>
      rw [Computes, (nonNull_perm hperm).length_eq] at hv
      exact face_of_carries hv hw
  | sum =>
      obtain ⟨t, hxs, hv⟩ := hv
      obtain ⟨t', hys, hw⟩ := hw
      obtain rfl := htype (.inl rfl) hxs hys
      rw [hnums.sum_eq] at hv
      exact face_of_carries hv hw
  | min =>
      obtain ⟨t, m, hxs, hm, hv⟩ := hv
      obtain ⟨t', m', hys, hm', hw⟩ := hw
      obtain rfl := htype (.inr (.inl rfl)) hxs hys
      rw [hset] at hm
      obtain rfl := hm.unique hm'
      exact face_of_carries hv hw
  | max =>
      obtain ⟨t, m, hxs, hm, hv⟩ := hv
      obtain ⟨t', m', hys, hm', hw⟩ := hw
      obtain rfl := htype (.inr (.inr rfl)) hxs hys
      rw [hset] at hm
      obtain rfl := hm.unique hm'
      exact face_of_carries hv hw

theorem map_face_key {key : List Value} (h : GroupKey ts key) :
    key.map face = List.zipWith (fun t n => (t, false, n)) ts (numbers key) := by
  obtain ⟨-, rfl, hn⟩ := h
  induction key with
  | nil => rfl
  | cons v key ih =>
      rw [List.map_cons, List.map_cons, numbers, List.map_cons, List.zipWith_cons_cons,
        ih fun u hu => hn u (List.mem_cons_of_mem _ hu), face, hn v List.mem_cons_self]
      rfl

theorem Grouped.key {R : AggregateFunction → List Value → Value → Prop} {table : List Input}
    (h : Grouped R funcs inputs table) (htyped : Typed ts funcs inputs) {e : Input}
    (he : e ∈ table) : GroupKey ts e.1 := by
  obtain ⟨d, hd, hde⟩ := List.mem_map.mp (h.carried e he)
  exact hde ▸ htyped.keys d hd

theorem numbers_of_faces {e : Input} (h : GroupKey ts e.1) :
    (((valuesIn e).map face).take ts.length).map (fun f => f.2.2) = numbers e.1 := by
  rw [valuesIn, List.map_append, List.take_left' (by rw [List.length_map, h.length]), List.map_map]
  rfl

theorem Grouped.nodup_faces {R : AggregateFunction → List Value → Value → Prop}
    {table : List Input} (h : Grouped R funcs inputs table) (htyped : Typed ts funcs inputs) :
    (table.map fun e => (valuesIn e).map face).Nodup := by
  apply List.Nodup.of_map fun fs : List (DataType × Bool × Int) =>
    (fs.take ts.length).map fun f => f.2.2
  rw [List.map_map]
  have heq : table.map ((fun fs : List (DataType × Bool × Int) =>
      (fs.take ts.length).map fun f => f.2.2) ∘ fun e => (valuesIn e).map face) =
        table.map fun e => numbers e.1 :=
    List.map_congr_left fun e he => numbers_of_faces (h.key htyped he)
  rw [heq]
  exact h.nodup

theorem Grouped.perm {table table' : List Input} (htyped : Typed ts funcs inputs)
    (hperm : inputs'.Perm inputs) (h : Grouped Computes funcs inputs table)
    (h' : Grouped Computes funcs inputs' table') :
    (table'.map fun e => (valuesIn e).map face).Perm
      (table.map fun e => (valuesIn e).map face) := by
  have htyped' := htyped.perm hperm
  have hsame : ∀ e ∈ table, ∀ e' ∈ table', numbers e'.1 = numbers e.1 →
      (valuesIn e').map face = (valuesIn e).map face := by
    intro e he e' he' hnum
    rw [valuesIn, valuesIn, List.map_append, List.map_append, map_face_key (h.key htyped he),
      map_face_key (h'.key htyped' he'), hnum]
    congr 1
    apply List.ext_getElem
    · rw [List.length_map, List.length_map, h.length e he, h'.length e' he']
    · intro i hi hi'
      rw [List.length_map] at hi hi'
      rw [List.getElem_map, List.getElem_map]
      have hlen : i < funcs.length := by rw [← h.length e he]; exact hi'
      have hf := List.getElem?_eq_getElem hlen
      have hcol : (column i (groupOf inputs' e'.1)).Perm (column i (groupOf inputs e.1)) := by
        rw [groupOf_congr hnum]
        exact column_perm hperm i e.1
      refine computes_perm hcol (fun hfolds hnil => ?_)
        (h'.results e' he' i _ _ hf (List.getElem?_eq_getElem hi))
        (h.results e he i _ _ hf (List.getElem?_eq_getElem hi'))
      obtain ⟨t, ht⟩ := htyped'.columns i _ hf hfolds
      obtain ⟨d, hd, hde⟩ := List.mem_map.mp (h'.carried e' he')
      have hcolumn := ht d hd
      rw [hde, hnil] at hcolumn
      exact hcolumn.notEmpty rfl
  rw [List.perm_ext_iff_of_nodup (h'.nodup_faces htyped') (h.nodup_faces htyped)]
  have hmem : ∀ ns, ns ∈ table'.map (fun e => numbers e.1) ↔
      ns ∈ table.map fun e => numbers e.1 := by
    intro ns
    rw [h'.mem_iff, h.mem_iff, (hperm.map _).mem_iff]
  intro fs
  constructor
  · intro hfs
    obtain ⟨e', he', rfl⟩ := List.mem_map.mp hfs
    obtain ⟨e, he, hnum⟩ := List.mem_map.mp ((hmem _).mp (List.mem_map.mpr ⟨e', he', rfl⟩))
    exact List.mem_map.mpr ⟨e, he, (hsame e he e' he' hnum.symm).symm⟩
  · intro hfs
    obtain ⟨e, he, rfl⟩ := List.mem_map.mp hfs
    obtain ⟨e', he', hnum⟩ := List.mem_map.mp ((hmem _).mpr (List.mem_map.mpr ⟨e, he, rfl⟩))
    exact List.mem_map.mpr ⟨e', he', hsame e he e' he' hnum⟩

/-! ## Strays -/

theorem length_column_le (i : Nat) (inputs : List Input) (key : List Value) :
    (column i (groupOf inputs key)).length ≤ inputs.length :=
  Nat.le_trans (List.length_filterMap_le ..) (List.length_filter_le ..)

theorem isStray_iff {xs : List Value} (h : IntegerColumn t xs) {x : Value}
    (hx : x ∈ nonNull xs) : isStray x = true ↔ x.number = t.nullNumber := by
  rw [isStray, beq_iff_eq, h.dataType x (mem_nonNull.mp hx).1]

theorem countP_isStray_eq_zero {xs : List Value} (h : IntegerColumn t xs) :
    (nonNull xs).countP isStray = 0 ↔ t.nullNumber ∉ numbers (nonNull xs) := by
  rw [List.countP_eq_zero, numbers, List.mem_map]
  constructor
  · rintro hall ⟨x, hx, hnum⟩
    exact hall x hx ((isStray_iff h hx).mpr hnum)
  · intro hne x hx hstray
    exact hne ⟨x, hx, (isStray_iff h hx).mp hstray⟩

theorem two_le_countP {xs : List Value} (h : IntegerColumn t xs) {rest : List Int}
    (hxs : numbers (nonNull xs) = t.nullNumber :: t.nullNumber :: rest) :
    2 ≤ (nonNull xs).countP isStray := by
  have hcount : (nonNull xs).countP isStray = (numbers (nonNull xs)).countP (· = t.nullNumber) := by
    rw [numbers, List.countP_map]
    refine List.countP_congr fun x hx => ?_
    rw [isStray_iff h hx]
    simp
  rw [hcount, hxs]
  simp

/-- The first number of a sum is in the range of the type. -/
theorem head_ne_of_sumsInRange {xs : List Value} (h : IntegerColumn t xs)
    (hsums : SumsInRange t xs) : (numbers (nonNull xs)).head? ≠ some t.nullNumber := by
  obtain ⟨v, vs, hxs⟩ := List.exists_cons_of_ne_nil h.notEmpty
  have hfirst := (hsums 1 (Nat.le_refl 1) (by simp [hxs])).1
  rw [hxs] at hfirst ⊢
  intro hhead
  have hnum : v.number = t.nullNumber := Option.some.inj hhead
  simp [numbers, hnum] at hfirst

theorem result_ok (rt : Runtime) {func : AggregateFunction} {xs : List Value}
    (hlen : xs.length < 2 ^ 31)
    (h : func.Folds → ∃ t, IntegerColumn t xs ∧ (func = .sum → SumsInRange t xs) ∧
      (func = .min → (numbers (nonNull xs)).head? ≠ some t.nullNumber ∨
        t.nullNumber ∉ numbers (nonNull xs))) :
    ∃ w, func.result rt xs = .ok w := by
  have hok : ∀ t, (func.Folds → IntegerColumn t xs ∧ func.Fits t xs) →
      ∃ w, func.result rt xs = .ok w := by
    intro t hfits
    obtain ⟨w, hw, -⟩ := result_computes rt hlen hfits
    exact ⟨w, hw⟩
  cases func with
  | count | countStar => exact hok .bigint fun hfolds => by rcases hfolds with h | h | h <;> cases h
  | sum =>
      obtain ⟨t, hcol, hsums, -⟩ := h (.inl rfl)
      exact hok t fun _ => ⟨hcol, hsums rfl⟩
  | min =>
      obtain ⟨t, hcol, -, hmin⟩ := h (.inr (.inl rfl))
      by_cases hmem : t.nullNumber ∈ numbers (nonNull xs)
      · obtain ⟨w, hw, -⟩ := result_min_spoiled rt hcol
          ((hmin rfl).resolve_right fun hne => hne hmem) hmem
        exact ⟨w, hw⟩
      · exact hok t fun _ => ⟨hcol, hmem⟩
  | max =>
      obtain ⟨t, hcol, -, -⟩ := h (.inr (.inr rfl))
      by_cases hfits : ∃ rest, numbers (nonNull xs) = t.nullNumber :: t.nullNumber :: rest
      · obtain ⟨rest, hrest⟩ := hfits
        obtain ⟨w, hw, -⟩ := result_max_spoiled rt hcol hrest
        exact ⟨w, hw⟩
      · exact hok t fun _ => ⟨hcol, hfits⟩

theorem runs_of_summable (rt : Runtime) (htyped : Typed ts funcs inputs)
    (hsums : Summable funcs inputs) : Runs rt funcs inputs := by
  intro i func hf e he
  refine result_ok rt (Nat.lt_of_le_of_lt (length_column_le ..) htyped.count) fun hfolds => ?_
  obtain ⟨t, ht⟩ := htyped.columns i func hf hfolds
  have hrange := hsums i func t hf hfolds e he (ht e he)
  exact ⟨t, ht e he, fun _ => hrange, fun _ => .inl (head_ne_of_sumsInRange (ht e he) hrange)⟩

/-- Where the arguments fit, the aggregates that come out are the right ones. -/
theorem Grouped.computes {table : List Input} (htyped : Typed ts funcs inputs)
    (hfits : ∀ (i : Nat) func t, funcs[i]? = some func → func.Folds → ∀ e ∈ inputs,
      IntegerColumn t (column i (groupOf inputs e.1)) →
        func.Fits t (column i (groupOf inputs e.1)))
    (h : Grouped (fun func xs w => func.result rt xs = .ok w) funcs inputs table) :
    Grouped Computes funcs inputs table := by
  refine ⟨h.nodup, h.mem_iff, h.carried, h.length, fun e he i func w hf hw => ?_⟩
  obtain ⟨d, hd, hde⟩ := List.mem_map.mp (h.carried e he)
  have hresult := h.results e he i func w hf hw
  have hlen := Nat.lt_of_le_of_lt (length_column_le i inputs e.1) htyped.count
  rw [← hde] at hresult hlen ⊢
  have hcomputes : ∃ t, func.Folds → IntegerColumn t (column i (groupOf inputs d.1)) ∧
      func.Fits t (column i (groupOf inputs d.1)) := by
    by_cases hfolds : func.Folds
    · obtain ⟨t, ht⟩ := htyped.columns i func hf hfolds
      exact ⟨t, fun _ => ⟨ht d hd, hfits i func t hf hfolds d hd (ht d hd)⟩⟩
    · exact ⟨.bigint, fun hin => absurd hin hfolds⟩
  obtain ⟨t, ht⟩ := hcomputes
  obtain ⟨w', hw', hcomp⟩ := result_computes rt hlen ht
  cases hresult.symm.trans hw'
  exact hcomp

/-! ## The executor -/

theorem Emits.unique {out out' : List (List Value)} (h : Emits rt plan child fuel c out)
    (h' : Emits rt plan child fuel c out') : out = out' := by
  obtain ⟨s, hs, hout⟩ := h
  obtain ⟨s', hs', hout'⟩ := h'
  cases hs.symm.trans hs'
  exact (hout (fun _ => 1) fun _ => Nat.le_refl 1).unique (hout' (fun _ => 1) fun _ => Nat.le_refl 1)

theorem not_emits_nil (hmap : rt.map.Correct) (hchild : Yields child (fun _ => 256) c [])
    (hgroup : plan.groupBys = []) (hfuel : 0 < fuel) : ¬ Emits rt plan child fuel c [] := by
  rintro ⟨s, hs, hyields⟩
  have hnone : rt.map.find AggregateKey.equal (AggregateKey.hash rt) [] [] = .ok none := by
    have hkey : EquivalenceOn AggregateKey.equal (AggregateKey.hash rt)
        (fun a b => numbers a = numbers b) ([] :: List.map Prod.fst ([] : List Entry)) :=
      @equivalenceOn rt [] _ fun key hkey => by
        rw [List.mem_singleton.mp hkey]
        exact ⟨by simp, rfl, by simp⟩
    rcases hmap.find_cases hkey List.Pairwise.nil with ⟨i, e, -, hi, -⟩ | ⟨hfind, -⟩
    · cases hi
    · exact hfind
  rw [init_eq hchild hfuel] at hs
  simp only [insertBatch, List.foldlM_nil, pure_bind, List.isEmpty_nil, hgroup, Bool.and_self,
    if_true, insertCombine, findOrCreate, hnone, ok_bind, List.nil_append] at hs
  obtain ⟨entries, hentries, hs⟩ := bind_eq_ok.mp hs
  obtain ⟨states, -, hset⟩ := bind_eq_ok.mp hentries
  cases hset
  cases hs
  obtain ⟨e, he⟩ := List.length_eq_one_iff.mp
    (hmap.order_perm [(([] : List Value), states)]).length_eq
  obtain ⟨s', hnext⟩ := (hyields (fun _ => 1) fun _ => Nat.le_refl 1).next_of_nil
  simp only [nextWith, List.length_nil, List.set_cons_zero, he, List.take_succ_cons,
    List.take_zero, List.mapM_cons, List.mapM_nil] at hnext
  cases hvalues : valuesOf plan e with
  | error fault =>
      rw [hvalues] at hnext
      cases hnext
  | ok values =>
      rw [hvalues] at hnext
      cases hnext

/-- An aggregate that comes out as NULL is not one of a GROUP BY. -/
theorem not_spoiled {table table' : List Input} (htyped : Typed ts funcs inputs)
    (htyped' : Typed ts funcs inputs') (h : Grouped Computes funcs inputs table)
    (h' : Grouped (fun func xs w => func.result rt xs = .ok w) funcs inputs' table')
    (hperm : (table'.map fun e => (valuesIn e).map face).Perm
      (table.map fun e => (valuesIn e).map face)) {i : Nat} {func : AggregateFunction}
    (hf : funcs[i]? = some func) {e : Input} (he : e ∈ inputs') {w : Value}
    (hw : func.result rt (column i (groupOf inputs' e.1)) = .ok w) : w.isNull = false := by
  obtain ⟨e', he', hnum⟩ := List.mem_map.mp
    ((h'.mem_iff (numbers e.1)).mpr (List.mem_map.mpr ⟨e, he, rfl⟩))
  obtain ⟨d, hd, hfaces⟩ := List.mem_map.mp (hperm.mem_iff.mp (List.mem_map.mpr ⟨e', he', rfl⟩))
  have htail : d.2.map face = e'.2.map face := by
    have hdrop := congrArg (List.drop ts.length) hfaces
    simp only [valuesIn, List.map_append] at hdrop
    rwa [List.drop_left' (by rw [List.length_map, (h.key htyped hd).length]),
      List.drop_left' (by rw [List.length_map, (h'.key htyped' he').length])] at hdrop
  have hi := (List.getElem?_eq_some_iff.mp hf).1
  have hdlen : i < d.2.length := by rwa [h.length d hd]
  have helen : i < e'.2.length := by rwa [h'.length e' he']
  have hu := List.getElem?_eq_getElem hdlen
  have hv := List.getElem?_eq_getElem helen
  have hface := congrArg (fun l : List (DataType × Bool × Int) => l[i]?) htail
  simp only [List.getElem?_map, hu, hv, Option.map_some, Option.some.injEq] at hface
  have hresult := h'.results e' he' i func _ hf hv
  rw [groupBy_congr hnum] at hresult
  cases hw.symm.trans hresult
  have hnull : d.2[i].isNull = e'.2[i].isNull := congrArg (fun f => f.2.1) hface
  rw [← hnull]
  exact (h.results d hd i func _ hf hu).notNull

/-! ## Two strays in front -/

theorem exists_perm_of_two_le_countP {α : Type} {p : α → Bool} {l : List α}
    (h : 2 ≤ l.countP p) : ∃ a b rest, (a :: b :: rest).Perm l ∧ p a = true ∧ p b = true := by
  rw [List.countP_eq_length_filter] at h
  match hl : l.filter p, h with
  | a :: b :: rest, _ =>
      have hmem : ∀ x ∈ a :: b :: rest, p x = true := fun x hx =>
        (List.mem_filter.mp (hl ▸ hx)).2
      refine ⟨a, b, rest ++ l.filter fun x => !p x, ?_, hmem a (by simp), hmem b (by simp)⟩
      have hsplit := List.filter_append_perm p l
      rw [hl] at hsplit
      exact hsplit

/-- The row brings a value to column `i` of the group that stands for NULL. -/
def bringsStray (i : Nat) (key : List Value) (e : Input) : Bool :=
  decide (numbers e.1 = numbers key) && (e.2[i]?).any fun v => !v.isNull && isStray v

theorem countP_bringsStray (i : Nat) (key : List Value) (inputs : List Input) :
    inputs.countP (bringsStray i key) =
      (nonNull (column i (groupOf inputs key))).countP isStray := by
  induction inputs with
  | nil => rfl
  | cons e inputs ih =>
      rw [List.countP_cons, ih]
      by_cases hnum : numbers e.1 = numbers key
      · have hgroup : groupOf (e :: inputs) key = e :: groupOf inputs key := by
          rw [groupOf, List.filter_cons_of_pos (by simpa using hnum)]
          rfl
        rw [hgroup]
        cases hv : e.2[i]? with
        | none => simp [column, bringsStray, hv]
        | some v =>
            have hcol : column i (e :: groupOf inputs key) =
                v :: column i (groupOf inputs key) := by
              simp [column, hv]
            rw [hcol]
            cases hn : v.isNull with
            | true => simp [nonNull, bringsStray, hv, hn]
            | false => simp [nonNull, bringsStray, hv, hn, hnum, List.countP_cons]
      · have hgroup : groupOf (e :: inputs) key = groupOf inputs key := by
          rw [groupOf, List.filter_cons_of_neg (by simpa using hnum)]
          rfl
        rw [hgroup]
        simp [bringsStray, hnum]

theorem numbers_of_bringsStray {i : Nat} {key : List Value} {a b : Input}
    (ha : bringsStray i key a = true) (hb : bringsStray i key b = true)
    (hcol : IntegerColumn t (column i (groupOf (a :: b :: inputs) key))) :
    ∃ rest, numbers (nonNull (column i (groupOf (a :: b :: inputs) key))) =
      t.nullNumber :: t.nullNumber :: rest := by
  simp only [bringsStray, Bool.and_eq_true, decide_eq_true_eq, Option.any_eq_true,
    Bool.not_eq_true'] at ha hb
  obtain ⟨hanum, u, hu, hun, hus⟩ := ha
  obtain ⟨hbnum, v, hv, hvn, hvs⟩ := hb
  have hgroup : groupOf (a :: b :: inputs) key = a :: b :: groupOf inputs key := by
    rw [groupOf, List.filter_cons_of_pos (by simpa using hanum),
      List.filter_cons_of_pos (by simpa using hbnum)]
    rfl
  have hnonNull : nonNull (column i (groupOf (a :: b :: inputs) key)) =
      u :: v :: nonNull (column i (groupOf inputs key)) := by
    rw [hgroup]
    simp [column, hu, hv, nonNull, hun, hvn]
  refine ⟨numbers (nonNull (column i (groupOf inputs key))), ?_⟩
  have hu' := (isStray_iff hcol (hnonNull ▸ List.mem_cons_self)).mp hus
  have hv' := (isStray_iff hcol
    (hnonNull ▸ List.mem_cons_of_mem _ List.mem_cons_self)).mp hvs
  rw [hnonNull, numbers, List.map_cons, List.map_cons, hu', hv']
  rfl

/-! ## GROUP BY -/

theorem countP_perm (h : inputs'.Perm inputs) (i : Nat) (key : List Value) :
    (nonNull (column i (groupOf inputs' key))).countP isStray =
      (nonNull (column i (groupOf inputs key))).countP isStray :=
  (nonNull_perm (column_perm h i key)).countP_eq _

/-- Without a SUM, and with a MIN that has no number to copy that stands for NULL, the rows may
come in any order. -/
theorem runs_perm (rt : Runtime) (htyped : Typed ts funcs inputs) (hsum : .sum ∉ funcs)
    (hmin : ∀ i, funcs[i]? = some .min → ∀ e ∈ inputs,
      (nonNull (column i (groupOf inputs e.1))).countP isStray = 0)
    (hperm : inputs'.Perm inputs) : Runs rt funcs inputs' := by
  have htyped' := htyped.perm hperm
  intro i func hf e he
  refine result_ok rt (Nat.lt_of_le_of_lt (length_column_le ..) htyped'.count) fun hfolds => ?_
  obtain ⟨t, ht⟩ := htyped'.columns i func hf hfolds
  refine ⟨t, ht e he, ?_, ?_⟩
  · rintro rfl
    exact absurd (List.mem_of_getElem? hf) hsum
  · rintro rfl
    have hzero := hmin i hf e (hperm.mem_iff.mp he)
    rw [← countP_perm hperm] at hzero
    exact .inr ((countP_isStray_eq_zero (ht e he)).mp hzero)

/-- The rows of a GROUP BY and the rows of the results, where both come from one run. -/
theorem Groups.results (hmap : rt.map.Correct)
    (hinput : ∀ row ∈ rows, inputOf plan row.1 = .ok (input row))
    (hchild : Yields child (fun _ => 256) c rows) (hfuel : rows.length < fuel)
    (htyped : Typed ts plan.aggFuncs (rows.map input))
    (hsums : Summable plan.aggFuncs (rows.map input)) {table : List Input}
    (hgrouped : Grouped Computes plan.aggFuncs (rows.map input) table)
    (hemits : Emits rt plan child fuel c (table.map valuesIn)) :
    (plan.groupBys = [] → rows ≠ []) ∧
      ∀ i, plan.aggFuncs[i]? = some .min → ∀ e ∈ rows.map input,
        (nonNull (column i (groupOf (rows.map input) e.1))).countP isStray = 0 := by
  have hrows : plan.groupBys = [] → rows ≠ [] := by
    rintro hgroup rfl
    cases table with
    | nil => exact not_emits_nil hmap hchild hgroup hfuel hemits
    | cons e table =>
        have hmem := (hgrouped.mem_iff (numbers e.1)).mp (by simp)
        cases hmem
  refine ⟨hrows, fun i hf e he => ?_⟩
  obtain ⟨table', hgrouped', hemits'⟩ := emits_of_runs hmap hinput hchild hfuel hrows htyped
    (runs_of_summable rt htyped hsums)
  have hsame : (table'.map fun e => (valuesIn e).map face).Perm
      (table.map fun e => (valuesIn e).map face) := by
    have heq := congrArg (List.map (List.map face)) (hemits.unique hemits')
    rw [List.map_map, List.map_map] at heq
    exact .of_eq heq.symm
  obtain ⟨t, ht⟩ := htyped.columns i .min hf (.inr (.inl rfl))
  have hrange := hsums i .min t hf (.inr (.inl rfl)) e he (ht e he)
  rw [countP_isStray_eq_zero (ht e he)]
  intro hstray
  obtain ⟨w, hw, hspoiled⟩ := result_min_spoiled rt (ht e he)
    (head_ne_of_sumsInRange (ht e he) hrange) hstray
  have hnull := not_spoiled htyped htyped hgrouped hgrouped' hsame hf he hw
  rw [hspoiled.2] at hnull
  cases hnull

/-- The executor computes a GROUP BY exactly when the arguments are sound, and there is a key or a
row. -/
theorem groups_iff (hmap : rt.map.Correct)
    (hinput : ∀ row ∈ rows, inputOf plan row.1 = .ok (input row))
    (hchild : Yields child (fun _ => 256) c rows) (hfuel : rows.length < fuel)
    (htyped : Typed ts plan.aggFuncs (rows.map input))
    (hsums : Summable plan.aggFuncs (rows.map input)) :
    Groups rt plan child fuel c rows input ↔
      Sound plan.aggFuncs (rows.map input) ∧ (plan.groupBys = [] → rows ≠ []) := by
  constructor
  · rintro ⟨table, hgrouped, hemits, hany⟩
    obtain ⟨hrows, hmin⟩ := Groups.results hmap hinput hchild hfuel htyped hsums hgrouped hemits
    refine ⟨fun i func hf e he => ⟨?_, ?_⟩, hrows⟩
    · rintro rfl
      exact hmin i hf e he
    · rintro rfl hsum
      by_contra htwo
      have hcount : 2 ≤ rows.countP (bringsStray i e.1 ∘ input) := by
        rw [← List.countP_map, countP_bringsStray]
        omega
      obtain ⟨a, b, rest, hperm, ha, hb⟩ := exists_perm_of_two_le_countP hcount
      have hinputs := hperm.map input
      have htyped' := htyped.perm hinputs
      have hlen := hperm.length_eq
      have hyields : Yields (listSource : AbstractExecutor (List Row)) (fun _ => 256)
          (a :: b :: rest) (a :: b :: rest) :=
        listSource_delivers.yields (fun _ => by decide) _
      obtain ⟨out, hout, hfaces⟩ := hany hsum _ _ _ _ hperm hyields
      obtain ⟨table₂, hgrouped₂, hemits₂⟩ := emits_of_runs hmap
        (fun row hrow => hinput row (hperm.mem_iff.mp hrow)) hyields (by rw [hlen]; exact hfuel)
        (fun _ => List.cons_ne_nil _ _) htyped' (runs_perm rt htyped hsum hmin hinputs)
      rw [hout.unique hemits₂, List.map_map] at hfaces
      obtain ⟨t, ht⟩ := htyped'.columns i .max hf (.inr (.inr rfl))
      have he' := hinputs.mem_iff.mpr he
      obtain ⟨ns, hns⟩ := numbers_of_bringsStray ha hb (ht e he')
      obtain ⟨w, hw, hspoiled⟩ := result_max_spoiled rt (ht e he') hns
      have hnull := not_spoiled htyped htyped' hgrouped hgrouped₂ hfaces hf he' hw
      rw [hspoiled.2] at hnull
      cases hnull
  · rintro ⟨hsound, hrows⟩
    obtain ⟨table, hgrouped, hemits⟩ := emits_of_runs hmap hinput hchild hfuel hrows htyped
      (runs_of_summable rt htyped hsums)
    have hcomputes := hgrouped.computes htyped (by
      intro i func t hf hfolds e he hcol
      have hrange := hsums i func t hf hfolds e he hcol
      rcases hfolds with rfl | rfl | rfl
      · exact hrange
      · exact (countP_isStray_eq_zero hcol).mp ((hsound i .min hf e he).1 rfl)
      · rintro ⟨ns, hns⟩
        exact head_ne_of_sumsInRange hcol hrange (by rw [hns]; rfl))
    refine ⟨table, hcomputes, hemits, fun hsum σ' child' c' rows' hperm hyields => ?_⟩
    have hinputs := hperm.map input
    have htyped' := htyped.perm hinputs
    obtain ⟨table', hgrouped', hemits'⟩ := emits_of_runs hmap
      (fun row hrow => hinput row (hperm.mem_iff.mp hrow)) hyields
      (by rw [hperm.length_eq]; exact hfuel)
      (fun hgroup hnil => hrows hgroup (by rw [hnil] at hperm; exact hperm.symm.eq_nil)) htyped'
      (runs_perm rt htyped hsum (fun i hf e he => (hsound i .min hf e he).1 rfl) hinputs)
    have hcomputes' := hgrouped'.computes htyped' (by
      intro i func t hf hfolds e he hcol
      have hsound' := hsound i func hf e (hinputs.mem_iff.mp he)
      rw [← countP_perm hinputs] at hsound'
      rcases hfolds with rfl | rfl | rfl
      · exact absurd (List.mem_of_getElem? hf) hsum
      · exact (countP_isStray_eq_zero hcol).mp (hsound'.1 rfl)
      · rintro ⟨ns, hns⟩
        have htwo := two_le_countP hcol hns
        have hone := hsound'.2 rfl hsum
        omega)
    refine ⟨_, hemits', ?_⟩
    rw [List.map_map]
    exact hcomputes.perm htyped hinputs hcomputes'

/-! ## One MIN -/

/-- A runtime without doubles and texts. -/
def plainRuntime : Runtime where
  addDouble a _ := a
  stringHash s := BitVec.ofNat 64 s.length
  text _ := ""
  map := scanMap

def minSchema : ColumnSchema :=
  [⟨"k", .integer, 4⟩, ⟨"a", .tinyint, 1⟩, ⟨"c", .tinyint, 1⟩, ⟨"b", .integer, 4⟩]

/-- `SELECT k, MIN(c) GROUP BY k`. -/
def minPlan : AggregationPlanNode where
  outputSchema := [⟨"k", .integer, 4⟩, ⟨"min", .tinyint, 1⟩]
  groupBys := [fun tuple => tuple.value minSchema 0]
  aggregates := [fun tuple => tuple.value minSchema 2]
  aggFuncs := [.min]

/-- Two tuples with the key 1: a bitmap, and the bytes of the last columns. -/
def minRows (bitmap : UInt8) (first second : List UInt8) : List Row :=
  [(⟨[0, 1, 0, 0, 0] ++ first, .invalid⟩, .invalid),
    (⟨[bitmap, 1, 0, 0, 0] ++ second, .invalid⟩, .invalid)]

def minInput (row : Row) : Input := (inputOf minPlan row.1).toOption.getD ([], [])

/-- Two values in one group. -/
def minInputs (x y : BitVec 16) : List Input :=
  [([Value.ofInt32 .integer 1], [Value.ofInt16 .tinyint x]),
    ([Value.ofInt32 .integer 1], [Value.ofInt16 .tinyint y])]

theorem column_minInputs {x y : BitVec 16} {e : Input} (he : e ∈ minInputs x y) :
    column 0 (groupOf (minInputs x y) e.1) =
      [Value.ofInt16 .tinyint x, Value.ofInt16 .tinyint y] := by
  rcases List.mem_cons.mp he with rfl | he
  · rfl
  · cases List.mem_singleton.mp he
    rfl

theorem typed_minInputs {x y : BitVec 16} (hx : (Value.ofInt16 .tinyint x).isNull = false) :
    Typed [.integer] minPlan.aggFuncs (minInputs x y) := by
  have hkey : GroupKey [.integer] [Value.ofInt32 .integer 1] := by
    refine ⟨?_, rfl, ?_⟩
    · intro t ht
      cases List.mem_singleton.mp ht
      exact .inl rfl
    · intro v hv
      cases List.mem_singleton.mp hv
      rfl
  refine ⟨?_, ?_, (by decide : 2 < 2 ^ 31), ?_⟩
  · intro e he
    rcases List.mem_cons.mp he with rfl | he
    · exact hkey
    · cases List.mem_singleton.mp he
      exact hkey
  · intro e he
    rcases List.mem_cons.mp he with rfl | he
    · rfl
    · cases List.mem_singleton.mp he
      rfl
  · intro i func hf _
    cases i with
    | succ i => cases hf
    | zero =>
        refine ⟨.tinyint, fun e he => ?_⟩
        rw [column_minInputs he]
        refine ⟨rfl, ?_, ?_⟩
        · intro v hv
          rcases List.mem_cons.mp hv with rfl | hv
          · rfl
          · cases List.mem_singleton.mp hv
            rfl
        · simp [nonNull, hx]

theorem summable_minInputs {x y : BitVec 16}
    (hnonNull : nonNull [Value.ofInt16 .tinyint x, Value.ofInt16 .tinyint y] =
      [Value.ofInt16 .tinyint x, Value.ofInt16 .tinyint y])
    (hfirst : DataType.tinyint.InRange (Value.ofInt16 .tinyint x).number)
    (hsum : DataType.tinyint.InRange
      ((Value.ofInt16 .tinyint x).number + (Value.ofInt16 .tinyint y).number)) :
    Summable minPlan.aggFuncs (minInputs x y) := by
  intro i func t hf _ e he hcol
  cases i with
  | succ i => cases hf
  | zero =>
      rw [column_minInputs he] at hcol ⊢
      have ht : DataType.tinyint = t := hcol.dataType _ List.mem_cons_self
      subst ht
      intro k hk hlen
      rw [hnonNull] at hlen ⊢
      match k, hk, hlen with
      | 1, _, _ => simpa [numbers] using hfirst
      | 2, _, _ => simpa [numbers] using hsum

theorem groups_min :
    Groups plainRuntime minPlan listSource 3 (minRows 0 [0, 5, 0, 0, 0, 0] [0, 7, 0, 0, 0, 0])
      (minRows 0 [0, 5, 0, 0, 0, 0] [0, 7, 0, 0, 0, 0]) minInput := by
  have hmap : (minRows 0 [0, 5, 0, 0, 0, 0] [0, 7, 0, 0, 0, 0]).map minInput = minInputs 5 7 := rfl
  have hyields : Yields (listSource : AbstractExecutor (List Row)) (fun _ => 256)
      (minRows 0 [0, 5, 0, 0, 0, 0] [0, 7, 0, 0, 0, 0])
      (minRows 0 [0, 5, 0, 0, 0, 0] [0, 7, 0, 0, 0, 0]) :=
    listSource_delivers.yields (fun _ => by decide) _
  refine (groups_iff scanMap_correct ?_ hyields (by decide) (hmap ▸ typed_minInputs rfl)
    (hmap ▸ summable_minInputs rfl (by decide) (by decide))).mpr ⟨?_, fun _ => by simp [minRows]⟩
  · intro row hrow
    rcases List.mem_cons.mp hrow with rfl | hrow
    · rfl
    · cases List.mem_singleton.mp hrow
      rfl
  · rw [hmap]
    intro i func hf e he
    cases i with
    | succ i => cases hf
    | zero =>
        rw [column_minInputs he]
        exact ⟨fun _ => rfl, fun _ _ => by decide⟩

/-- The second tuple has a NULL, behind which the bytes of the next columns are read one too far:
the byte 128 is read as a TINYINT that is not NULL, and MIN copies it. -/
theorem not_groups_stray :
    [[Value.ofInt32 .integer 1, Value.ofInt8 .tinyint 0, Value.ofInt8 .tinyint 5,
        Value.ofInt32 .integer 0],
      [Value.ofInt32 .integer 1, Value.null .tinyint, Value.ofInt8 .tinyint 1,
        Value.ofInt32 .integer 128]].mapM (Tuple.make minSchema) =
      .ok ((minRows 2 [0, 5, 0, 0, 0, 0] [1, 128, 0, 0, 0, 0]).map Prod.fst) ∧
    (∀ row ∈ minRows 2 [0, 5, 0, 0, 0, 0] [1, 128, 0, 0, 0, 0],
      inputOf minPlan row.1 = .ok (minInput row)) ∧
    Typed [.integer] minPlan.aggFuncs
      ((minRows 2 [0, 5, 0, 0, 0, 0] [1, 128, 0, 0, 0, 0]).map minInput) ∧
    Summable minPlan.aggFuncs
      ((minRows 2 [0, 5, 0, 0, 0, 0] [1, 128, 0, 0, 0, 0]).map minInput) ∧
    ¬ Groups plainRuntime minPlan listSource 3 (minRows 2 [0, 5, 0, 0, 0, 0] [1, 128, 0, 0, 0, 0])
      (minRows 2 [0, 5, 0, 0, 0, 0] [1, 128, 0, 0, 0, 0]) minInput := by
  have hmap : (minRows 2 [0, 5, 0, 0, 0, 0] [1, 128, 0, 0, 0, 0]).map minInput =
      minInputs 5 0xFF80#16 := rfl
  have hinput : ∀ row ∈ minRows 2 [0, 5, 0, 0, 0, 0] [1, 128, 0, 0, 0, 0],
      inputOf minPlan row.1 = .ok (minInput row) := by
    intro row hrow
    rcases List.mem_cons.mp hrow with rfl | hrow
    · rfl
    · cases List.mem_singleton.mp hrow
      rfl
  have htyped := @typed_minInputs 5 0xFF80#16 rfl
  have hsums := @summable_minInputs 5 0xFF80#16 rfl (by decide) (by decide)
  rw [← hmap] at htyped hsums
  refine ⟨rfl, hinput, htyped, hsums, ?_⟩
  rintro ⟨table, hgrouped, hemits, -⟩
  have hyields : Yields (listSource : AbstractExecutor (List Row)) (fun _ => 256)
      (minRows 2 [0, 5, 0, 0, 0, 0] [1, 128, 0, 0, 0, 0])
      (minRows 2 [0, 5, 0, 0, 0, 0] [1, 128, 0, 0, 0, 0]) :=
    listSource_delivers.yields (fun _ => by decide) _
  obtain ⟨-, hmin⟩ := Groups.results scanMap_correct hinput hyields (by decide) htyped hsums
    hgrouped hemits
  have hzero := hmin 0 rfl ([Value.ofInt32 .integer 1], [Value.ofInt16 .tinyint 5])
    (by rw [hmap]; exact List.mem_cons_self)
  rw [hmap, column_minInputs List.mem_cons_self] at hzero
  exact absurd hzero (by decide)

end TurtleDb.Execution.AggregationExecutor
