import TurtleDb.Datatype.Compare
import TurtleDb.Execution.AbstractExecutor
import TurtleDb.Lib.Sorting

/-!
# ORDER BY

`execution/executors/sort_executor.{hpp,cpp}`, over any child executor and any sort. The comparator
asks whether a key equals itself, so keys that are not NULL tie whatever they are.
-/

namespace TurtleDb.Execution

open TurtleDb.Lib TurtleDb.Table TurtleDb.Datatype

inductive OrderByType where
  | invalid
  | default
  | asc
  | desc
  deriving DecidableEq, Repr

inductive OrderByNullType where
  | default
  | nullsFirst
  | nullsLast
  deriving DecidableEq, Repr

/-- What is read of `AbstractExpression`: the type it is declared with, and what it evaluates to on a
tuple of the child's schema. -/
structure AbstractExpression where
  returnType : DataType
  evaluate : Tuple → Except Fault Value

structure OrderBy where
  type : OrderByType
  nullType : OrderByNullType
  expr : AbstractExpression

structure SortEntry where
  tuple : Tuple
  rid : RecordId
  sortKeys : List Value
  deriving DecidableEq, Repr

namespace SortEntry

def row (e : SortEntry) : Row := (e.tuple, e.rid)

end SortEntry

namespace OrderBy

/-- `nulls_first`. -/
def nullsFirst (o : OrderBy) : Bool :=
  match o.nullType with
  | .nullsFirst => true
  | .nullsLast => false
  | .default => o.type = .desc

def isAsc (o : OrderBy) : Bool := o.type = .asc || o.type = .default

end OrderBy

namespace SortComparator

/-- The loop over `order_bys_`, with the keys still to compare. -/
def compareKeys : List OrderBy → List Value → List Value → Except Fault Bool
  | [], _, _ => .ok false
  | o :: os, valA :: as, valB :: bs =>
      if valA.isNull || valB.isNull then
        if valA.isNull && valB.isNull then compareKeys os as bs
        else if valA.isNull then .ok o.nullsFirst
        else .ok (!o.nullsFirst)
      else do
        let equal ← valA.compareEquals valA
        if equal = .cmpTrue then compareKeys os as bs
        else if o.isAsc then
          let less ← valA.compareLessThan valB
          return less == .cmpTrue
        else
          let greater ← valA.compareGreaterThan valB
          return greater == .cmpTrue
  | _ :: _, _, _ => .error .outOfBounds

/-- `operator()`. -/
def apply (orderBys : List OrderBy) (a b : SortEntry) : Except Fault Bool :=
  compareKeys orderBys a.sortKeys b.sortKeys

end SortComparator

namespace SortExecutor

/-- `sorted_entries_` and `cursor_`. -/
structure State where
  sortedEntries : List SortEntry
  cursor : Nat

def keysOf (orderBys : List OrderBy) (row : Row) : Except Fault (List Value) :=
  orderBys.mapM fun o => o.expr.evaluate row.1

def entry (orderBys : List OrderBy) (row : Row) : Except Fault SortEntry := do
  let keys ← keysOf orderBys row
  return { tuple := row.1, rid := row.2, sortKeys := keys }

variable {σ : Type}

/-- The loop that drains the child in batches of 256. -/
def collect (child : AbstractExecutor σ) (orderBys : List OrderBy) :
    Nat → σ → List SortEntry → Except Fault (List SortEntry × σ)
  | 0, _, _ => .error .outOfFuel
  | fuel + 1, c, entries => do
      let (batch, c) ← child c 256
      match batch with
      | none => return (entries, c)
      | some rows => do
          let new ← rows.mapM (entry orderBys)
          collect child orderBys fuel c (entries ++ new)

/-- `init`, with the child initialised and `std::sort` given. -/
def init (sort : Sorter Fault SortEntry) (child : AbstractExecutor σ) (orderBys : List OrderBy)
    (fuel : Nat) (c : σ) : Except Fault State := do
  let (entries, _) ← collect child orderBys fuel c []
  let sorted ← sort (SortComparator.apply orderBys) entries
  return { sortedEntries := sorted, cursor := 0 }

def next : AbstractExecutor State := fun s batchSize =>
  if s.cursor ≥ s.sortedEntries.length then .ok (none, s)
  else
    let count := min batchSize (s.sortedEntries.length - s.cursor)
    .ok (some (((s.sortedEntries.drop s.cursor).take count).map SortEntry.row),
      { s with cursor := s.cursor + count })

end SortExecutor

/-! ## The order asked for -/

/-- Both keys are NULL, or both are the same value. -/
def Tied (a b : Value) : Prop := a.isNull = b.isNull ∧ (a.isNull = false → a.key = b.key)

/-- The keys differ, and `a` goes before `b`. -/
def OrderBy.Before (o : OrderBy) (a b : Value) : Prop :=
  match a.isNull, b.isNull with
  | true, true => False
  | true, false => o.nullsFirst = true
  | false, true => o.nullsFirst = false
  | false, false => if o.isAsc then a.key < b.key else b.key < a.key

/-- The first position where the keys differ has them in order. -/
def InOrder : List OrderBy → List Value → List Value → Prop
  | o :: os, a :: as, b :: bs => o.Before a b ∨ Tied a b ∧ InOrder os as bs
  | _, _, _ => True

/-- Two rows may follow each other. -/
def RowInOrder (orderBys : List OrderBy) (a b : Row) : Prop :=
  ∀ as bs, SortExecutor.keysOf orderBys a = .ok as → SortExecutor.keysOf orderBys b = .ok bs →
    InOrder orderBys as bs

/-- One key for each `OrderBy`, of its type, and that type is one that is sorted. -/
def WellKeyed : List OrderBy → List Value → Prop :=
  List.Forall₂ fun o v => o.expr.returnType.Sortable ∧ v.dataType = o.expr.returnType ∧ v.Valid

/-- Where a key stands by being NULL or not alone. -/
def OrderBy.nullPlace (o : OrderBy) (v : Value) : Nat :=
  if v.isNull then if o.nullsFirst then 0 else 2 else 1

def nullPlaces (orderBys : List OrderBy) (keys : List Value) : List Nat :=
  List.zipWith OrderBy.nullPlace orderBys keys

/-- Two rows that must stand in one order only do so by where their keys are NULL. -/
def NullsDecide (orderBys : List OrderBy) (rows : List Row) : Prop :=
  ∀ a ∈ rows, ∀ b ∈ rows, ∀ as bs, SortExecutor.keysOf orderBys a = .ok as →
    SortExecutor.keysOf orderBys b = .ok bs → ¬ InOrder orderBys as bs →
      nullPlaces orderBys bs < nullPlaces orderBys as

/-! ### The order asked for is transitive -/

namespace Tied

variable {a b c : Value}

theorem refl (a : Value) : Tied a a := ⟨rfl, fun _ => rfl⟩

theorem trans (hab : Tied a b) (hbc : Tied b c) : Tied a c :=
  ⟨hab.1.trans hbc.1, fun h => (hab.2 h).trans (hbc.2 (hab.1 ▸ h))⟩

theorem before {o : OrderBy} (hab : Tied a b) (hbc : o.Before b c) : o.Before a c := by
  obtain ⟨hnull, hkey⟩ := hab
  unfold OrderBy.Before at *
  rw [hnull]
  cases hb : b.isNull with
  | true =>
      rw [hb] at hbc
      cases hc : c.isNull with
      | true => rw [hc] at hbc; exact hbc
      | false => rw [hc] at hbc; exact hbc
  | false =>
      rw [hkey (hnull.trans hb)]
      rwa [hb] at hbc

end Tied

namespace OrderBy.Before

variable {o : OrderBy} {a b c : Value}

theorem tied (hab : o.Before a b) (hbc : Tied b c) : o.Before a c := by
  obtain ⟨hnull, hkey⟩ := hbc
  unfold OrderBy.Before at *
  rw [← hnull]
  cases hb : b.isNull with
  | true =>
      rw [hb] at hab
      cases ha : a.isNull with
      | true => rw [ha] at hab; exact hab
      | false => rw [ha] at hab; exact hab
  | false =>
      rw [← hkey hb]
      rwa [hb] at hab

theorem trans (hab : o.Before a b) (hbc : o.Before b c) : o.Before a c := by
  unfold OrderBy.Before at *
  cases ha : a.isNull <;> cases hb : b.isNull <;> cases hc : c.isNull <;>
    simp only [ha, hb, hc] at hab hbc ⊢
  case false.false.false =>
    cases hasc : o.isAsc with
    | true =>
        rw [hasc] at hab hbc
        exact lt_trans hab hbc
    | false =>
        rw [hasc] at hab hbc
        exact lt_trans hbc hab
  case false.false.true => exact hbc
  case false.true.false => rw [hab] at hbc; cases hbc
  case true.false.false => exact hab
  case true.false.true => rw [hab] at hbc; cases hbc

end OrderBy.Before

theorem InOrder.refl (os : List OrderBy) (as : List Value) : InOrder os as as := by
  induction os generalizing as with
  | nil => simp [InOrder]
  | cons o os ih =>
      cases as with
      | nil => simp [InOrder]
      | cons a as => exact .inr ⟨Tied.refl a, ih as⟩

theorem InOrder.trans {os : List OrderBy} {as bs cs : List Value} (hlen : os.length = bs.length)
    (hab : InOrder os as bs) (hbc : InOrder os bs cs) : InOrder os as cs := by
  induction os generalizing as bs cs with
  | nil => simp [InOrder]
  | cons o os ih =>
      cases bs with
      | nil => cases hlen
      | cons b bs =>
          cases as with
          | nil => simp [InOrder]
          | cons a as =>
              cases cs with
              | nil => simp [InOrder]
              | cons c cs =>
                  rcases hab with hab | ⟨hab, habs⟩
                  · rcases hbc with hbc | ⟨hbc, _⟩
                    · exact .inl (hab.trans hbc)
                    · exact .inl (hab.tied hbc)
                  · rcases hbc with hbc | ⟨hbc, hbcs⟩
                    · exact .inl (hab.before hbc)
                    · exact .inr ⟨hab.trans hbc, ih (Nat.succ.inj hlen) habs hbcs⟩

/-! ## The comparator -/

namespace SortComparator

/-- What the comparator says of entries with keys of the right types. -/
def nullsLess (orderBys : List OrderBy) (a b : SortEntry) : Bool :=
  decide (nullPlaces orderBys a.sortKeys < nullPlaces orderBys b.sortKeys)

/-- It compares nothing but where the keys are NULL. -/
theorem compareKeys_eq {os : List OrderBy} {as bs : List Value} (ha : WellKeyed os as)
    (hb : WellKeyed os bs) :
    compareKeys os as bs = .ok (decide (nullPlaces os as < nullPlaces os bs)) := by
  induction ha generalizing bs with
  | nil =>
      cases hb
      rfl
  | @cons o a os as h _ ih =>
      cases hb with
      | @cons _ b _ bs h' hbs =>
          have hplaces : nullPlaces (o :: os) (a :: as) < nullPlaces (o :: os) (b :: bs) ↔
              o.nullPlace a < o.nullPlace b ∨
                o.nullPlace a = o.nullPlace b ∧ nullPlaces os as < nullPlaces os bs :=
            List.cons_lt_cons_iff
          rw [compareKeys, ih hbs]
          cases hna : a.isNull with
          | true =>
              cases hnb : b.isNull with
              | true => simp [hplaces, OrderBy.nullPlace, hna, hnb]
              | false => cases hn : o.nullsFirst <;> simp [hplaces, OrderBy.nullPlace, hna, hnb, hn]
          | false =>
              cases hnb : b.isNull with
              | true => cases hn : o.nullsFirst <;> simp [hplaces, OrderBy.nullPlace, hna, hnb, hn]
              | false =>
                  -- the key is compared with itself
                  have hself : a.compareEquals a = .ok .cmpTrue := by
                    rw [Value.compareEquals,
                      Value.compare_eq .eq rfl (h.2.1 ▸ h.1) h.2.2 h.2.2 hna hna]
                    simp [CmpOp.apply, getCmpBool]
                  simp [hplaces, OrderBy.nullPlace, hna, hnb, hself]

theorem apply_eq {orderBys : List OrderBy} {a b : SortEntry}
    (ha : WellKeyed orderBys a.sortKeys) (hb : WellKeyed orderBys b.sortKeys) :
    apply orderBys a b = .ok (nullsLess orderBys a b) := compareKeys_eq ha hb

/-- The comparator is a strict weak order, though not the one asked for. -/
theorem nullsLess_strictWeakOrderOn (orderBys : List OrderBy) (S : SortEntry → Prop) :
    StrictWeakOrderOn S (nullsLess orderBys) :=
  .of_image fun _ _ _ _ => decide_eq_true_iff

end SortComparator

namespace SortExecutor

variable {σ : Type}

/-! ## Building and emitting -/

/-- Every row has its keys, of the right types. -/
def RowsKeyed (orderBys : List OrderBy) (rows : List Row) : Prop :=
  ∀ row ∈ rows, ∃ keys, keysOf orderBys row = .ok keys ∧ WellKeyed orderBys keys

/-- An entry carries the keys of its row. -/
def Keyed (orderBys : List OrderBy) (e : SortEntry) : Prop :=
  keysOf orderBys e.row = .ok e.sortKeys ∧ WellKeyed orderBys e.sortKeys

theorem mapM_entry {orderBys : List OrderBy} {rows : List Row} (h : RowsKeyed orderBys rows) :
    ∃ es, rows.mapM (entry orderBys) = .ok es ∧ es.map SortEntry.row = rows ∧
      ∀ e ∈ es, Keyed orderBys e := by
  induction rows with
  | nil => exact ⟨[], rfl, rfl, by simp⟩
  | cons row rows ih =>
      obtain ⟨keys, hkeys, hwell⟩ := h row List.mem_cons_self
      obtain ⟨es, hes, hrows, hkeyed⟩ := ih fun r hr => h r (List.mem_cons_of_mem row hr)
      have hentry : entry orderBys row = .ok ⟨row.1, row.2, keys⟩ := by rw [entry, hkeys]; rfl
      refine ⟨⟨row.1, row.2, keys⟩ :: es, ?_, ?_, ?_⟩
      · rw [List.mapM_cons, hentry, ok_bind, hes]
        rfl
      · rw [List.map_cons, hrows]
        rfl
      · intro e he
        rcases List.mem_cons.mp he with rfl | he
        · exact ⟨hkeys, hwell⟩
        · exact hkeyed e he

theorem collect_eq {child : AbstractExecutor σ} {rest : σ → List Row} (hchild : Delivers child rest)
    {orderBys : List OrderBy} {fuel : Nat} {c : σ} (entries : List SortEntry)
    (hkeys : RowsKeyed orderBys (rest c)) (hfuel : (rest c).length < fuel) :
    ∃ es c', collect child orderBys fuel c entries = .ok (entries ++ es, c') ∧
      es.map SortEntry.row = rest c ∧ ∀ e ∈ es, Keyed orderBys e := by
  induction fuel generalizing c entries with
  | zero => omega
  | succ fuel ih =>
      obtain ⟨status, c', hc⟩ := hchild.next_ok c (show 1 ≤ 256 by omega)
      cases status with
      | none =>
          rw [collect, hc, hchild.of_none (by omega) hc]
          exact ⟨[], c', by simp [pure, Except.pure], rfl, by simp⟩
      | some rows =>
          obtain ⟨hne, _, happ⟩ := hchild.of_some (by omega) hc
          rw [happ] at hkeys hfuel
          rw [List.length_append] at hfuel
          have hpos := List.length_pos_of_ne_nil hne
          obtain ⟨new, hnew, hrows, hkeyed⟩ :=
            mapM_entry fun r hr => hkeys r (List.mem_append_left _ hr)
          obtain ⟨es, cEnd, hes, hrest, hkeyed'⟩ := ih (c := c') (entries ++ new)
            (fun r hr => hkeys r (List.mem_append_right _ hr)) (by omega)
          refine ⟨new ++ es, cEnd, ?_, ?_, ?_⟩
          · rw [collect, hc]
            simp only [ok_bind, hnew, hes, List.append_assoc]
          · rw [List.map_append, hrows, hrest, happ]
          · intro e he
            rcases List.mem_append.mp he with he | he
            · exact hkeyed e he
            · exact hkeyed' e he

theorem next_delivers : Delivers next fun s => (s.sortedEntries.drop s.cursor).map SortEntry.row := by
  constructor
  · intro s n hn hne
    have hlt : s.cursor < s.sortedEntries.length := by
      by_contra hge
      rw [List.drop_of_length_le (Nat.not_lt.mp hge)] at hne
      exact hne rfl
    refine ⟨min n (s.sortedEntries.length - s.cursor),
      { s with cursor := s.cursor + min n (s.sortedEntries.length - s.cursor) },
      by omega, by omega, ?_, ?_, ?_⟩
    · rw [List.length_map, List.length_drop]
      omega
    · rw [next, if_neg (by omega), ← List.map_take]
    · rw [← List.map_drop, List.drop_drop]
  · intro s n _ hnil
    refine ⟨s, ?_, hnil⟩
    rw [List.map_eq_nil_iff, List.drop_eq_nil_iff] at hnil
    rw [next, if_pos hnil]

/-! ## Every run -/

/-- With any correct sort, `init` returns, and whatever batches `next` is asked for it emits the rows
of the child in an order where any two that follow each other may. -/
def Sorts (child : AbstractExecutor σ) (rest : σ → List Row) (orderBys : List OrderBy) (fuel : Nat)
    (c : σ) : Prop :=
  ∀ sort : Sorter Fault SortEntry, CorrectSort sort → ∃ s, init sort child orderBys fuel c = .ok s ∧
    ∀ size : Nat → Nat, (∀ i, 1 ≤ size i) → ∃ out, Yields next size s out ∧ out.Perm (rest c) ∧
      out.IsChain (RowInOrder orderBys)

/-- Two entries may follow each other. -/
def EntryInOrder (orderBys : List OrderBy) (a b : SortEntry) : Prop :=
  InOrder orderBys a.sortKeys b.sortKeys

theorem rowInOrder_iff {orderBys : List OrderBy} {a b : SortEntry} (ha : Keyed orderBys a)
    (hb : Keyed orderBys b) : RowInOrder orderBys a.row b.row ↔ EntryInOrder orderBys a b := by
  constructor
  · exact fun h => h _ _ ha.1 hb.1
  · intro h as bs has hbs
    cases ha.1.symm.trans has
    cases hb.1.symm.trans hbs
    exact h

theorem pairwise_of_chain {orderBys : List OrderBy} {es : List SortEntry}
    (hkeyed : ∀ e ∈ es, Keyed orderBys e) (h : (es.map SortEntry.row).IsChain (RowInOrder orderBys)) :
    es.Pairwise (EntryInOrder orderBys) := by
  have htrans : Trans (fun a b => Keyed orderBys b ∧ EntryInOrder orderBys a b)
      (fun a b => Keyed orderBys b ∧ EntryInOrder orderBys a b)
      (fun a b => Keyed orderBys b ∧ EntryInOrder orderBys a b) :=
    ⟨fun hab hbc => ⟨hbc.1, hab.2.trans hab.1.2.length_eq hbc.2⟩⟩
  have hchain : es.IsChain fun a b => Keyed orderBys b ∧ EntryInOrder orderBys a b :=
    ((List.isChain_map SortEntry.row).mp h).imp_of_mem_imp fun a b ha hb hab =>
      ⟨hkeyed b hb, (rowInOrder_iff (hkeyed a ha) (hkeyed b hb)).mp hab⟩
  exact (List.isChain_iff_pairwise.mp hchain).imp And.right

theorem chain_of_pairwise {orderBys : List OrderBy} {es : List SortEntry}
    (hkeyed : ∀ e ∈ es, Keyed orderBys e) (h : es.Pairwise (EntryInOrder orderBys)) :
    (es.map SortEntry.row).IsChain (RowInOrder orderBys) := by
  rw [List.isChain_map]
  exact h.isChain.imp_of_mem_imp fun a b ha hb hab =>
    (rowInOrder_iff (hkeyed a ha) (hkeyed b hb)).mpr hab

section
variable {child : AbstractExecutor σ} {rest : σ → List Row} {orderBys : List OrderBy} {fuel : Nat}
  {c : σ}

theorem sorts_of_nullsDecide (hchild : Delivers child rest)
    (hkeys : RowsKeyed orderBys (rest c)) (hfuel : (rest c).length < fuel)
    (h : NullsDecide orderBys (rest c)) : Sorts child rest orderBys fuel c := by
  intro sort hsort
  obtain ⟨es, c', hcollect, hrows, hkeyed⟩ := collect_eq hchild [] hkeys hfuel
  rw [List.nil_append] at hcollect
  obtain ⟨sorted, hok, hperm, hpair⟩ := hsort (SortComparator.apply orderBys)
    (SortComparator.nullsLess orderBys) es
    (fun a ha b hb => SortComparator.apply_eq (hkeyed a ha).2 (hkeyed b hb).2)
    (SortComparator.nullsLess_strictWeakOrderOn orderBys _)
  have hmem : ∀ e ∈ sorted, e ∈ es := fun e he => hperm.mem_iff.mp he
  have hsorted : sorted.Pairwise (EntryInOrder orderBys) := by
    refine hpair.imp_of_mem ?_
    intro a b ha hb hba
    by_contra hno
    have hra : a.row ∈ rest c := hrows ▸ List.mem_map_of_mem (hmem a ha)
    have hrb : b.row ∈ rest c := hrows ▸ List.mem_map_of_mem (hmem b hb)
    have hlt := h _ hra _ hrb _ _ (hkeyed a (hmem a ha)).1 (hkeyed b (hmem b hb)).1 hno
    exact of_decide_eq_false hba hlt
  refine ⟨⟨sorted, 0⟩, ?_, ?_⟩
  · rw [init, hcollect, ok_bind]
    dsimp only
    rw [hok]
    rfl
  · intro size hsize
    refine ⟨sorted.map SortEntry.row, ?_, ?_, ?_⟩
    · exact next_delivers.yields hsize ⟨sorted, 0⟩
    · rw [← hrows]
      exact hperm.map SortEntry.row
    · exact chain_of_pairwise (fun e he => hkeyed e (hmem e he)) hsorted

/-- A pair the NULLs leave open is put in the wrong order by some correct sort. -/
theorem nullsDecide_of_sorts (hchild : Delivers child rest)
    (hkeys : RowsKeyed orderBys (rest c)) (hfuel : (rest c).length < fuel)
    (h : Sorts child rest orderBys fuel c) : NullsDecide orderBys (rest c) := by
  intro ra hra rb hrb as bs has hbs hno
  obtain ⟨es, c', hcollect, hrows, hkeyed⟩ := collect_eq hchild [] hkeys hfuel
  rw [List.nil_append] at hcollect
  rw [← hrows] at hra hrb
  obtain ⟨a, ha, rfl⟩ := List.mem_map.mp hra
  obtain ⟨b, hb, rfl⟩ := List.mem_map.mp hrb
  cases (hkeyed a ha).1.symm.trans has
  cases (hkeyed b hb).1.symm.trans hbs
  by_contra hge
  have hne : a ≠ b := by
    rintro rfl
    exact hno (InOrder.refl orderBys a.sortKeys)
  have hcmp : ∀ x ∈ es, ∀ y ∈ es, SortComparator.apply orderBys x y =
      .ok (SortComparator.nullsLess orderBys x y) :=
    fun x hx y hy => SortComparator.apply_eq (hkeyed x hx).2 (hkeyed y hy).2
  have hswo := SortComparator.nullsLess_strictWeakOrderOn orderBys (· ∈ es)
  obtain ⟨sort, hsort, sorted, hok, hpair⟩ :=
    exists_sort_pair hcmp hswo ha hb hne (decide_eq_false hge)
  obtain ⟨_, hok', hperm, _⟩ := hsort _ _ es hcmp hswo
  cases hok.symm.trans hok'
  obtain ⟨s, hinit, hrun⟩ := h sort hsort
  rw [init, hcollect, ok_bind] at hinit
  dsimp only at hinit
  rw [hok] at hinit
  cases hinit
  obtain ⟨out, hyields, _, hchain⟩ := hrun (fun _ => 1) fun _ => Nat.le_refl 1
  have hall : Yields next (fun _ => 1) ⟨sorted, 0⟩ (sorted.map SortEntry.row) :=
    next_delivers.yields (fun _ => Nat.le_refl 1) _
  rw [hyields.unique hall] at hchain
  have hpairs := pairwise_of_chain (fun e he => hkeyed e (hperm.mem_iff.mp he)) hchain
  exact hno (List.pairwise_iff_forall_sublist.mp hpairs hpair)

end

/-- The comparator is a strict weak order, but the rows come out sorted exactly when the NULLs among
their keys settle every order asked for. -/
theorem sorts_iff_nullsDecide (child : AbstractExecutor σ) (rest : σ → List Row)
    (hchild : Delivers child rest) (orderBys : List OrderBy) (fuel : Nat) (c : σ)
    (hkeys : RowsKeyed orderBys (rest c)) (hfuel : (rest c).length < fuel) :
    ((∃ lt : SortEntry → SortEntry → Bool,
        (∀ a b, WellKeyed orderBys a.sortKeys → WellKeyed orderBys b.sortKeys →
          SortComparator.apply orderBys a b = .ok (lt a b)) ∧
        StrictWeakOrderOn (fun e => WellKeyed orderBys e.sortKeys) lt) ∧
      Sorts child rest orderBys fuel c) ↔ NullsDecide orderBys (rest c) := by
  constructor
  · exact fun h => nullsDecide_of_sorts hchild hkeys hfuel h.2
  · intro h
    exact ⟨⟨SortComparator.nullsLess orderBys, fun a b => SortComparator.apply_eq,
      SortComparator.nullsLess_strictWeakOrderOn orderBys _⟩,
      sorts_of_nullsDecide hchild hkeys hfuel h⟩

/-! ## Two rows -/

/-- The column `a INTEGER`, ascending. -/
def firstColumn : OrderBy where
  type := .asc
  nullType := .default
  expr := { returnType := .integer, evaluate := fun t => t.value [⟨"a", .integer, 4⟩] 0 }

/-- A row whose only column is the integer `n`. -/
def integerRow (n : UInt8) : Row := (⟨[0, n, 0, 0, 0], ⟨0, 0⟩⟩, ⟨0, 0⟩)

theorem keysOf_integerRow_two :
    keysOf [firstColumn] (integerRow 2) = .ok [Value.ofInt32 .integer 2] := rfl

theorem keysOf_integerRow_one :
    keysOf [firstColumn] (integerRow 1) = .ok [Value.ofInt32 .integer 1] := rfl

/-- A row whose only column is NULL. -/
def nullRow : Row := (⟨[1], ⟨0, 0⟩⟩, ⟨0, 0⟩)

theorem keysOf_nullRow : keysOf [firstColumn] nullRow = .ok [Value.null .integer] := rfl

theorem wellKeyed_integer (i : BitVec 32) : WellKeyed [firstColumn] [Value.ofInt32 .integer i] := by
  refine .cons ⟨by decide, rfl, ?_⟩ .nil
  intro h
  cases h

theorem rowsKeyed_two_one : RowsKeyed [firstColumn] [integerRow 2, integerRow 1] := by
  intro row hrow
  rcases List.mem_cons.mp hrow with rfl | hrow
  · exact ⟨_, keysOf_integerRow_two, wellKeyed_integer 2⟩
  · cases List.mem_singleton.mp hrow
    exact ⟨_, keysOf_integerRow_one, wellKeyed_integer 1⟩

/-- Ascending, NULL goes behind the rows 2, and that settles where every row stands. -/
theorem sorts_iff_nullsDecide_null_two :
    Sorts listSource id [firstColumn] 4 [nullRow, integerRow 2, integerRow 2] ∧
      NullsDecide [firstColumn] [nullRow, integerRow 2, integerRow 2] := by
  have hrow : ∀ row ∈ [nullRow, integerRow 2, integerRow 2], row = nullRow ∨ row = integerRow 2 := by
    intro row hrow
    rcases List.mem_cons.mp hrow with rfl | hrow
    · exact .inl rfl
    · rcases List.mem_cons.mp hrow with rfl | hrow
      · exact .inr rfl
      · exact .inr (List.mem_singleton.mp hrow)
  have hkeyed : RowsKeyed [firstColumn] [nullRow, integerRow 2, integerRow 2] := by
    intro row hmem
    rcases hrow row hmem with rfl | rfl
    · exact ⟨_, keysOf_nullRow, .cons ⟨by decide, rfl, nofun⟩ .nil⟩
    · exact ⟨_, keysOf_integerRow_two, wellKeyed_integer 2⟩
  have hdecide : NullsDecide [firstColumn] [nullRow, integerRow 2, integerRow 2] := by
    intro a ha b hb as bs has hbs hno
    rcases hrow a ha with rfl | rfl <;> rcases hrow b hb with rfl | rfl
    · cases has.symm.trans hbs
      exact absurd (InOrder.refl _ _) hno
    · cases has
      cases hbs
      decide
    · cases has
      cases hbs
      exact absurd (.inl rfl) hno
    · cases has.symm.trans hbs
      exact absurd (InOrder.refl _ _) hno
  exact ⟨((sorts_iff_nullsDecide listSource id listSource_delivers [firstColumn] 4 _ hkeyed
    (by decide)).mpr hdecide).2, hdecide⟩

/-- The rows 2 and 1, sorted ascending, may well stay as they are. -/
theorem not_sorts_two_one :
    ¬ Sorts listSource id [firstColumn] 3 [integerRow 2, integerRow 1] := by
  intro h
  have hdecide := nullsDecide_of_sorts listSource_delivers rowsKeyed_two_one (by decide) h
  have hlt := hdecide (integerRow 2) (by simp) (integerRow 1) (by simp) _ _ keysOf_integerRow_two
    keysOf_integerRow_one (by
      simp only [InOrder, and_true]
      rintro (hbefore | ⟨_, hkey⟩)
      · have hlt : (Value.ofInt32 .integer 2).key < (Value.ofInt32 .integer 1).key := hbefore
        exact absurd hlt (by decide)
      · exact absurd (hkey rfl) (by decide))
  exact absurd hlt (by decide)

end SortExecutor

end TurtleDb.Execution
