import TurtleDb.Lib.SlotTable

/-!
# Slot tables in pages

A chain of named pages, each a slot table, is a finite map from a page and a position to a value. A
scan goes through the pages in order, and through each by position.
-/

namespace TurtleDb.Lib

abbrev PagedTable (ι α : Type) := List (ι × SlotTable α)

namespace PagedTable

variable {ι α : Type}

def get [DecidableEq ι] (pages : PagedTable ι α) (i : ι) (s : Nat) : Option α :=
  (pages.lookup i).bind fun t => SlotTable.get t s

/-- The entries of page `i` from position `s` on. -/
def pageEntries (i : ι) (t : SlotTable α) (s : Nat) : List ((ι × Nat) × α) :=
  (t.entriesFrom s).map fun e => ((i, e.1), e.2)

def entries (pages : PagedTable ι α) : List ((ι × Nat) × α) :=
  pages.flatMap fun p => pageEntries p.1 p.2 0

/-- The entries from position `s` of the first page on. -/
def entriesFrom (pages : PagedTable ι α) (s : Nat) : List ((ι × Nat) × α) :=
  match pages with
  | [] => []
  | (i, t) :: rest => pageEntries i t s ++ entries rest

/-- Page order first, then slot order. -/
def Before (pages : PagedTable ι α) (x y : ι × Nat) : Prop :=
  (x.1 = y.1 ∧ x.2 < y.2) ∨ [x.1, y.1].Sublist (pages.map Prod.fst)

variable {pages pre post : PagedTable ι α} {i j : ι} {t t' : SlotTable α} {s : Nat} {a : α}

theorem entries_append (xs ys : PagedTable ι α) : entries (xs ++ ys) = entries xs ++ entries ys :=
  List.flatMap_append

theorem entries_cons (i : ι) (t : SlotTable α) (rest : PagedTable ι α) :
    entries ((i, t) :: rest) = pageEntries i t 0 ++ entries rest := List.flatMap_cons

theorem mem_pageEntries {x : (ι × Nat) × α} :
    x ∈ pageEntries i t s ↔ x.1.1 = i ∧ s ≤ x.1.2 ∧ t.get x.1.2 = some x.2 := by
  unfold pageEntries
  rw [List.mem_map]
  constructor
  · rintro ⟨⟨k, b⟩, hm, rfl⟩
    exact ⟨rfl, SlotTable.mem_entriesFrom.mp hm⟩
  · rintro ⟨rfl, hs, ht⟩
    exact ⟨(x.1.2, x.2), SlotTable.mem_entriesFrom.mpr ⟨hs, ht⟩, rfl⟩

theorem pairwise_pageEntries (i : ι) (t : SlotTable α) (s : Nat) :
    (pageEntries i t s).Pairwise fun x y => x.1.1 = y.1.1 ∧ x.1.2 < y.1.2 := by
  unfold pageEntries
  rw [List.pairwise_map]
  exact (SlotTable.pairwise_entriesFrom t s).imp fun h => ⟨rfl, h⟩

theorem mem_entries {x : (ι × Nat) × α} :
    x ∈ entries pages ↔ ∃ t, (x.1.1, t) ∈ pages ∧ t.get x.1.2 = some x.2 := by
  unfold entries
  rw [List.mem_flatMap]
  constructor
  · rintro ⟨⟨i, t⟩, hp, hx⟩
    obtain ⟨rfl, _, ht⟩ := mem_pageEntries.mp hx
    exact ⟨t, hp, ht⟩
  · rintro ⟨t, hp, ht⟩
    exact ⟨_, hp, mem_pageEntries.mpr ⟨rfl, Nat.zero_le _, ht⟩⟩

theorem length_entries (pages : PagedTable ι α) :
    (entries pages).length = (pages.map fun p => p.2.countP Option.isSome).sum := by
  unfold entries
  rw [List.length_flatMap]
  congr 1
  refine List.map_congr_left fun p _ => ?_
  rw [pageEntries, List.length_map]
  exact SlotTable.length_entries p.2

/-- A scan meets the entries in the order of the pages and slots. -/
theorem pairwise_entries (pages : PagedTable ι α) :
    (entries pages).Pairwise fun x y => Before pages x.1 y.1 := by
  induction pages with
  | nil => exact List.Pairwise.nil
  | cons p rest ih =>
      obtain ⟨i, t⟩ := p
      rw [entries_cons, List.pairwise_append]
      refine ⟨(pairwise_pageEntries i t 0).imp fun h => .inl h, ih.imp ?_, ?_⟩
      · rintro x y (h | h)
        · exact .inl h
        · exact .inr (h.cons _)
      · intro x hx y hy
        obtain ⟨rfl, _⟩ := mem_pageEntries.mp hx
        obtain ⟨t', hy, _⟩ := mem_entries.mp hy
        refine .inr (.cons_cons _ ?_)
        exact List.singleton_sublist.mpr (List.mem_map.mpr ⟨_, hy, rfl⟩)

theorem nodup_entries (hnodup : (pages.map Prod.fst).Nodup) :
    ((entries pages).map Prod.fst).Nodup := by
  unfold List.Nodup
  rw [List.pairwise_map]
  refine (pairwise_entries pages).imp ?_
  rintro x y (⟨_, hlt⟩ | hsub) heq
  · rw [heq] at hlt
    exact Nat.lt_irrefl _ hlt
  · rw [heq] at hsub
    exact absurd (hsub.nodup hnodup) (by simp)

section lookup
variable [DecidableEq ι]

theorem lookup_of_mem (hnodup : (pages.map Prod.fst).Nodup) (hm : (i, t) ∈ pages) :
    pages.lookup i = some t := by
  induction pages with
  | nil => cases hm
  | cons p rest ih =>
      obtain ⟨j, u⟩ := p
      obtain ⟨hnot, hnodup⟩ := List.nodup_cons.mp hnodup
      rcases List.mem_cons.mp hm with he | hm
      · cases he
        exact List.lookup_cons_self
      · have hne : i ≠ j := fun he => hnot (he ▸ List.mem_map.mpr ⟨_, hm, rfl⟩)
        rw [List.lookup_cons, beq_false_of_ne hne]
        exact ih hnodup hm

theorem mem_of_lookup (h : pages.lookup i = some t) : (i, t) ∈ pages := by
  induction pages with
  | nil => cases h
  | cons p rest ih =>
      obtain ⟨j, u⟩ := p
      rw [List.lookup_cons] at h
      by_cases hij : i = j
      · subst hij
        rw [beq_self_eq_true] at h
        cases h
        exact List.mem_cons_self
      · rw [beq_false_of_ne hij] at h
        exact List.mem_cons_of_mem _ (ih h)

theorem get_of_mem (hnodup : (pages.map Prod.fst).Nodup) (hm : (i, t) ∈ pages) :
    get pages i s = t.get s := by
  rw [get, lookup_of_mem hnodup hm]
  rfl

theorem mem_entries_iff (hnodup : (pages.map Prod.fst).Nodup) {x : (ι × Nat) × α} :
    x ∈ entries pages ↔ get pages x.1.1 x.1.2 = some x.2 := by
  rw [mem_entries]
  constructor
  · rintro ⟨t, hp, ht⟩
    rw [get_of_mem hnodup hp, ht]
  · intro h
    unfold get at h
    obtain ⟨t, ht, hget⟩ := Option.bind_eq_some_iff.mp h
    exact ⟨t, mem_of_lookup ht, hget⟩

theorem lookup_eq_none (h : i ∉ pages.map Prod.fst) : pages.lookup i = none := by
  cases hl : pages.lookup i with
  | none => rfl
  | some t => exact absurd (List.mem_map.mpr ⟨_, mem_of_lookup hl, rfl⟩) h

theorem get_replace (hnodup : ((pre ++ (i, t) :: post).map Prod.fst).Nodup) (j : ι) (s : Nat) :
    get (pre ++ (i, t') :: post) j s =
      if j = i then t'.get s else get (pre ++ (i, t) :: post) j s := by
  have hnodup' : ((pre ++ (i, t') :: post).map Prod.fst).Nodup := by
    simpa using hnodup
  by_cases hj : j = i
  · rw [if_pos hj, hj, get_of_mem hnodup' (t := t') (by simp)]
  · rw [if_neg hj]
    unfold get
    congr 1
    rw [List.lookup_append, List.lookup_append, List.lookup_cons, List.lookup_cons,
      beq_false_of_ne hj]

theorem get_snoc (hi : i ∉ pages.map Prod.fst) (j : ι) (s : Nat) :
    get (pages ++ [(i, t)]) j s = if j = i then t.get s else get pages j s := by
  unfold get
  rw [List.lookup_append, List.lookup_cons]
  by_cases hj : j = i
  · rw [if_pos hj, hj, lookup_eq_none hi, beq_self_eq_true]
    rfl
  · rw [if_neg hj, beq_false_of_ne hj]
    simp

end lookup

end PagedTable

end TurtleDb.Lib
