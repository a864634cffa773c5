import Mathlib.Data.List.Perm.Subperm
import Mathlib.Data.List.TakeWhile
import TurtleDb.Lib.PagedTable

/-!
# Scanning a paged table that changes

What a scan has still to read from a position on, and how that changes when an entry is erased or
one is added: to the last page, or on a new page behind it.
-/

namespace TurtleDb.Lib

namespace SlotTable

variable {α : Type}

theorem entriesFrom_erase (l : SlotTable α) (k i : Nat) :
    (l.erase k).entriesFrom i = (l.entriesFrom i).filter fun e => e.1 ≠ k := by
  refine eq_of_mem_iff (pairwise_entriesFrom _ _) ((pairwise_entriesFrom l i).filter _) ?_
  intro j a
  rw [List.mem_filter, mem_entriesFrom, mem_entriesFrom, get_erase]
  by_cases hj : j = k <;> simp [hj]

theorem entriesFrom_suffix (l : SlotTable α) (i : Nat) : l.entriesFrom i <:+ l.entriesFrom 0 := by
  unfold entriesFrom
  rcases Nat.le_total i l.length with hle | hle
  · have hsplit : List.range' 0 (l.length - 0) = List.range' 0 i ++ List.range' i (l.length - i) := by
      have h := List.range'_append_1 (s := 0) (m := i) (n := l.length - i)
      rw [Nat.zero_add, Nat.add_sub_cancel' hle] at h
      exact h.symm
    rw [hsplit, List.filterMap_append]
    exact List.suffix_append _ _
  · rw [Nat.sub_eq_zero_of_le hle]
    exact List.nil_suffix

/-- A scan that has passed the hole does not see what fills it. -/
theorem entriesFrom_insert_of_lt (l : SlotTable α) (a : α) {i : Nat} (h : l.free < i) :
    (l.insert a).entriesFrom i = l.entriesFrom i := by
  refine eq_of_mem_iff (pairwise_entriesFrom _ _) (pairwise_entriesFrom _ _) fun k b => ?_
  rw [mem_entriesFrom, mem_entriesFrom, get_insert]
  by_cases hk : k = l.free
  · subst hk
    simp [Nat.not_le.mpr h]
  · rw [if_neg hk]

theorem entriesFrom_of_cons {l : SlotTable α} {i k : Nat} {a : α} {rest : List (Nat × α)}
    (h : l.entriesFrom i = (k, a) :: rest) :
    i ≤ k ∧ k < l.length ∧ l.get k = some a ∧ l.entriesFrom k = (k, a) :: rest ∧
      l.entriesFrom (k + 1) = rest := by
  have hmem : (k, a) ∈ l.entriesFrom i := by
    rw [h]
    exact List.mem_cons_self
  obtain ⟨hik, hget⟩ := mem_entriesFrom.mp hmem
  have hlt := lt_length_of_get hget
  have hpair := pairwise_entriesFrom l i
  rw [h, List.pairwise_cons] at hpair
  have hrest : l.entriesFrom (k + 1) = rest := by
    refine eq_of_mem_iff (pairwise_entriesFrom _ _) hpair.2 fun j b => ?_
    rw [mem_entriesFrom]
    constructor
    · rintro ⟨hj, hb⟩
      have hj' : (j, b) ∈ l.entriesFrom i := mem_entriesFrom.mpr ⟨by omega, hb⟩
      rw [h] at hj'
      rcases List.mem_cons.mp hj' with he | hj'
      · have : j = k := congrArg Prod.fst he
        omega
      · exact hj'
    · intro hj
      have hlt' : k < j := hpair.1 _ hj
      have hj' : (j, b) ∈ l.entriesFrom i := by
        rw [h]
        exact List.mem_cons_of_mem _ hj
      exact ⟨hlt', (mem_entriesFrom.mp hj').2⟩
  refine ⟨hik, hlt, hget, ?_, hrest⟩
  rw [entriesFrom_step l hlt, hget, ← hrest]

end SlotTable

namespace PagedTable

variable {ι α : Type} [DecidableEq ι]

/-- The entries that a scan at slot `s` of page `i` has still to read. -/
def ahead (pages : PagedTable ι α) (i : ι) (s : Nat) : List ((ι × Nat) × α) :=
  entriesFrom (pages.dropWhile fun p => p.1 ≠ i) s

def erase (pages : PagedTable ι α) (x : ι × Nat) : PagedTable ι α :=
  pages.map fun p => if p.1 = x.1 then (p.1, p.2.erase x.2) else p

variable {pages pre post : PagedTable ι α} {i j m : ι} {t t' : SlotTable α} {s : Nat} {a : α}
  {x : ι × Nat}

omit [DecidableEq ι] in
theorem fst_ne_of_nodup (h : ((pre ++ (i, t) :: post).map Prod.fst).Nodup) :
    (∀ p ∈ pre, p.1 ≠ i) ∧ ∀ p ∈ post, p.1 ≠ i := by
  rw [List.map_append, List.map_cons, List.nodup_middle, List.nodup_cons, List.mem_append] at h
  refine ⟨fun p hp he => h.1 (.inl ?_), fun p hp he => h.1 (.inr ?_)⟩
  · exact List.mem_map.mpr ⟨p, hp, he⟩
  · exact List.mem_map.mpr ⟨p, hp, he⟩

/-! ## What lies ahead -/

theorem ahead_of_not_mem (h : i ∉ pages.map Prod.fst) (s : Nat) : ahead pages i s = [] := by
  have hdrop : (pages.dropWhile fun p => p.1 ≠ i) = [] := by
    rw [List.dropWhile_eq_nil_iff]
    intro p hp
    have hne : p.1 ≠ i := fun he => h (List.mem_map.mpr ⟨p, hp, he⟩)
    simpa using hne
  rw [ahead, hdrop]
  rfl

theorem dropWhile_middle (hpre : ∀ p ∈ pre, p.1 ≠ i) :
    ((pre ++ (i, t) :: post).dropWhile fun p => p.1 ≠ i) = (i, t) :: post := by
  induction pre with
  | nil => simp
  | cons p pre ih =>
      rw [List.cons_append, List.dropWhile_cons, if_pos (by simpa using hpre p List.mem_cons_self)]
      exact ih fun q hq => hpre q (List.mem_cons_of_mem _ hq)

/-- At a page of the table, its entries and those of the pages behind it. -/
theorem ahead_middle (hpre : ∀ p ∈ pre, p.1 ≠ i) (s : Nat) :
    ahead (pre ++ (i, t) :: post) i s = pageEntries i t s ++ entries post := by
  rw [ahead, dropWhile_middle hpre]
  rfl

theorem ahead_first (s : Nat) : ahead ((i, t) :: post) i s = pageEntries i t s ++ entries post := by
  rw [← List.nil_append ((i, t) :: post)]
  exact ahead_middle (fun _ h => absurd h List.not_mem_nil) s

theorem ahead_cons (rest : PagedTable ι α) : ahead ((i, t) :: rest) i 0 = entries ((i, t) :: rest) :=
  by rw [ahead_first, entries_cons]

theorem ahead_cons_of_ne (h : j ≠ i) (s : Nat) : ahead ((j, t) :: pages) i s = ahead pages i s := by
  rw [ahead, List.dropWhile_cons, if_pos (by simpa using h)]
  rfl

theorem ahead_next (hnodup : ((pre ++ (i, t) :: (j, t') :: post).map Prod.fst).Nodup)
    (h : t.entriesFrom s = []) :
    ahead (pre ++ (i, t) :: (j, t') :: post) i s = ahead (pre ++ (i, t) :: (j, t') :: post) j 0 := by
  have hi := (fst_ne_of_nodup hnodup).1
  have hsplit : pre ++ (i, t) :: (j, t') :: post = (pre ++ [(i, t)]) ++ (j, t') :: post := by simp
  have hj := (fst_ne_of_nodup (hsplit ▸ hnodup)).1
  rw [ahead_middle hi, hsplit, ahead_middle hj, pageEntries, h, entries_cons]
  rfl

theorem ahead_of_cons {k : Nat} {rest : List (Nat × α)} (hpre : ∀ p ∈ pre, p.1 ≠ i)
    (h : t.entriesFrom s = (k, a) :: rest) :
    ahead (pre ++ (i, t) :: post) i s =
        ((i, k), a) :: ahead (pre ++ (i, t) :: post) i (k + 1) ∧
      ahead (pre ++ (i, t) :: post) i k = ahead (pre ++ (i, t) :: post) i s := by
  obtain ⟨_, _, _, hk, hrest⟩ := SlotTable.entriesFrom_of_cons h
  simp only [ahead_middle hpre, pageEntries, h, hk, hrest, List.map_cons, List.cons_append, and_self]

theorem ahead_of_get (hpre : ∀ p ∈ pre, p.1 ≠ i) (h : t.get s = some a) :
    ahead (pre ++ (i, t) :: post) i s =
      ((i, s), a) :: ahead (pre ++ (i, t) :: post) i (s + 1) := by
  have hcons : t.entriesFrom s = (s, a) :: t.entriesFrom (s + 1) := by
    rw [SlotTable.entriesFrom_step t (SlotTable.lt_length_of_get h), h]
  exact (ahead_of_cons hpre hcons).1

theorem ahead_of_live (hnodup : (pages.map Prod.fst).Nodup) (h : get pages i s = some a) :
    ahead pages i s = ((i, s), a) :: ahead pages i (s + 1) := by
  obtain ⟨t, ht, hget⟩ := Option.bind_eq_some_iff.mp h
  obtain ⟨pre, post, rfl⟩ := List.append_of_mem (mem_of_lookup ht)
  exact ahead_of_get (fst_ne_of_nodup hnodup).1 hget

/-- What lies ahead is the end of what there is. -/
theorem ahead_suffix (pages : PagedTable ι α) (i : ι) (s : Nat) : ahead pages i s <:+ entries pages := by
  unfold ahead
  induction pages with
  | nil => exact List.suffix_refl _
  | cons p pages ih =>
      obtain ⟨j, t⟩ := p
      rw [List.dropWhile_cons, entries_cons]
      split
      · exact ih.trans (List.suffix_append _ _)
      · obtain ⟨passed, hpassed⟩ := t.entriesFrom_suffix s
        refine ⟨passed.map fun e => ((j, e.1), e.2), ?_⟩
        rw [entriesFrom, pageEntries, pageEntries, ← hpassed, List.map_append, List.append_assoc]

/-! ## An entry is erased -/

@[simp] theorem map_fst_erase (pages : PagedTable ι α) (x : ι × Nat) :
    (erase pages x).map Prod.fst = pages.map Prod.fst := by
  unfold erase
  rw [List.map_map]
  refine List.map_congr_left fun p _ => ?_
  show (if p.1 = x.1 then (p.1, p.2.erase x.2) else p).1 = p.1
  split <;> rfl

theorem erase_of_ne (h : ∀ p ∈ pages, p.1 ≠ x.1) : erase pages x = pages := by
  unfold erase
  rw [List.map_congr_left fun p hp => if_neg (h p hp), List.map_id']

theorem erase_middle (hnodup : ((pre ++ (i, t) :: post).map Prod.fst).Nodup) (s : Nat) :
    erase (pre ++ (i, t) :: post) (i, s) = pre ++ (i, t.erase s) :: post := by
  obtain ⟨hpre, hpost⟩ := fst_ne_of_nodup hnodup
  have hmap := erase_of_ne (x := (i, s)) hpre
  have hmap' := erase_of_ne (x := (i, s)) hpost
  unfold erase at hmap hmap' ⊢
  rw [List.map_append, List.map_cons, hmap, hmap', if_pos rfl]

theorem pageEntries_erase (i : ι) (t : SlotTable α) (k s : Nat) :
    pageEntries i (t.erase k) s = (pageEntries i t s).filter fun e => e.1 ≠ (i, k) := by
  unfold pageEntries
  rw [SlotTable.entriesFrom_erase, List.filter_map]
  congr 1
  refine List.filter_congr fun e _ => ?_
  simp

theorem pageEntries_filter_of_ne (h : i ≠ x.1) (t : SlotTable α) (s : Nat) :
    (pageEntries i t s).filter (fun e => e.1 ≠ x) = pageEntries i t s := by
  refine List.filter_eq_self.mpr fun e he => ?_
  have hi := (mem_pageEntries.mp he).1
  have hne : e.1 ≠ x := fun hex => h (by rw [← hi, hex])
  simpa using hne

theorem entries_erase (pages : PagedTable ι α) (x : ι × Nat) :
    entries (erase pages x) = (entries pages).filter fun e => e.1 ≠ x := by
  induction pages with
  | nil => rfl
  | cons p pages ih =>
      obtain ⟨i, t⟩ := p
      have hcons : erase ((i, t) :: pages) x =
          (if i = x.1 then (i, t.erase x.2) else (i, t)) :: erase pages x := rfl
      rw [hcons, entries_cons i t, List.filter_append, ← ih]
      by_cases hi : i = x.1
      · subst hi
        rw [if_pos rfl, entries_cons, pageEntries_erase]
      · rw [if_neg hi, entries_cons, pageEntries_filter_of_ne hi]

/-- A scan that stands before or behind the entry has nothing else to read. -/
theorem ahead_erase (pages : PagedTable ι α) (x : ι × Nat) (i : ι) (s : Nat) :
    ahead (erase pages x) i s = (ahead pages i s).filter fun e => e.1 ≠ x := by
  induction pages with
  | nil => rfl
  | cons p pages ih =>
      obtain ⟨j, t⟩ := p
      have hcons : erase ((j, t) :: pages) x =
          (j, if j = x.1 then t.erase x.2 else t) :: erase pages x := by
        unfold erase
        rw [List.map_cons]
        split <;> rfl
      rw [hcons]
      by_cases hj : j = i
      · subst hj
        rw [ahead_first, ahead_first, List.filter_append, entries_erase]
        congr 1
        by_cases hx : j = x.1
        · subst hx
          rw [if_pos rfl, pageEntries_erase]
        · rw [if_neg hx, pageEntries_filter_of_ne hx]
      · rw [ahead_cons_of_ne hj, ahead_cons_of_ne hj, ih]

theorem get_erase (hnodup : (pages.map Prod.fst).Nodup) (x : ι × Nat) (j : ι) (s : Nat) :
    get (erase pages x) j s = if (j, s) = x then none else get pages j s := by
  have hmem : ∀ b, get (erase pages x) j s = some b ↔ (j, s) ≠ x ∧ get pages j s = some b := by
    intro b
    rw [← mem_entries_iff (x := ((j, s), b)) (by rwa [map_fst_erase]), entries_erase,
      List.mem_filter, mem_entries_iff hnodup]
    simp [and_comm]
  by_cases hx : (j, s) = x
  · rw [if_pos hx]
    cases hg : get (erase pages x) j s with
    | none => rfl
    | some b => exact absurd hx ((hmem b).mp hg).1
  · rw [if_neg hx]
    cases hg : get pages j s with
    | some b => exact (hmem b).mpr ⟨hx, hg⟩
    | none =>
        cases hg' : get (erase pages x) j s with
        | none => rfl
        | some b =>
            have h := ((hmem b).mp hg').2
            rw [hg] at h
            cases h

/-! ## Places -/

/-- There is such a place, with an entry or without one. -/
def Place (pages : PagedTable ι α) (x : ι × Nat) : Prop := ∃ t, (x.1, t) ∈ pages ∧ x.2 < t.length

theorem Place.of_get (h : get pages i s = some a) : Place pages (i, s) := by
  obtain ⟨t, ht, hget⟩ := Option.bind_eq_some_iff.mp h
  exact ⟨t, mem_of_lookup ht, SlotTable.lt_length_of_get hget⟩

theorem Place.erase {y : ι × Nat} (h : Place pages y) (x : ι × Nat) : Place (erase pages x) y := by
  obtain ⟨t, ht, hlt⟩ := h
  by_cases hx : y.1 = x.1
  · refine ⟨t.erase x.2, List.mem_map.mpr ⟨_, ht, if_pos hx⟩, ?_⟩
    rwa [SlotTable.length_erase]
  · exact ⟨t, List.mem_map.mpr ⟨_, ht, if_neg hx⟩, hlt⟩

/-! ## An entry is added -/

/-- `a` goes to the first hole of the last page, or to a new page behind it. -/
inductive Adds (a : α) : PagedTable ι α → ι × Nat → PagedTable ι α → Prop where
  | fill (pre : PagedTable ι α) (i : ι) (t : SlotTable α) :
      Adds a (pre ++ [(i, t)]) (i, t.free) (pre ++ [(i, t.insert a)])
  | grow (pages : PagedTable ι α) {m : ι} (hm : m ∉ pages.map Prod.fst) :
      Adds a pages (m, 0) (pages ++ [(m, [some a])])

namespace Adds

variable {pages' : PagedTable ι α}

omit [DecidableEq ι] in
theorem nodup (h : Adds a pages x pages') (hnodup : (pages.map Prod.fst).Nodup) :
    (pages'.map Prod.fst).Nodup := by
  cases h with
  | fill pre i t => simpa using hnodup
  | grow _ hm =>
      rw [List.map_append, List.nodup_append']
      refine ⟨hnodup, by simp, ?_⟩
      simpa using hm

theorem get_eq (h : Adds a pages x pages') (hnodup : (pages.map Prod.fst).Nodup) (j : ι)
    (s : Nat) : get pages' j s = if (j, s) = x then some a else get pages j s := by
  cases h with
  | fill pre i t =>
      rw [get_replace (t := t) hnodup]
      by_cases hj : j = i
      · subst hj
        rw [if_pos rfl, SlotTable.get_insert, get_of_mem hnodup (t := t) (by simp)]
        simp
      · simp [hj]
  | @grow _ m hm =>
      rw [get_snoc hm]
      by_cases hj : j = m
      · subst hj
        rw [if_pos rfl]
        cases s with
        | zero => simp [SlotTable.get]
        | succ s => simp [SlotTable.get, get, lookup_eq_none hm]
      · simp [hj]

omit [DecidableEq ι] in
theorem length_le (h : Adds a pages x pages') : pages'.length ≤ pages.length + 1 := by
  cases h with
  | fill pre i t => simp
  | grow _ _ => simp

/-- The place was free. -/
theorem get_eq_none (h : Adds a pages x pages') (hnodup : (pages.map Prod.fst).Nodup) :
    get pages x.1 x.2 = none := by
  cases h with
  | fill pre i t => rw [get_of_mem hnodup (t := t) (by simp), SlotTable.get_free]
  | grow _ hm => rw [get, lookup_eq_none hm]; rfl

omit [DecidableEq ι] in
theorem entries_perm (h : Adds a pages x pages') :
    (entries pages').Perm ((x, a) :: entries pages) := by
  cases h with
  | fill pre i t =>
      have hpage : (pageEntries i (t.insert a) 0).Perm (((i, t.free), a) :: pageEntries i t 0) :=
        (SlotTable.entriesFrom_insert_perm t a (Nat.zero_le _)).map _
      rw [entries_append, entries_append, entries_cons, entries_cons]
      refine (((hpage.append_right _).append_left _).trans ?_)
      exact List.perm_middle
  | @grow _ m hm =>
      have hnew : entries [(m, ([some a] : SlotTable α))] = [((m, 0), a)] := rfl
      rw [entries_append, hnew]
      exact List.perm_append_singleton _ _

omit [DecidableEq ι] in
theorem subset (h : Adds a pages x pages') : pages.map Prod.fst ⊆ pages'.map Prod.fst := by
  cases h with
  | fill pre i t => simp
  | grow _ _ => simp

omit [DecidableEq ι] in
theorem place (h : Adds a pages x pages') {y : ι × Nat} (hy : Place pages y ∨ y = x) :
    Place pages' y := by
  cases h with
  | fill pre i t =>
      have hlen := SlotTable.length_insert t a
      rcases hy with ⟨u, hu, hlt⟩ | rfl
      · rcases List.mem_append.mp hu with hu | hu
        · exact ⟨u, List.mem_append_left _ hu, hlt⟩
        · cases List.mem_singleton.mp hu
          exact ⟨t.insert a, by simp, by omega⟩
      · exact ⟨t.insert a, by simp, by rw [hlen]; omega⟩
  | grow _ hm =>
      rcases hy with ⟨u, hu, hlt⟩ | rfl
      · exact ⟨u, List.mem_append_left _ hu, hlt⟩
      · exact ⟨[some a], by simp, Nat.one_pos⟩

omit [DecidableEq ι] in
/-- An entry on a page of the table fills the first hole of the last page. -/
theorem of_mem (h : Adds a (pre ++ [(i, t)]) x pages') (hx : x.1 ∈ (pre ++ [(i, t)]).map Prod.fst) :
    x = (i, t.free) ∧ pages' = pre ++ [(i, t.insert a)] := by
  generalize hp : pre ++ [(i, t)] = pages at h hx
  cases h with
  | fill pre' i' t' =>
      obtain ⟨rfl, he⟩ := List.append_inj' hp rfl
      cases he
      exact ⟨rfl, rfl⟩
  | grow _ hm => exact absurd hx hm

omit [DecidableEq ι] in
/-- Any other entry is alone on a new page. -/
theorem of_not_mem (h : Adds a pages x pages') (hx : x.1 ∉ pages.map Prod.fst) :
    x = (x.1, 0) ∧ pages' = pages ++ [(x.1, [some a])] := by
  cases h with
  | fill pre' i' t' => exact absurd (by simp) hx
  | grow _ hm => exact ⟨rfl, rfl⟩

omit [DecidableEq ι] in
theorem last_live (h : Adds a pages x (pre ++ [(i, t)])) : ∃ k, t.get k ≠ none := by
  generalize hp : pre ++ [(i, t)] = pages' at h
  cases h with
  | fill pre' i' t' =>
      obtain ⟨rfl, he⟩ := List.append_inj' hp rfl
      cases he
      exact ⟨t'.free, by simp [SlotTable.get_insert]⟩
  | grow _ hm =>
      obtain ⟨rfl, he⟩ := List.append_inj' hp rfl
      cases he
      exact ⟨0, by simp [SlotTable.get]⟩

/-- An entry that is added behind the page of a scan lies ahead of it. -/
theorem ahead_perm {behind behind' : PagedTable ι α} (h : Adds a behind x behind')
    (hpre : ∀ p ∈ pre, p.1 ≠ i) (s : Nat) :
    (ahead (pre ++ (i, t) :: behind') i s).Perm ((x, a) :: ahead (pre ++ (i, t) :: behind) i s) := by
  rw [ahead_middle hpre, ahead_middle hpre]
  exact (h.entries_perm.append_left _).trans List.perm_middle

/-- The new entry lies behind a scan that has passed its place, and ahead of any other. -/
theorem ahead_cases (h : Adds a pages x pages') (hnodup : (pages.map Prod.fst).Nodup)
    (hi : i ∈ pages.map Prod.fst) (s : Nat) :
    (x.1 = i ∧ x.2 < s) ∧ ahead pages' i s = ahead pages i s ∨
      ¬ (x.1 = i ∧ x.2 < s) ∧ (ahead pages' i s).Perm ((x, a) :: ahead pages i s) := by
  obtain ⟨⟨i, u⟩, hu, rfl⟩ := List.mem_map.mp hi
  cases h with
  | fill pre j t =>
      have hpre := (fst_ne_of_nodup hnodup).1
      by_cases hj : j = i
      · subst hj
        rw [ahead_middle hpre, ahead_middle hpre]
        by_cases hlt : t.free < s
        · refine .inl ⟨⟨rfl, hlt⟩, ?_⟩
          rw [pageEntries, SlotTable.entriesFrom_insert_of_lt t a hlt]
          rfl
        · refine .inr ⟨fun hpassed => hlt hpassed.2, ?_⟩
          exact ((SlotTable.entriesFrom_insert_perm t a (Nat.not_lt.mp hlt)).map _).append_right _
      · have hmem : (i, u) ∈ pre := by
          rcases List.mem_append.mp hu with hmem | hmem
          · exact hmem
          · cases List.mem_singleton.mp hmem
            exact absurd rfl hj
        obtain ⟨before, behind, rfl⟩ := List.append_of_mem hmem
        rw [List.append_assoc, List.cons_append] at hnodup
        refine .inr ⟨fun hpassed => hj hpassed.1, ?_⟩
        rw [List.append_assoc, List.append_assoc]
        exact (Adds.fill behind j t).ahead_perm (fst_ne_of_nodup hnodup).1 s
  | @grow _ m hm =>
      obtain ⟨before, behind, rfl⟩ := List.append_of_mem hu
      have hne : m ≠ i := fun he => hm (by simp [he])
      refine .inr ⟨fun hpassed => hne hpassed.1, ?_⟩
      rw [List.append_assoc]
      refine (Adds.grow behind fun hmem => hm ?_).ahead_perm (fst_ne_of_nodup hnodup).1 s
      simp [hmem]

end Adds

end PagedTable

end TurtleDb.Lib
