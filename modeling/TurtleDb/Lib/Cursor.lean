import Mathlib.Data.Prod.Lex
import TurtleDb.Lib.PagedScan

/-!
# Cursors

A cursor holds one entry of a paged table at a time, or is at the end. Entries come and go while it
moves. It meets no place twice, and it meets every entry that stays.
-/

namespace TurtleDb.Lib

namespace PagedTable

variable {ι α : Type} [DecidableEq ι]

/-! ## The order of the places -/

/-- Page order first, then slot order. A page that is not there comes behind all that are. -/
def rank (pages : PagedTable ι α) (x : ι × Nat) : Nat ×ₗ Nat :=
  toLex ((pages.map Prod.fst).idxOf x.1, x.2)

variable {pages pages' pre post : PagedTable ι α} {i j : ι} {t : SlotTable α} {k s : Nat} {a : α}
  {x y : ι × Nat} {e e' : (ι × Nat) × α}

theorem rank_cons_of_eq (h : i = x.1) : rank ((i, t) :: pages) x = toLex (0, x.2) := by
  rw [rank, List.map_cons, ← h, List.idxOf_cons_self]

theorem rank_cons_of_ne (h : i ≠ x.1) :
    rank ((i, t) :: pages) x = toLex ((pages.map Prod.fst).idxOf x.1 + 1, x.2) := by
  rw [rank, List.map_cons, List.idxOf_cons_ne _ h]

theorem rank_le_cons (hx : i ≠ x.1) (hy : i ≠ y.1) :
    rank ((i, t) :: pages) x ≤ rank ((i, t) :: pages) y ↔ rank pages x ≤ rank pages y := by
  rw [rank_cons_of_ne hx, rank_cons_of_ne hy, rank, rank, Prod.Lex.toLex_le_toLex,
    Prod.Lex.toLex_le_toLex, Nat.add_lt_add_iff_right, Nat.add_right_cancel_iff]

theorem rank_succ_le (h : rank pages x < rank pages y) : rank pages (x.1, x.2 + 1) ≤ rank pages y := by
  rw [rank, rank, Prod.Lex.toLex_lt_toLex] at h
  rw [rank, rank, Prod.Lex.toLex_le_toLex]
  exact h.imp_right fun hslot => ⟨hslot.1, hslot.2⟩

theorem rank_lt_succ : rank pages x < rank pages (x.1, x.2 + 1) := by
  rw [rank, rank, Prod.Lex.toLex_lt_toLex]
  exact .inr ⟨rfl, Nat.lt_succ_self _⟩

/-- Two places of one rank are the same if one of them is on a page of the table. -/
theorem rank_inj (hx : x.1 ∈ pages.map Prod.fst) (h : rank pages x = rank pages y) : x = y := by
  obtain ⟨hidx, hslot⟩ := Prod.mk.inj (toLex.injective h)
  exact Prod.ext ((List.idxOf_inj hx).mp hidx) hslot

/-- More pages behind change no rank. -/
theorem rank_append {more : List ι} (hx : x.1 ∈ pages.map Prod.fst)
    (h : pages'.map Prod.fst = pages.map Prod.fst ++ more) : rank pages' x = rank pages x := by
  rw [rank, rank, h, List.idxOf_append_of_mem hx]

omit [DecidableEq ι] in
theorem fst_mem_of_mem_entries (h : e ∈ entries pages) : e.1.1 ∈ pages.map Prod.fst := by
  obtain ⟨t, ht, _⟩ := mem_entries.mp h
  exact List.mem_map.mpr ⟨_, ht, rfl⟩

/-- What lies ahead is what does not rank below. -/
theorem mem_ahead_iff (hnodup : (pages.map Prod.fst).Nodup) :
    e ∈ ahead pages i s ↔ e ∈ entries pages ∧ rank pages (i, s) ≤ rank pages e.1 := by
  induction pages with
  | nil => simp [ahead, entriesFrom, entries]
  | cons p pages ih =>
      obtain ⟨j, t⟩ := p
      obtain ⟨hj, hnodup⟩ := List.nodup_cons.mp hnodup
      have hrest : e ∈ entries pages → j ≠ e.1.1 := fun he hje =>
        hj (hje ▸ fst_mem_of_mem_entries he)
      rw [entries_cons, List.mem_append]
      by_cases hji : j = i
      · subst hji
        rw [ahead_first, List.mem_append, rank_cons_of_eq (x := (j, s)) rfl, mem_pageEntries,
          mem_pageEntries]
        constructor
        · rintro (⟨hpage, hs, hget⟩ | he)
          · refine ⟨.inl ⟨hpage, Nat.zero_le _, hget⟩, ?_⟩
            rw [rank_cons_of_eq hpage.symm, Prod.Lex.toLex_le_toLex]
            exact .inr ⟨rfl, hs⟩
          · refine ⟨.inr he, ?_⟩
            rw [rank_cons_of_ne (hrest he), Prod.Lex.toLex_le_toLex]
            exact .inl (Nat.succ_pos _)
        · rintro ⟨⟨hpage, _, hget⟩ | he, hle⟩
          · rw [rank_cons_of_eq hpage.symm, Prod.Lex.toLex_le_toLex] at hle
            refine .inl ⟨hpage, ?_, hget⟩
            exact hle.elim (fun hlt => absurd hlt (Nat.lt_irrefl 0)) And.right
          · exact .inr he
      · rw [ahead_cons_of_ne hji, ih hnodup, mem_pageEntries]
        constructor
        · rintro ⟨he, hle⟩
          exact ⟨.inr he, (rank_le_cons hji (hrest he)).mpr hle⟩
        · rintro ⟨⟨hpage, _, _⟩ | he, hle⟩
          · rw [rank_cons_of_eq hpage.symm, rank_cons_of_ne hji, Prod.Lex.toLex_le_toLex] at hle
            exact hle.elim (fun hlt => absurd hlt (Nat.not_lt_zero _))
              fun heq => absurd heq.1 (Nat.succ_ne_zero _)
          · exact ⟨he, (rank_le_cons hji (hrest he)).mp hle⟩

theorem idxOf_lt_of_sublist {l : List ι} (hnodup : l.Nodup) (h : [i, j].Sublist l) :
    l.idxOf i < l.idxOf j := by
  induction l with
  | nil => cases h
  | cons m l ih =>
      obtain ⟨hm, hnodup⟩ := List.nodup_cons.mp hnodup
      cases h with
      | cons _ h =>
          have hi : m ≠ i := fun he => hm (he ▸ h.subset (by simp))
          have hj : m ≠ j := fun he => hm (he ▸ h.subset (by simp))
          rw [List.idxOf_cons_ne _ hi, List.idxOf_cons_ne _ hj]
          exact Nat.succ_lt_succ (ih hnodup h)
      | cons_cons _ h =>
          have hj : i ≠ j := fun he => hm (he ▸ List.singleton_sublist.mp h)
          rw [List.idxOf_cons_self, List.idxOf_cons_ne _ hj]
          exact Nat.succ_pos _

theorem Before.rank_lt (hnodup : (pages.map Prod.fst).Nodup) (h : Before pages x y) :
    rank pages x < rank pages y := by
  rw [rank, rank, Prod.Lex.toLex_lt_toLex]
  rcases h with ⟨hpage, hlt⟩ | hsub
  · exact .inr ⟨congrArg (List.idxOf · (pages.map Prod.fst)) hpage, hlt⟩
  · exact .inl (idxOf_lt_of_sublist hnodup hsub)

/-- What lies ahead comes by rank. -/
theorem pairwise_ahead (hnodup : (pages.map Prod.fst).Nodup) :
    (ahead pages i s).Pairwise fun e e' => rank pages e.1 < rank pages e'.1 :=
  ((pairwise_entries pages).imp (Before.rank_lt hnodup)).sublist (ahead_suffix pages i s).sublist

omit [DecidableEq ι] in
/-- At most so many places. -/
theorem length_le_of_places {l : List (ι × Nat)} (hnodup : l.Nodup)
    (h : ∀ x ∈ l, Place pages x) : l.length ≤ (pages.map fun p => p.2.length).sum := by
  have hsub : l ⊆ pages.flatMap fun p => (List.range p.2.length).map fun k => (p.1, k) := by
    intro x hx
    obtain ⟨t, ht, hlt⟩ := h x hx
    exact List.mem_flatMap.mpr ⟨_, ht, List.mem_map.mpr ⟨_, List.mem_range.mpr hlt, rfl⟩⟩
  have hle := (List.subperm_of_subset hnodup hsub).length_le
  rw [List.length_flatMap] at hle
  simpa using hle

/-! ## Cursors -/

/-- An entry comes, or one goes, or nothing happens. -/
inductive Change : PagedTable ι α → PagedTable ι α → Prop where
  | same {p : PagedTable ι α} : Change p p
  | adds {p p' : PagedTable ι α} {x : ι × Nat} {a : α} (h : Adds a p x p') : Change p p'
  | erases {p : PagedTable ι α} (x : ι × Nat) : Change p (erase p x)

namespace Change

theorem nodup (h : Change pages pages') (hnodup : (pages.map Prod.fst).Nodup) :
    (pages'.map Prod.fst).Nodup := by
  cases h with
  | same => exact hnodup
  | adds h => exact h.nodup hnodup
  | erases _ => rwa [map_fst_erase]

theorem map_fst (h : Change pages pages') :
    ∃ more, pages'.map Prod.fst = pages.map Prod.fst ++ more := by
  cases h with
  | same => exact ⟨[], (List.append_nil _).symm⟩
  | adds h =>
      cases h with
      | fill pre i t => exact ⟨[], by simp⟩
      | @grow _ m _ => exact ⟨[m], by simp⟩
  | erases _ => exact ⟨[], by simp⟩

theorem place (h : Change pages pages') (hx : Place pages x) : Place pages' x := by
  cases h with
  | same => exact hx
  | adds h => exact h.place (.inl hx)
  | erases _ => exact hx.erase _

end Change

omit [DecidableEq ι] in
theorem Place.page (h : Place pages x) : x.1 ∈ pages.map Prod.fst := by
  obtain ⟨t, ht, _⟩ := h
  exact List.mem_map.mpr ⟨_, ht, rfl⟩

theorem Change.rank_eq (h : Change pages pages') (hx : Place pages x) :
    rank pages' x = rank pages x := by
  obtain ⟨more, hmore⟩ := h.map_fst
  exact rank_append hx.page hmore

/-- The runs of a cursor from the first entry on: the table, where the cursor is, what it has left
behind, and the tables so far. -/
inductive Cursor (first : PagedTable ι α) : PagedTable ι α → Option ((ι × Nat) × α) →
    List ((ι × Nat) × α) → List (PagedTable ι α) → Prop where
  | start : Cursor first first (entries first).head? [] [first]
  | change {p p' : PagedTable ι α} {at? seen past} (h : Cursor first p at? seen past)
      (hc : Change p p') : Cursor first p' at? seen (p' :: past)
  | next {p : PagedTable ι α} {e : (ι × Nat) × α} {seen past}
      (h : Cursor first p (some e) seen past) :
      Cursor first p (ahead p e.1.1 (e.1.2 + 1)).head? (seen ++ [e]) past

namespace Cursor

/-- The entries met so far rank one below the other, and those that stayed have been met or rank
above. -/
structure Sweeps (pages : PagedTable ι α) (at? : Option ((ι × Nat) × α))
    (seen : List ((ι × Nat) × α)) (past : List (PagedTable ι α)) : Prop where
  nodup : ∀ p ∈ past, (p.map Prod.fst).Nodup
  mem : pages ∈ past
  places : ∀ e ∈ seen ++ at?.toList, Place pages e.1
  ascending : (seen ++ at?.toList).Pairwise fun e e' => rank pages e.1 < rank pages e'.1
  genuine : ∀ e ∈ seen ++ at?.toList, ∃ p ∈ past, e ∈ entries p
  covered : ∀ e, (∀ p ∈ past, e ∈ entries p) →
    e ∈ seen ∨ ∃ e' ∈ at?, rank pages e'.1 ≤ rank pages e.1

variable {first : PagedTable ι α} {at? : Option ((ι × Nat) × α)} {seen : List ((ι × Nat) × α)}
  {past : List (PagedTable ι α)}

theorem head_rank_le {l : List ((ι × Nat) × α)}
    (h : l.Pairwise fun e e' => rank pages e.1 < rank pages e'.1) (he : e ∈ l) :
    ∃ e' ∈ l.head?, rank pages e'.1 ≤ rank pages e.1 := by
  cases l with
  | nil => cases he
  | cons e' l =>
      refine ⟨e', rfl, ?_⟩
      rcases List.mem_cons.mp he with rfl | he
      · exact le_refl _
      · exact le_of_lt ((List.pairwise_cons.mp h).1 e he)

theorem Sweeps.start (hnodup : (first.map Prod.fst).Nodup) :
    Sweeps first (entries first).head? [] [first] where
  nodup p hp := by
    cases List.mem_singleton.mp hp
    exact hnodup
  mem := List.mem_singleton.mpr rfl
  places e he := by
    have hmem := List.mem_of_mem_head? (Option.mem_toList.mp he)
    exact .of_get ((mem_entries_iff hnodup).mp hmem)
  ascending := by
    cases (entries first).head? with
    | none => exact .nil
    | some e => exact List.pairwise_singleton _ _
  genuine e he := ⟨first, List.mem_singleton.mpr rfl, List.mem_of_mem_head? (Option.mem_toList.mp he)⟩
  covered e he := .inr (head_rank_le ((pairwise_entries first).imp (Before.rank_lt hnodup))
    (he first (List.mem_singleton.mpr rfl)))

theorem Sweeps.change (h : Sweeps pages at? seen past) (hc : Change pages pages') :
    Sweeps pages' at? seen (pages' :: past) where
  nodup p hp := by
    rcases List.mem_cons.mp hp with rfl | hp
    · exact hc.nodup (h.nodup _ h.mem)
    · exact h.nodup p hp
  mem := List.mem_cons_self
  places e he := hc.place (h.places e he)
  ascending := h.ascending.imp_of_mem fun he he' hlt => by
    rwa [hc.rank_eq (h.places _ he), hc.rank_eq (h.places _ he')]
  genuine e he := by
    obtain ⟨p, hp, hmem⟩ := h.genuine e he
    exact ⟨p, List.mem_cons_of_mem _ hp, hmem⟩
  covered e he := by
    refine (h.covered e fun p hp => he p (List.mem_cons_of_mem _ hp)).imp_right ?_
    rintro ⟨e', he', hle⟩
    have hplace := Place.of_get ((mem_entries_iff (h.nodup _ h.mem)).mp
      (he pages (List.mem_cons_of_mem _ h.mem)))
    refine ⟨e', he', ?_⟩
    rwa [hc.rank_eq (h.places e' (by simp [Option.mem_def.mp he'])), hc.rank_eq hplace]

theorem Sweeps.next (h : Sweeps pages (some e) seen past) :
    Sweeps pages (ahead pages e.1.1 (e.1.2 + 1)).head? (seen ++ [e]) past := by
  have hnodup := h.nodup _ h.mem
  have hahead : ∀ e' ∈ (ahead pages e.1.1 (e.1.2 + 1)).head?,
      e' ∈ entries pages ∧ rank pages e.1 < rank pages e'.1 := fun e' he' => by
    obtain ⟨hmem, hle⟩ := (mem_ahead_iff hnodup).mp (List.mem_of_mem_head? he')
    exact ⟨hmem, lt_of_lt_of_le rank_lt_succ hle⟩
  have hlast : ∀ e' ∈ seen ++ [e], rank pages e'.1 ≤ rank pages e.1 := fun e' he' => by
    rcases List.mem_append.mp he' with he' | he'
    · exact le_of_lt ((List.pairwise_append.mp h.ascending).2.2 e' he' e (List.mem_singleton.mpr rfl))
    · cases List.mem_singleton.mp he'
      exact le_refl _
  refine ⟨h.nodup, h.mem, fun e' he' => ?_, ?_, fun e' he' => ?_, fun e' he' => ?_⟩
  · rcases List.mem_append.mp he' with he' | he'
    · exact h.places e' he'
    · exact .of_get ((mem_entries_iff hnodup).mp (hahead e' (Option.mem_toList.mp he')).1)
  · refine List.pairwise_append.mpr ⟨h.ascending, ?_, fun e₁ h₁ e₂ h₂ => ?_⟩
    · cases (ahead pages e.1.1 (e.1.2 + 1)).head? with
      | none => exact .nil
      | some e' => exact List.pairwise_singleton _ _
    · exact lt_of_le_of_lt (hlast e₁ h₁) (hahead e₂ (Option.mem_toList.mp h₂)).2
  · rcases List.mem_append.mp he' with he' | he'
    · exact h.genuine e' he'
    · exact ⟨pages, h.mem, (hahead e' (Option.mem_toList.mp he')).1⟩
  · rcases h.covered e' he' with hseen | ⟨e₀, he₀, hle⟩
    · exact .inl (List.mem_append_left _ hseen)
    · cases he₀
      rcases lt_or_eq_of_le hle with hlt | heq
      · refine .inr (head_rank_le (pairwise_ahead hnodup) ((mem_ahead_iff hnodup).mpr ?_))
        exact ⟨he' pages h.mem, rank_succ_le hlt⟩
      · -- The entry that the cursor was at is the one that stayed.
        have hplace := rank_inj (h.places e (by simp)).page heq
        obtain ⟨p, hp, hmem⟩ := h.genuine e (by simp)
        have hget := (mem_entries_iff (h.nodup p hp)).mp (he' p hp)
        rw [← hplace, (mem_entries_iff (h.nodup p hp)).mp hmem] at hget
        refine .inl (List.mem_append_right _ (List.mem_singleton.mpr ?_))
        exact Prod.ext hplace.symm (Option.some.inj hget).symm

theorem sweeps (hnodup : (first.map Prod.fst).Nodup) (h : Cursor first pages at? seen past) :
    Sweeps pages at? seen past := by
  induction h with
  | start => exact .start hnodup
  | change _ hc ih => exact ih.change hc
  | next _ ih => exact ih.next

theorem Sweeps.nodup_places (h : Sweeps pages at? seen past) :
    ((seen ++ at?.toList).map Prod.fst).Nodup := by
  unfold List.Nodup
  rw [List.pairwise_map]
  exact h.ascending.imp fun hlt he => ne_of_lt hlt (congrArg (rank pages) he)

/-- At the end, what stayed has been met. -/
theorem Sweeps.finished (h : Sweeps pages none seen past) (he : ∀ p ∈ past, e ∈ entries p) :
    e ∈ seen :=
  (h.covered e he).resolve_right fun hat => nomatch hat

end Cursor

end PagedTable

end TurtleDb.Lib
