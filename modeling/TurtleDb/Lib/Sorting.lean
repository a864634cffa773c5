import Mathlib.Data.List.Chain
import Mathlib.Data.List.Sublists
import Mathlib.Data.List.Nodup
import Mathlib.Order.Lattice

/-!
# Sorting by a strict weak order

What a comparison sort promises: a sorted permutation, whenever its comparison answers for all the
elements it sorts and is a strict weak order on them. Merge sort keeps the promise, and so does merge
sort of the reversed list; between them they show every order of two elements that the comparison
leaves open.
-/

namespace TurtleDb.Lib

variable {ε α : Type}

/-- `lt` is a strict weak order on the elements of `S`. -/
structure StrictWeakOrderOn (S : α → Prop) (lt : α → α → Bool) : Prop where
  irrefl : ∀ a, S a → lt a a = false
  trans : ∀ a b c, S a → S b → S c → lt a b = true → lt b c = true → lt a c = true
  incomp_trans : ∀ a b c, S a → S b → S c → lt a b = false → lt b a = false → lt b c = false →
    lt c b = false → lt a c = false ∧ lt c a = false

/-- A sort by a comparison that may fail. -/
abbrev Sorter (ε α : Type) := (α → α → Except ε Bool) → List α → Except ε (List α)

/-- `sort` sorts by every comparison that is a strict weak order on the list. -/
def CorrectSort (sort : Sorter ε α) : Prop :=
  ∀ cmp lt l, (∀ a ∈ l, ∀ b ∈ l, cmp a b = .ok (lt a b)) → StrictWeakOrderOn (· ∈ l) lt →
    ∃ out, sort cmp l = .ok out ∧ out.Perm l ∧ out.Pairwise fun a b => lt b a = false

namespace StrictWeakOrderOn

variable {S : α → Prop} {lt : α → α → Bool}

theorem asymm (h : StrictWeakOrderOn S lt) {a b : α} (ha : S a) (hb : S b) (hab : lt a b = true) :
    lt b a = false := by
  by_contra hba
  rw [Bool.not_eq_false] at hba
  have := h.trans a b a ha hb ha hab hba
  rw [h.irrefl a ha] at this
  cases this

theorem not_lt_trans (h : StrictWeakOrderOn S lt) {a b c : α} (ha : S a) (hb : S b) (hc : S c)
    (hba : lt b a = false) (hcb : lt c b = false) : lt c a = false := by
  by_contra hca
  rw [Bool.not_eq_false] at hca
  cases hab : lt a b with
  | true => rw [h.trans c a b hc ha hb hca hab] at hcb; cases hcb
  | false =>
      cases hbc : lt b c with
      | true => rw [h.trans b c a hb hc ha hbc hca] at hba; cases hba
      | false =>
          rw [(h.incomp_trans a b c ha hb hc hab hba hbc hcb).2] at hca
          cases hca

theorem mono {T : α → Prop} (h : StrictWeakOrderOn S lt) (hTS : ∀ a, T a → S a) :
    StrictWeakOrderOn T lt where
  irrefl a ha := h.irrefl a (hTS a ha)
  trans a b c ha hb hc := h.trans a b c (hTS a ha) (hTS b hb) (hTS c hc)
  incomp_trans a b c ha hb hc := h.incomp_trans a b c (hTS a ha) (hTS b hb) (hTS c hc)

/-- Comparing the images in a linear order is a strict weak order. -/
theorem of_image {β : Type} [LinearOrder β] {f : α → β}
    (h : ∀ a b, S a → S b → (lt a b = true ↔ f a < f b)) : StrictWeakOrderOn S lt := by
  have hfalse : ∀ a b, S a → S b → (lt a b = false ↔ f b ≤ f a) := by
    intro a b ha hb
    rw [← Bool.not_eq_true, h a b ha hb, not_lt]
  constructor
  case irrefl => exact fun a ha => (hfalse a a ha ha).mpr (le_refl _)
  case trans =>
    intro a b c ha hb hc hab hbc
    rw [h a c ha hc]
    exact lt_trans ((h a b ha hb).mp hab) ((h b c hb hc).mp hbc)
  case incomp_trans =>
    intro a b c ha hb hc hab hba hbc hcb
    have h1 := le_antisymm ((hfalse b a hb ha).mp hba) ((hfalse a b ha hb).mp hab)
    have h2 := le_antisymm ((hfalse c b hc hb).mp hcb) ((hfalse b c hb hc).mp hbc)
    have h3 := h1.trans h2
    exact ⟨(hfalse a c ha hc).mpr (ge_of_eq h3), (hfalse c a hc ha).mpr (le_of_eq h3)⟩

end StrictWeakOrderOn

/-! ## Merge sort -/

/-- Merge sort of the elements of `l`, each with the proof that it is one. -/
def mergeSortBy (lt : α → α → Bool) (l : List α) : List α :=
  (l.attach.mergeSort fun a b => !lt b.val a.val).map Subtype.val

section
variable {lt : α → α → Bool} {l : List α}

theorem le_trans_attach (h : StrictWeakOrderOn (· ∈ l) lt) (a b c : {x // x ∈ l})
    (hab : (!lt b.val a.val) = true) (hbc : (!lt c.val b.val) = true) :
    (!lt c.val a.val) = true := by
  rw [Bool.not_eq_true'] at *
  exact h.not_lt_trans a.property b.property c.property hab hbc

theorem le_total_attach (h : StrictWeakOrderOn (· ∈ l) lt) (a b : {x // x ∈ l}) :
    ((!lt b.val a.val) || (!lt a.val b.val)) = true := by
  cases hba : lt b.val a.val with
  | false => rfl
  | true => rw [h.asymm b.property a.property hba]; rfl

theorem mergeSortBy_perm (lt : α → α → Bool) (l : List α) : (mergeSortBy lt l).Perm l := by
  have := (List.mergeSort_perm l.attach fun a b => !lt b.val a.val).map Subtype.val
  rwa [List.attach_map_subtype_val] at this

theorem pairwise_mergeSortBy (h : StrictWeakOrderOn (· ∈ l) lt) :
    (mergeSortBy lt l).Pairwise fun a b => lt b a = false := by
  unfold mergeSortBy
  rw [List.pairwise_map]
  exact (List.pairwise_mergeSort (le_trans_attach h) (le_total_attach h) l.attach).imp
    fun hab => by simpa using hab

/-- Of two elements that stand in this order and need not be swapped, merge sort keeps the order. -/
theorem pair_sublist_mergeSortBy (h : StrictWeakOrderOn (· ∈ l) lt) {a b : α}
    (hab : List.Sublist [a, b] l) (hlt : lt b a = false) :
    List.Sublist [a, b] (mergeSortBy lt l) := by
  rw [← List.attach_map_subtype_val l] at hab
  obtain ⟨pair, hsub, hpair⟩ := List.sublist_map_iff.mp hab
  obtain ⟨x, xs, rfl, rfl, hxs⟩ := List.map_eq_cons_iff.mp hpair.symm
  obtain ⟨y, ys, rfl, rfl, hys⟩ := List.map_eq_cons_iff.mp hxs
  cases List.map_eq_nil_iff.mp hys
  have hsorted := List.pair_sublist_mergeSort (le_trans_attach h) (le_total_attach h)
    (show (!lt y.val x.val) = true by simpa using hlt) hsub
  exact hsorted.map Subtype.val

end

/-- The answer of a comparison that does not fail. -/
def answer (cmp : α → α → Except ε Bool) (a b : α) : Bool :=
  match cmp a b with
  | .ok r => r
  | .error _ => false

/-- Merge sort, of the list that `arrange` makes of the input. -/
def sortAfter (arrange : List α → List α) : Sorter ε α := fun cmp l =>
  .ok (mergeSortBy (answer cmp) (arrange l))

theorem answer_strictWeakOrderOn {S : α → Prop} {cmp : α → α → Except ε Bool} {lt : α → α → Bool}
    (hcmp : ∀ a b, S a → S b → answer cmp a b = lt a b) (h : StrictWeakOrderOn S lt) :
    StrictWeakOrderOn S (answer cmp) := by
  constructor
  case irrefl =>
    intro a ha
    rw [hcmp a a ha ha]
    exact h.irrefl a ha
  case trans =>
    intro a b c ha hb hc
    rw [hcmp a b ha hb, hcmp b c hb hc, hcmp a c ha hc]
    exact h.trans a b c ha hb hc
  case incomp_trans =>
    intro a b c ha hb hc
    rw [hcmp a b ha hb, hcmp b a hb ha, hcmp b c hb hc, hcmp c b hc hb, hcmp a c ha hc,
      hcmp c a hc ha]
    exact h.incomp_trans a b c ha hb hc

theorem answer_eq {cmp : α → α → Except ε Bool} {lt : α → α → Bool} {a b : α}
    (h : cmp a b = .ok (lt a b)) : answer cmp a b = lt a b := by
  rw [answer, h]

theorem sortAfter_correct {arrange : List α → List α} (harrange : ∀ l, (arrange l).Perm l) :
    CorrectSort (sortAfter arrange : Sorter ε α) := by
  intro cmp lt l hcmp h
  have hmem : ∀ a, a ∈ arrange l ↔ a ∈ l := fun a => (harrange l).mem_iff
  have hanswer : ∀ a b, a ∈ arrange l → b ∈ arrange l → answer cmp a b = lt a b :=
    fun a b ha hb => answer_eq (hcmp a ((hmem a).mp ha) b ((hmem b).mp hb))
  have hswo : StrictWeakOrderOn (· ∈ arrange l) (answer cmp) :=
    answer_strictWeakOrderOn hanswer (h.mono fun a ha => (hmem a).mp ha)
  have hperm := mergeSortBy_perm (answer cmp) (arrange l)
  refine ⟨_, rfl, hperm.trans (harrange l), ?_⟩
  refine (pairwise_mergeSortBy hswo).imp_of_mem ?_
  intro a b ha hb hab
  rwa [← hanswer b a (hperm.mem_iff.mp hb) (hperm.mem_iff.mp ha)]

section
variable {l : List α}

theorem pair_sublist_or {a b : α} (ha : a ∈ l) (hb : b ∈ l) (hne : a ≠ b) :
    List.Sublist [a, b] l ∨ List.Sublist [b, a] l := by
  induction l with
  | nil => cases ha
  | cons x xs ih =>
      rcases List.mem_cons.mp ha with hax | hax
      · rcases List.mem_cons.mp hb with hbx | hbx
        · exact absurd (hax.trans hbx.symm) hne
        · rw [hax]
          exact .inl ((List.singleton_sublist.mpr hbx).cons_cons x)
      · rcases List.mem_cons.mp hb with hbx | hbx
        · rw [hbx]
          exact .inr ((List.singleton_sublist.mpr hax).cons_cons x)
        · rcases ih hax hbx with h | h
          · exact .inl (h.cons x)
          · exact .inr (h.cons x)

/-- Whatever a comparison leaves open, some correct sort does. -/
theorem exists_sort_pair {cmp : α → α → Except ε Bool} {lt : α → α → Bool}
    (hcmp : ∀ a ∈ l, ∀ b ∈ l, cmp a b = .ok (lt a b)) (h : StrictWeakOrderOn (· ∈ l) lt) {a b : α}
    (ha : a ∈ l) (hb : b ∈ l) (hne : a ≠ b) (hlt : lt b a = false) :
    ∃ sort : Sorter ε α, CorrectSort sort ∧
      ∃ out, sort cmp l = .ok out ∧ List.Sublist [a, b] out := by
  have hswo : StrictWeakOrderOn (· ∈ l) (answer cmp) :=
    answer_strictWeakOrderOn (fun x y hx hy => answer_eq (hcmp x hx y hy)) h
  have hno : answer cmp b a = false := (answer_eq (hcmp b hb a ha)).trans hlt
  rcases pair_sublist_or ha hb hne with hab | hba
  · exact ⟨sortAfter id, sortAfter_correct List.Perm.refl, _, rfl,
      pair_sublist_mergeSortBy hswo hab hno⟩
  · refine ⟨sortAfter List.reverse, sortAfter_correct List.reverse_perm, _, rfl, ?_⟩
    have hrev : List.Sublist [a, b] l.reverse := by simpa using hba.reverse
    exact pair_sublist_mergeSortBy (hswo.mono fun x hx => List.mem_reverse.mp hx) hrev hno

end

end TurtleDb.Lib
