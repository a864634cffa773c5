import Mathlib.Algebra.GroupWithZero.Nat
import Mathlib.Data.List.Basic
import Mathlib.Data.List.Nodup
import Mathlib.Data.List.Perm.Basic

/-!
# Tables with holes

A slot table is a finite map from positions to values. An insertion fills the first hole, or adds
a position at the end; an erased position becomes a hole; no entry ever moves.
-/

namespace TurtleDb.Lib

abbrev SlotTable (α : Type) := List (Option α)

namespace SlotTable

variable {α : Type}

def get (l : SlotTable α) (i : Nat) : Option α := l[i]?.join

/-- The first hole, if there is one. -/
def hole (l : SlotTable α) : Option Nat := (List.range l.length).find? fun i => (l.get i).isNone

/-- Where the next insertion goes. -/
def free (l : SlotTable α) : Nat := (hole l).getD l.length

def insert (l : SlotTable α) (a : α) : SlotTable α :=
  if l.free < l.length then l.set l.free (some a) else l ++ [some a]

def erase (l : SlotTable α) (i : Nat) : SlotTable α := l.set i none

/-- The entries at position `i` and above, in order. -/
def entriesFrom (l : SlotTable α) (i : Nat) : List (Nat × α) :=
  (List.range' i (l.length - i)).filterMap fun k => (l.get k).map (k, ·)

def entries (l : SlotTable α) : List (Nat × α) := l.entriesFrom 0

/-! ## Lookup -/

theorem get_eq_none_of_le {l : SlotTable α} {i : Nat} (h : l.length ≤ i) : l.get i = none := by
  simp [get, List.getElem?_eq_none h]

theorem lt_length_of_get {l : SlotTable α} {i : Nat} {a : α} (h : l.get i = some a) :
    i < l.length := by
  by_contra hi
  rw [get_eq_none_of_le (by omega)] at h
  exact absurd h (by simp)

theorem free_le (l : SlotTable α) : l.free ≤ l.length := by
  unfold free
  cases h : hole l with
  | none => exact Nat.le_refl _
  | some i =>
      have hi := List.mem_of_find?_eq_some h
      rw [List.mem_range] at hi
      exact Nat.le_of_lt hi

theorem get_free (l : SlotTable α) : l.get l.free = none := by
  unfold free
  cases h : hole l with
  | none => exact get_eq_none_of_le (Nat.le_refl _)
  | some i => simpa using List.find?_some h

/-- Either there is a hole, or there is none. -/
theorem free_lt_or_full (l : SlotTable α) :
    l.free < l.length ∨ l.countP Option.isSome = l.length := by
  unfold free
  cases h : hole l with
  | some i => exact .inl (List.mem_range.mp (List.mem_of_find?_eq_some h))
  | none =>
      right
      rw [List.countP_eq_length]
      intro o ho
      obtain ⟨i, hi, rfl⟩ := List.mem_iff_getElem.mp ho
      have hsome := List.find?_eq_none.mp h i (List.mem_range.mpr hi)
      simp only [get, List.getElem?_eq_getElem hi, Option.join_some] at hsome
      cases hget : l[i] with
      | none =>
          rw [hget] at hsome
          exact absurd rfl hsome
      | some a => rfl

theorem length_insert (l : SlotTable α) (a : α) :
    (l.insert a).length = max l.length (l.free + 1) := by
  have := free_le l
  unfold insert
  split
  · rw [List.length_set]
    omega
  · rw [List.length_append, List.length_singleton]
    omega

theorem get_insert (l : SlotTable α) (a : α) (i : Nat) :
    (l.insert a).get i = if i = l.free then some a else l.get i := by
  have hle := free_le l
  unfold insert get
  split
  next hlt =>
    rw [List.getElem?_set]
    by_cases h : l.free = i
    · simp [h, h ▸ hlt]
    · simp [h, Ne.symm h]
  next hge =>
    have hfree : l.free = l.length := by omega
    rw [hfree, List.getElem?_append]
    by_cases h : i < l.length
    · simp [h, Nat.ne_of_lt h]
    · by_cases h' : i = l.length
      · simp [h']
      · have hnone : l[i]? = none := List.getElem?_eq_none (by omega)
        have hone : ([some a] : List (Option α))[i - l.length]? = none :=
          List.getElem?_eq_none (by simp; omega)
        simp [h, h', hone]

theorem eq_of_get_replicate {n i : Nat} {a b : α} (h : get (List.replicate n (some a)) i = some b) :
    b = a := by
  have hlt := lt_length_of_get h
  rw [get, List.getElem?_eq_getElem hlt, List.getElem_replicate] at h
  exact (Option.some.inj h).symm

theorem erase_replicate (n m : Nat) (a : α) :
    erase (List.replicate n none ++ List.replicate (m + 1) (some a)) n =
      List.replicate (n + 1) none ++ List.replicate m (some a) := by
  have hset := List.set_append_right (s := List.replicate n (none : Option α))
    (t := List.replicate (m + 1) (some a)) (x := none) n (by simp)
  rw [List.length_replicate, Nat.sub_self, List.replicate_succ, List.set_cons_zero] at hset
  rw [erase, List.replicate_succ, hset, List.replicate_succ', List.append_assoc]
  rfl

theorem get_replicate {n i : Nat} (a : α) (h : i < n) :
    get (List.replicate n (some a)) i = some a := by
  have hlt : i < (List.replicate n (some a)).length := by rwa [List.length_replicate]
  rw [get, List.getElem?_eq_getElem hlt, List.getElem_replicate, Option.join_some]

theorem free_replicate (n : Nat) (a : α) : free (List.replicate n (some a)) = n := by
  have hle := free_le (List.replicate n (some a))
  rw [List.length_replicate] at hle
  refine Nat.le_antisymm hle (Nat.le_of_not_lt fun hlt => ?_)
  have hnone := get_free (List.replicate n (some a))
  rw [get_replicate a hlt] at hnone
  cases hnone

/-- A table without holes gets its next entry at the end. -/
theorem insert_replicate (n : Nat) (a : α) :
    insert (List.replicate n (some a)) a = List.replicate (n + 1) (some a) := by
  rw [insert, free_replicate, List.length_replicate, if_neg (Nat.lt_irrefl n),
    ← List.replicate_succ']

@[simp] theorem length_erase (l : SlotTable α) (i : Nat) : (l.erase i).length = l.length := by
  simp [erase]

theorem get_erase (l : SlotTable α) (s i : Nat) :
    (l.erase s).get i = if i = s then none else l.get i := by
  unfold erase get
  rw [List.getElem?_set]
  by_cases h : s = i
  · subst h
    by_cases hlt : s < l.length <;> simp [hlt]
  · simp [h, Ne.symm h]

theorem ext_get {l m : SlotTable α} (hlen : l.length = m.length) (h : ∀ i, l.get i = m.get i) :
    l = m := by
  apply List.ext_getElem hlen
  intro i hl hm
  have := h i
  simpa [get, hl, hm] using this

/-! ## Entries -/

theorem mem_entriesFrom {l : SlotTable α} {s i : Nat} {a : α} :
    (i, a) ∈ l.entriesFrom s ↔ s ≤ i ∧ l.get i = some a := by
  unfold entriesFrom
  simp only [List.mem_filterMap, List.mem_range'_1, Option.map_eq_some_iff, Prod.mk.injEq]
  constructor
  · rintro ⟨k, hk, b, hb, rfl, rfl⟩
    exact ⟨hk.1, hb⟩
  · rintro ⟨hs, ha⟩
    have := lt_length_of_get ha
    exact ⟨i, by omega, a, ha, rfl, rfl⟩

theorem mem_entries {l : SlotTable α} {i : Nat} {a : α} :
    (i, a) ∈ l.entries ↔ l.get i = some a := by
  simp [entries, mem_entriesFrom]

theorem entriesFrom_of_le {l : SlotTable α} {i : Nat} (h : l.length ≤ i) :
    l.entriesFrom i = [] := by
  rw [entriesFrom, Nat.sub_eq_zero_of_le h]
  rfl

/-- A scan reads the slot it stands at, then goes on behind it. -/
theorem entriesFrom_step (l : SlotTable α) {i : Nat} (h : i < l.length) :
    l.entriesFrom i =
      match l.get i with
      | some a => (i, a) :: l.entriesFrom (i + 1)
      | none => l.entriesFrom (i + 1) := by
  have hlen : l.length - i = (l.length - (i + 1)) + 1 := by omega
  unfold entriesFrom
  rw [hlen, List.range'_succ]
  cases hg : l.get i <;> simp [hg]

theorem pairwise_entriesFrom (l : SlotTable α) (i : Nat) :
    (l.entriesFrom i).Pairwise (fun x y => x.1 < y.1) := by
  unfold entriesFrom
  rw [List.pairwise_filterMap]
  refine List.Pairwise.imp ?_ (List.pairwise_lt_range' (s := i) (n := l.length - i))
  intro a b hab x hx y hy
  simp only [Option.map_eq_some_iff] at hx hy
  obtain ⟨_, _, rfl⟩ := hx
  obtain ⟨_, _, rfl⟩ := hy
  exact hab

theorem nodup_entriesFrom (l : SlotTable α) (i : Nat) : (l.entriesFrom i).Nodup :=
  (pairwise_entriesFrom l i).imp fun h heq => by rw [heq] at h; exact Nat.lt_irrefl _ h

/-- Entries in order of their positions are determined by which they are. -/
theorem eq_of_mem_iff {xs ys : List (Nat × α)} (hx : xs.Pairwise (fun x y => x.1 < y.1))
    (hy : ys.Pairwise (fun x y => x.1 < y.1)) (h : ∀ k a, (k, a) ∈ xs ↔ (k, a) ∈ ys) : xs = ys := by
  have hne : ∀ {x y : Nat × α}, x.1 < y.1 → x ≠ y := fun hlt heq => by
    rw [heq] at hlt
    exact Nat.lt_irrefl _ hlt
  have hperm : xs.Perm ys :=
    (List.perm_ext_iff_of_nodup (hx.imp hne) (hy.imp hne)).mpr fun ⟨k, a⟩ => h k a
  exact hperm.eq_of_pairwise (fun a b _ _ hab hba => absurd hab (Nat.lt_asymm hba)) hx hy

/-- An insertion adds its entry and no other, wherever the scan starts. -/
theorem entriesFrom_insert_perm (l : SlotTable α) (a : α) {i : Nat} (h : i ≤ l.free) :
    ((l.insert a).entriesFrom i).Perm ((l.free, a) :: l.entriesFrom i) := by
  rw [List.perm_ext_iff_of_nodup (nodup_entriesFrom _ _)]
  · rintro ⟨k, b⟩
    rw [List.mem_cons, mem_entriesFrom, mem_entriesFrom, get_insert]
    by_cases hk : k = l.free
    · subst hk
      simp [get_free, h, eq_comm]
    · simp [hk]
  · refine List.nodup_cons.mpr ⟨?_, nodup_entriesFrom _ _⟩
    rw [mem_entriesFrom, get_free]
    simp

theorem map_get_range (l : SlotTable α) : (List.range l.length).map l.get = l := by
  apply List.ext_getElem (by simp)
  intro i _ hi
  simp [get, hi]

theorem length_entries (l : SlotTable α) : l.entries.length = l.countP Option.isSome := by
  have hrange : List.range' 0 (l.length - 0) = List.range l.length := List.range_eq_range'.symm
  conv_rhs => rw [← map_get_range l]
  rw [entries, entriesFrom, hrange, List.length_filterMap_eq_countP, List.countP_map]
  apply List.countP_congr
  intro k _
  cases hk : l.get k <;> simp [hk]

theorem entries_erase (l : SlotTable α) (s : Nat) :
    (l.erase s).entries = l.entries.filter (fun x => x.1 ≠ s) := by
  refine eq_of_mem_iff (pairwise_entriesFrom _ _) ((pairwise_entriesFrom l 0).filter _) ?_
  intro k a
  rw [List.mem_filter, mem_entries, mem_entries, get_erase]
  by_cases hk : k = s <;> simp [hk]

end SlotTable

end TurtleDb.Lib
