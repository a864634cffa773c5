import Mathlib.Data.List.Basic
import TurtleDb.Lib.Result

/-!
# Hash maps

What a hash map leaves to its implementation: where it finds a key, and in which order it is
iterated. `Correct` is its contract, which holds for keys whose equality is an equivalence and
agrees with their hash.
-/

namespace TurtleDb.Lib

variable {ε κ ν : Type}

/-- The elements are listed as they came in. `find` answers with an index. -/
structure UnorderedMap (ε κ ν : Type) where
  find : (κ → κ → Except ε Bool) → (κ → BitVec 64) → List (κ × ν) → κ → Except ε (Option Nat)
  order : List (κ × ν) → List (κ × ν)

/-- Among these keys `eq` decides `same`, an equivalence, and `hash` agrees with it. -/
structure EquivalenceOn (eq : κ → κ → Except ε Bool) (hash : κ → BitVec 64) (same : κ → κ → Prop)
    (keys : List κ) : Prop where
  decides : ∀ a ∈ keys, ∀ b ∈ keys, ∃ r, eq a b = .ok r ∧ (r = true ↔ same a b)
  refl : ∀ a ∈ keys, same a a
  symm : ∀ a ∈ keys, ∀ b ∈ keys, same a b → same b a
  trans : ∀ a ∈ keys, ∀ b ∈ keys, ∀ c ∈ keys, same a b → same b c → same a c
  hash : ∀ a ∈ keys, ∀ b ∈ keys, same a b → hash a = hash b

structure UnorderedMap.Correct (m : UnorderedMap ε κ ν) : Prop where
  order_perm : ∀ entries, (m.order entries).Perm entries
  find_cases : ∀ {eq hash same entries key},
    EquivalenceOn eq hash same (key :: entries.map Prod.fst) →
    (entries.map Prod.fst).Pairwise (fun a b => ¬ same a b) →
    (∃ i e, m.find eq hash entries key = .ok (some i) ∧ entries[i]? = some e ∧ same e.1 key) ∨
      (m.find eq hash entries key = .ok none ∧ ∀ e ∈ entries, ¬ same e.1 key)

/-! ## One implementation -/

/-- Elements with another hash are passed over, and the others compared one by one. -/
def scan (eq : κ → κ → Except ε Bool) (hash : κ → BitVec 64) (key : κ) :
    List (κ × ν) → Nat → Except ε (Option Nat)
  | [], _ => .ok none
  | e :: entries, i =>
      if hash e.1 = hash key then do
        let found ← eq e.1 key
        if found then return some i else scan eq hash key entries (i + 1)
      else scan eq hash key entries (i + 1)

def scanMap : UnorderedMap ε κ ν where
  find eq hash entries key := scan eq hash key entries 0
  order := id

theorem scan_cases {eq : κ → κ → Except ε Bool} {hash : κ → BitVec 64} {same : κ → κ → Prop}
    {key : κ} {entries : List (κ × ν)}
    (h : EquivalenceOn eq hash same (key :: entries.map Prod.fst)) (i : Nat) :
    (∃ j e, scan eq hash key entries i = .ok (some (i + j)) ∧ entries[j]? = some e ∧
        same e.1 key) ∨
      (scan eq hash key entries i = .ok none ∧ ∀ e ∈ entries, ¬ same e.1 key) := by
  induction entries generalizing i with
  | nil => exact .inr ⟨rfl, by simp⟩
  | cons d entries ih =>
      have hd : d.1 ∈ key :: (d :: entries).map Prod.fst := by simp
      have hkey : key ∈ key :: (d :: entries).map Prod.fst := List.mem_cons_self
      have hsub : ∀ a ∈ key :: entries.map Prod.fst, a ∈ key :: (d :: entries).map Prod.fst := by
        intro a ha
        rcases List.mem_cons.mp ha with rfl | ha
        · exact List.mem_cons_self
        · exact List.mem_cons_of_mem _ (List.mem_cons_of_mem _ ha)
      have hrest : EquivalenceOn eq hash same (key :: entries.map Prod.fst) :=
        ⟨fun a ha b hb => h.decides a (hsub a ha) b (hsub b hb), fun a ha => h.refl a (hsub a ha),
          fun a ha b hb => h.symm a (hsub a ha) b (hsub b hb),
          fun a ha b hb c hc => h.trans a (hsub a ha) b (hsub b hb) c (hsub c hc),
          fun a ha b hb => h.hash a (hsub a ha) b (hsub b hb)⟩
      have hpassed : ∀ hne : ¬ same d.1 key,
          (∃ j e, scan eq hash key entries (i + 1) = .ok (some (i + j)) ∧
              (d :: entries)[j]? = some e ∧ same e.1 key) ∨
            (scan eq hash key entries (i + 1) = .ok none ∧
              ∀ e ∈ d :: entries, ¬ same e.1 key) := by
        intro hne
        rcases ih hrest (i + 1) with ⟨j, e, hscan, hj, hsame⟩ | ⟨hscan, hnone⟩
        · exact .inl ⟨j + 1, e, by rw [hscan]; congr 2; omega, hj, hsame⟩
        · refine .inr ⟨hscan, fun e he => ?_⟩
          rcases List.mem_cons.mp he with rfl | he
          · exact hne
          · exact hnone e he
      rw [scan]
      by_cases hh : hash d.1 = hash key
      · obtain ⟨r, hr, hsame⟩ := h.decides d.1 hd key hkey
        rw [if_pos hh, hr, ok_bind]
        cases r with
        | true => exact .inl ⟨0, d, rfl, rfl, hsame.mp rfl⟩
        | false => exact hpassed fun hs => Bool.false_ne_true (hsame.mpr hs)
      · rw [if_neg hh]
        exact hpassed fun hs => hh (h.hash d.1 hd key hkey hs)

theorem scanMap_correct : (scanMap : UnorderedMap ε κ ν).Correct where
  order_perm _ := .refl _
  find_cases {_ _ _ entries key} h _ := by
    rcases scan_cases h 0 with ⟨j, e, hscan, hj, hsame⟩ | hnone
    · exact .inl ⟨j, e, by rw [← Nat.zero_add j]; exact hscan, hj, hsame⟩
    · exact .inr hnone

end TurtleDb.Lib
