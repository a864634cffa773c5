import Mathlib.Data.List.Nodup
import Mathlib.Logic.Function.Basic
import Mathlib.Logic.Relation

/-!
# Linked lists by name

Nodes lie in a partial map from names to nodes, and a node gives the name of the one behind it. A
list is linked when the map leads through it up to the name that stands for no node. Such a list
runs into no cycle: no name occurs twice in it.
-/

namespace TurtleDb.Lib

variable {ι α : Type}

/-- Node `j` comes right behind node `i`. -/
def Linked.Next (node : ι → Option α) (next : α → ι) (nil i j : ι) : Prop :=
  j ≠ nil ∧ ∃ a, node i = some a ∧ next a = j

/-- From the name `i` on, the map `node` leads through the nodes of the list up to `nil`. -/
inductive Linked (node : ι → Option α) (next : α → ι) (nil : ι) : ι → List (ι × α) → Prop where
  | nil : Linked node next nil nil []
  | cons {i : ι} {a : α} {rest : List (ι × α)} (hne : i ≠ nil) (ha : node i = some a)
      (h : Linked node next nil (next a) rest) : Linked node next nil i ((i, a) :: rest)

namespace Linked

variable {node node' : ι → Option α} {next : α → ι} {nil i j m : ι} {a a' c : α}
  {l l' pre post : List (ι × α)}

theorem eq_nil (h : Linked node next nil nil l) : l = [] := by
  cases h with
  | nil => rfl
  | cons hne _ _ => exact absurd rfl hne

/-- The map determines the list. -/
theorem unique (h : Linked node next nil i l) (h' : Linked node next nil i l') : l = l' := by
  induction h generalizing l' with
  | nil => exact h'.eq_nil.symm
  | cons hne ha _ ih =>
      cases h' with
      | nil => exact absurd rfl hne
      | cons _ ha' h' =>
          cases ha.symm.trans ha'
          rw [ih h']

theorem suffix (h : Linked node next nil i (pre ++ l)) :
    ∃ j, Linked node next nil j l := by
  induction pre generalizing i with
  | nil => exact ⟨i, h⟩
  | cons x pre ih =>
      cases h with
      | cons _ _ h => exact ih h

theorem at_middle (h : Linked node next nil i (pre ++ (j, a) :: post)) :
    Linked node next nil j ((j, a) :: post) := by
  obtain ⟨k, hk⟩ := h.suffix
  cases hk with
  | cons hne ha hk => exact .cons hne ha hk

theorem node_eq (h : Linked node next nil i l) (hm : (j, a) ∈ l) : node j = some a ∧ j ≠ nil := by
  obtain ⟨pre, post, rfl⟩ := List.append_of_mem hm
  cases h.at_middle with
  | cons hne ha _ => exact ⟨ha, hne⟩

/-- No name occurs twice: the list behind its second place would be the one behind its first. -/
theorem nodup (h : Linked node next nil i l) : (l.map Prod.fst).Nodup := by
  induction h with
  | nil => exact List.nodup_nil
  | @cons i a rest hne ha h ih =>
      refine List.nodup_cons.mpr ⟨fun hmem => ?_, ih⟩
      obtain ⟨⟨j, b⟩, hm, rfl⟩ := List.mem_map.mp hmem
      obtain ⟨pre, post, rfl⟩ := List.append_of_mem hm
      have heq := (Linked.cons hne ha h).unique h.at_middle
      have := congrArg List.length heq
      simp at this
      omega

theorem congr (h : Linked node next nil i l) (hnode : ∀ x ∈ l, node' x.1 = node x.1) :
    Linked node' next nil i l := by
  induction h with
  | nil => exact .nil
  | cons hne ha _ ih =>
      refine .cons hne ((hnode _ List.mem_cons_self).trans ha) (ih fun x hx => ?_)
      exact hnode x (List.mem_cons_of_mem _ hx)

/-! ## Following the links -/

theorem next_middle (h : Linked node next nil i (pre ++ (j, a) :: (m, c) :: post)) :
    Next node next nil j m := by
  cases h.at_middle with
  | cons _ ha hrest =>
      generalize hm : next a = m' at hrest
      cases hrest with
      | cons hne _ _ => exact ⟨hne, a, ha, hm⟩

/-- The links lead from a node to every node behind it. -/
theorem reaches {pre mid post : List (ι × α)} {x y : ι × α}
    (h : Linked node next nil i (pre ++ x :: (mid ++ y :: post))) :
    Relation.TransGen (Next node next nil) x.1 y.1 := by
  induction mid generalizing pre x with
  | nil => exact .single h.next_middle
  | cons z mid ih =>
      have h' : Linked node next nil i ((pre ++ [x]) ++ z :: (mid ++ y :: post)) := by
        rwa [List.append_assoc]
      exact .head h.next_middle (ih h')

theorem next_mem (h : Linked node next nil i (pre ++ (j, a) :: post))
    (hn : Next node next nil j m) : m ∈ post.map Prod.fst := by
  obtain ⟨hne, b, hb, rfl⟩ := hn
  cases h.at_middle with
  | cons _ ha hrest =>
      cases ha.symm.trans hb
      cases hrest with
      | nil => exact absurd rfl hne
      | cons _ _ _ => exact List.mem_cons_self

/-- And to no other node. -/
theorem mem_of_reached (h : Linked node next nil i (pre ++ (j, a) :: post))
    (ht : Relation.TransGen (Next node next nil) j m) : m ∈ post.map Prod.fst := by
  induction ht with
  | single hn => exact h.next_mem hn
  | tail _ hn ih =>
      obtain ⟨⟨k, c⟩, hm, rfl⟩ := List.mem_map.mp ih
      obtain ⟨mid, post', rfl⟩ := List.append_of_mem hm
      rw [← List.cons_append, ← List.append_assoc] at h
      rw [List.map_append]
      exact List.mem_append_right _ (List.mem_cons_of_mem _ (h.next_mem hn))

theorem acyclic (h : Linked node next nil i l) (hj : j ∈ l.map Prod.fst) :
    ¬ Relation.TransGen (Next node next nil) j j := by
  intro ht
  obtain ⟨⟨j, a⟩, hm, rfl⟩ := List.mem_map.mp hj
  obtain ⟨pre, post, rfl⟩ := List.append_of_mem hm
  have hnodup := h.nodup
  rw [List.map_append, List.map_cons] at hnodup
  exact (List.nodup_cons.mp (List.nodup_append.mp hnodup).2.1).1 (h.mem_of_reached ht)

/-- The nodes are those that the links lead to from the first one. -/
theorem mem_iff_reached (h : Linked node next nil i l) (hne : i ≠ nil) :
    j ∈ l.map Prod.fst ↔ Relation.ReflTransGen (Next node next nil) i j := by
  cases h with
  | nil => exact absurd rfl hne
  | @cons _ a rest hne ha hrest =>
      have hfirst : Linked node next nil i ([] ++ (i, a) :: rest) := .cons hne ha hrest
      rw [Relation.reflTransGen_iff_eq_or_transGen]
      constructor
      · intro hj
        obtain ⟨y, hy, rfl⟩ := List.mem_map.mp hj
        rcases List.mem_cons.mp hy with rfl | hy
        · exact .inl rfl
        · obtain ⟨mid, post, rfl⟩ := List.append_of_mem hy
          exact .inr hfirst.reaches
      · rintro (rfl | ht)
        · exact List.mem_cons_self
        · exact List.mem_cons_of_mem _ (hfirst.mem_of_reached ht)

/-! ## Changing nodes -/

variable [DecidableEq ι]

/-- The list with the content of node `j` replaced. -/
theorem replace (h : Linked node next nil i (pre ++ (j, a) :: post)) (hnext : next a' = next a) :
    Linked (Function.update node j (some a')) next nil i (pre ++ (j, a') :: post) := by
  have hnodup := h.nodup
  induction pre generalizing i with
  | nil =>
      cases h with
      | cons hne ha h =>
          refine .cons hne (Function.update_self _ _ _) (hnext ▸ h.congr fun x hx => ?_)
          refine Function.update_of_ne (fun he => ?_) _ _
          exact (List.nodup_cons.mp hnodup).1 (List.mem_map.mpr ⟨x, hx, he⟩)
  | cons y pre ih =>
      cases h with
      | cons hne ha h =>
          obtain ⟨hnot, hnodup⟩ := List.nodup_cons.mp hnodup
          refine .cons hne ?_ (ih h hnodup)
          rw [Function.update_of_ne, ha]
          exact fun he => hnot (List.mem_map.mpr
            ⟨(j, a), List.mem_append_right pre List.mem_cons_self, he.symm⟩)

theorem snoc (h : Linked node next nil i (pre ++ [(j, a)])) (hm : m ∉ (pre ++ [(j, a)]).map Prod.fst)
    (hne : m ≠ nil) (hnext : next a' = m) (hlast : next c = nil) :
    Linked (Function.update (Function.update node j (some a')) m (some c)) next nil i
      (pre ++ [(j, a'), (m, c)]) := by
  have hnodup := h.nodup
  have hjm : j ≠ m := fun he => hm (he ▸ List.mem_map.mpr ⟨(j, a), by simp, rfl⟩)
  induction pre generalizing i with
  | nil =>
      cases h with
      | cons hnj _ _ =>
          refine .cons hnj (by rw [Function.update_of_ne hjm, Function.update_self]) ?_
          rw [hnext]
          refine .cons hne (Function.update_self _ _ _) ?_
          rw [hlast]
          exact .nil
  | cons y pre ih =>
      cases h with
      | cons hny ha h =>
          obtain ⟨hnot, hnodup⟩ := List.nodup_cons.mp hnodup
          have hm' : m ∉ (pre ++ [(j, a)]).map Prod.fst := fun hmem =>
            hm (List.mem_cons_of_mem _ hmem)
          refine .cons hny ?_ (ih h hm' hnodup)
          rw [Function.update_of_ne, Function.update_of_ne, ha]
          · exact fun he => hnot (List.mem_map.mpr
            ⟨(j, a), List.mem_append_right pre List.mem_cons_self, he.symm⟩)
          · rintro rfl
            exact hm List.mem_cons_self

end Linked

end TurtleDb.Lib
