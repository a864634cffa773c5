import Mathlib.Data.List.Infix
import Mathlib.Data.List.Induction
import TurtleDb.Lib.Result

/-!
# Folding a list in parts

A list is cut into consecutive chunks, every chunk is folded from the initial state, and the states
are merged two at a time. `R xs s` says that the state `s` sums up the elements `xs`: if updates and
merges keep it, it does not matter how the list was cut or in which order the parts were merged.
-/

namespace TurtleDb.Lib

variable {ε α σ : Type}

/-- The chunks of a list and the order in which their states are merged. -/
inductive Chunks (α : Type) where
  | chunk (xs : List α)
  | join (left right : Chunks α)

namespace Chunks

def items : Chunks α → List α
  | chunk xs => xs
  | join left right => left.items ++ right.items

def summarise (fold : List α → Except ε σ) (merge : σ → σ → Except ε σ) :
    Chunks α → Except ε σ
  | chunk xs => fold xs
  | join left right => do
      let s ← left.summarise fold merge
      let t ← right.summarise fold merge
      merge s t

variable {update : σ → α → Except ε σ} {merge : σ → σ → Except ε σ} {init : σ}
  {R : List α → σ → Prop} {whole : List α}

/-- Only runs of consecutive elements of the list are ever summed up. -/
structure Sums (update : σ → α → Except ε σ) (merge : σ → σ → Except ε σ) (init : σ)
    (R : List α → σ → Prop) (whole : List α) : Prop where
  init : R [] init
  update : ∀ xs x s, xs ++ [x] <:+: whole → R xs s → ∃ s', update s x = .ok s' ∧ R (xs ++ [x]) s'
  merge : ∀ xs ys s t, xs ++ ys <:+: whole → R xs s → R ys t →
    ∃ u, merge s t = .ok u ∧ R (xs ++ ys) u

theorem Sums.fold (h : Sums update merge init R whole) {xs : List α} (hxs : xs <:+: whole) :
    ∃ s, xs.foldlM update init = .ok s ∧ R xs s := by
  induction xs using List.reverseRecOn with
  | nil => exact ⟨init, rfl, h.init⟩
  | append_singleton xs x ih =>
      obtain ⟨s, hs, hR⟩ := ih ((List.prefix_append xs [x]).isInfix.trans hxs)
      obtain ⟨s', hs', hR'⟩ := h.update xs x s hxs hR
      refine ⟨s', ?_, hR'⟩
      rw [List.foldlM_append, hs, ok_bind, List.foldlM_cons, hs']
      rfl

theorem Sums.summarise (h : Sums update merge init R whole) (tree : Chunks α)
    (htree : tree.items <:+: whole) :
    ∃ s, tree.summarise (fun xs => xs.foldlM update init) merge = .ok s ∧ R tree.items s := by
  induction tree with
  | chunk xs => exact h.fold htree
  | join left right ihl ihr =>
      obtain ⟨s, hs, hRs⟩ := ihl ((List.prefix_append _ _).isInfix.trans htree)
      obtain ⟨t, ht, hRt⟩ := ihr ((List.suffix_append _ _).isInfix.trans htree)
      obtain ⟨u, hu, hRu⟩ := h.merge _ _ s t htree hRs hRt
      exact ⟨u, by rw [Chunks.summarise, hs, ht, ok_bind, ok_bind, hu], hRu⟩

/-- A state to which nothing was added can be merged in on either side. -/
theorem Sums.merge_init (h : Sums update merge init R whole) {xs : List α} {s : σ}
    (hxs : xs <:+: whole) (hs : R xs s) :
    (∃ u, merge init s = .ok u ∧ R xs u) ∧ ∃ u, merge s init = .ok u ∧ R xs u := by
  constructor
  · exact h.merge [] xs init s hxs h.init hs
  · obtain ⟨u, hu, hR⟩ := h.merge xs [] s init ((List.append_nil xs).symm ▸ hxs) hs h.init
    exact ⟨u, hu, (List.append_nil xs) ▸ hR⟩

end Chunks

end TurtleDb.Lib
