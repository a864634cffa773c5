import TurtleDb.Lib.FullBatches

/-!
# Sources that agree

Two sources agree from the states that have an invariant, if one answers whatever the other answers,
and the invariant is kept. So do the loops that read them.
-/

namespace TurtleDb.Lib

variable {ε σ α β : Type}

/-- What `next` answers from a state with `I`, `next'` answers too. The state behind it has `I`, and
the elements have `Q`. -/
def SourcesAgree (I : σ → Prop) (Q : α → Prop) (next next' : BatchSource ε σ α) : Prop :=
  ∀ s n batch s', I s → next s n = .ok (batch, s') →
    next' s n = .ok (batch, s') ∧ I s' ∧ ∀ b, batch = some b → ∀ a ∈ b, Q a

namespace SourcesAgree

variable {I : σ → Prop} {Q : α → Prop} {next next' : BatchSource ε σ α}

theorem of_keeps (h : ∀ s n batch s', I s → next s n = .ok (batch, s') → I s') :
    SourcesAgree I (fun _ => True) next next :=
  fun s n batch s' hs hnext => ⟨hnext, h s n batch s' hs hnext, fun _ _ _ _ => trivial⟩

theorem beside {τ : Type} {I : τ → Prop} (next : BatchSource ε σ α) :
    SourcesAgree (fun s => I s.1) (fun _ => True) (beside next : BatchSource ε (τ × σ) α)
      (beside next) := by
  refine of_keeps ?_
  rintro ⟨t, s⟩ n batch s' ht hnext
  obtain ⟨⟨b, s₁⟩, _, hnext⟩ := bind_eq_ok.mp hnext
  cases hnext
  exact ht

theorem foldBatches (h : SourcesAgree I Q next next') {starved : ε} {n fuel fuel' : Nat}
    {body : β → List α → Except ε β} {s s' : σ} {acc out : β} (hs : I s) (hle : fuel ≤ fuel')
    (hrun : foldBatches starved n body next fuel s acc = .ok (out, s')) :
    Lib.foldBatches starved n body next' fuel' s acc = .ok (out, s') ∧ I s' := by
  induction fuel generalizing fuel' s acc with
  | zero => cases hrun
  | succ fuel ih =>
      match fuel', hle with
      | fuel' + 1, hle =>
        rw [Lib.foldBatches] at hrun ⊢
        obtain ⟨⟨batch, s₁⟩, hnext, hrun⟩ := bind_eq_ok.mp hrun
        obtain ⟨hnext', hs₁, _⟩ := h s n batch s₁ hs hnext
        rw [hnext', ok_bind]
        cases batch with
        | none =>
            cases hrun
            exact ⟨rfl, hs₁⟩
        | some b =>
            obtain ⟨acc', hbody, hrun⟩ := bind_eq_ok.mp hrun
            dsimp only
            rw [hbody, ok_bind]
            exact ih hs₁ (Nat.le_of_succ_le_succ hle) hrun

end SourcesAgree

end TurtleDb.Lib
