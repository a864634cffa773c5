import TurtleDb.Lib.Result

/-!
# Runs of a machine

A machine answers each input with an output and a next state, or fails. A run feeds it a list of
inputs; an invariant that every step keeps holds after every run.
-/

namespace TurtleDb.Lib

variable {ε σ ι ω : Type}

/-- The outputs and the last state of a run. A failing step ends the run with its failure. -/
def run (step : σ → ι → Except ε (ω × σ)) (s : σ) : List ι → Except ε (List ω × σ)
  | [] => .ok ([], s)
  | i :: is => do
      let (o, s) ← step s i
      let (os, s) ← run step s is
      return (o :: os, s)

variable {step : σ → ι → Except ε (ω × σ)}

theorem run_cons_eq_ok {s t : σ} {i : ι} {is : List ι} {os : List ω} :
    run step s (i :: is) = .ok (os, t) ↔
      ∃ o s' os', step s i = .ok (o, s') ∧ run step s' is = .ok (os', t) ∧ os = o :: os' := by
  rw [run, bind_eq_ok]
  constructor
  · rintro ⟨⟨o, s'⟩, hstep, hrest⟩
    obtain ⟨⟨os', t'⟩, hrun, heq⟩ := bind_eq_ok.mp hrest
    cases heq
    exact ⟨o, s', os', hstep, hrun, rfl⟩
  · rintro ⟨o, s', os', hstep, hrun, rfl⟩
    refine ⟨(o, s'), hstep, ?_⟩
    exact bind_eq_ok.mpr ⟨(os', t), hrun, rfl⟩

/-- A machine whose good inputs never fail in a good state never fails on good inputs. -/
theorem run_invariant {Inv : σ → Prop} {Good : ι → Prop}
    (hstep : ∀ s i, Inv s → Good i → ∃ o s', step s i = .ok (o, s') ∧ Inv s')
    {s : σ} (hs : Inv s) {is : List ι} (his : ∀ i ∈ is, Good i) :
    ∃ os t, run step s is = .ok (os, t) ∧ Inv t := by
  induction is generalizing s with
  | nil => exact ⟨[], s, rfl, hs⟩
  | cons i is ih =>
      obtain ⟨o, s', hi, hs'⟩ := hstep s i hs (his i (by simp))
      obtain ⟨os, t, hrun, ht⟩ := ih hs' fun j hj => his j (by simp [hj])
      exact ⟨o :: os, t, run_cons_eq_ok.mpr ⟨o, s', os, hi, hrun, rfl⟩, ht⟩

end TurtleDb.Lib
