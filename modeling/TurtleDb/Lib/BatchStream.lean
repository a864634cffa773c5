import Mathlib.Data.List.Basic
import TurtleDb.Lib.Result

/-!
# Streams read in batches

A batch source answers a request for up to `n` elements with a batch or, at its end, with `none`.
`Yields` says what a source gives when it is asked until its end, and `Delivers` is the contract of
a source whose state knows what is left.
-/

namespace TurtleDb.Lib

variable {ε σ α : Type}

/-- One request: the number of elements asked for. -/
abbrev BatchSource (ε σ α : Type) := σ → Nat → Except ε (Option (List α) × σ)

/-- Asked for `size 0`, `size 1`, … elements, the source answers with batches, none of them empty,
that are `out` one behind the other, and then with its end. -/
inductive Yields (next : BatchSource ε σ α) : (Nat → Nat) → σ → List α → Prop where
  | stop {size : Nat → Nat} {s s' : σ} (h : next s (size 0) = .ok (none, s')) :
      Yields next size s []
  | batch {size : Nat → Nat} {s s' : σ} {b out : List α}
      (h : next s (size 0) = .ok (some b, s')) (hb : b ≠ [])
      (hrest : Yields next (fun i => size (i + 1)) s' out) : Yields next size s (b ++ out)

/-- Every request for at least one element is answered with between one and so many of the elements
left, or with the end if none is left. -/
structure Delivers (next : BatchSource ε σ α) (rest : σ → List α) : Prop where
  some_of_ne : ∀ s n, 1 ≤ n → rest s ≠ [] → ∃ k s', 1 ≤ k ∧ k ≤ n ∧ k ≤ (rest s).length ∧
    next s n = .ok (some ((rest s).take k), s') ∧ rest s' = (rest s).drop k
  none_of_nil : ∀ s n, 1 ≤ n → rest s = [] → ∃ s', next s n = .ok (none, s') ∧ rest s' = []

namespace Delivers

variable {next : BatchSource ε σ α} {rest : σ → List α}

theorem of_some (h : Delivers next rest) {s s' : σ} {n : Nat} {b : List α} (hn : 1 ≤ n)
    (hb : next s n = .ok (some b, s')) :
    b ≠ [] ∧ b.length ≤ n ∧ rest s = b ++ rest s' := by
  by_cases hnil : rest s = []
  · obtain ⟨_, hnone, _⟩ := h.none_of_nil s n hn hnil
    cases hb.symm.trans hnone
  · obtain ⟨k, _, h1, hkn, hlen, hsome, hrest⟩ := h.some_of_ne s n hn hnil
    cases hb.symm.trans hsome
    refine ⟨?_, by rw [List.length_take]; omega, by rw [hrest, List.take_append_drop]⟩
    intro hempty
    have := congrArg List.length hempty
    rw [List.length_take, List.length_nil] at this
    omega

theorem of_none (h : Delivers next rest) {s s' : σ} {n : Nat} (hn : 1 ≤ n)
    (hb : next s n = .ok (none, s')) : rest s = [] := by
  by_contra hne
  obtain ⟨_, _, _, _, _, hsome, _⟩ := h.some_of_ne s n hn hne
  cases hb.symm.trans hsome

theorem next_ok (h : Delivers next rest) (s : σ) {n : Nat} (hn : 1 ≤ n) :
    ∃ b s', next s n = .ok (b, s') := by
  by_cases hnil : rest s = []
  · obtain ⟨s', hnone, _⟩ := h.none_of_nil s n hn hnil
    exact ⟨none, s', hnone⟩
  · obtain ⟨k, s', _, _, _, hsome, _⟩ := h.some_of_ne s n hn hnil
    exact ⟨some _, s', hsome⟩

end Delivers

/-! ## Sources in some of their states -/

section

variable {P : Nat → Prop} {fits : Nat → Nat → Prop} {next : BatchSource ε σ α}
  {R : σ → List α → Prop} {size : Nat → Nat} {s : σ} {l : List α}

/-- `R s l` says that `l` is left in state `s`. Every request of a size in `P` is answered with the
next elements, as many as `fits` allows, or with the end if there is none. -/
def Flows (P : Nat → Prop) (fits : Nat → Nat → Prop) (next : BatchSource ε σ α)
    (R : σ → List α → Prop) : Prop :=
  ∀ s l n, R s l → P n → ∃ b s' l', next s n = .ok (b, s') ∧ R s' l' ∧
    match b with
    | none => l = [] ∧ l' = []
    | some b => b ≠ [] ∧ fits n b.length ∧ l = b ++ l'

/-- The contract of a child: a batch has between one and so many elements as were asked for. -/
abbrev Serves (next : BatchSource ε σ α) (R : σ → List α → Prop) : Prop :=
  Flows (1 ≤ ·) (fun n k => k ≤ n) next R

theorem Flows.mono {P' : Nat → Prop} {fits' : Nat → Nat → Prop} (h : Flows P fits next R)
    (hP : ∀ n, P' n → P n) (hfits : ∀ n k, fits n k → fits' n k) : Flows P' fits' next R := by
  intro s l n hs hn
  obtain ⟨b, s', l', hnext, hs', hb⟩ := h s l n hs (hP n hn)
  refine ⟨b, s', l', hnext, hs', ?_⟩
  cases b with
  | none => exact hb
  | some b => exact ⟨hb.1, hfits n _ hb.2.1, hb.2.2⟩

theorem Flows.yields (h : Flows P fits next R) (hs : R s l) (hsize : ∀ i, P (size i)) :
    Yields next size s l := by
  induction hlen : l.length using Nat.strongRecOn generalizing s l size with
  | ind m ih =>
      obtain ⟨b, s', l', hnext, hs', hb⟩ := h s l (size 0) hs (hsize 0)
      cases b with
      | none =>
          rw [hb.1]
          exact .stop hnext
      | some b =>
          obtain ⟨hne, -, rfl⟩ := hb
          have hpos := List.length_pos_of_ne_nil hne
          rw [List.length_append] at hlen
          exact .batch hnext hne (ih l'.length (by omega) hs' (fun i => hsize (i + 1)) rfl)

theorem Delivers.serves {rest : σ → List α} (h : Delivers next rest) :
    Serves next fun s l => l = rest s := by
  rintro s _ n rfl hn
  by_cases hnil : rest s = []
  · obtain ⟨s', hnext, hrest⟩ := h.none_of_nil s n hn hnil
    exact ⟨none, s', [], hnext, hrest.symm, hnil, rfl⟩
  · obtain ⟨k, s', hk, hkn, hklen, hnext, hrest⟩ := h.some_of_ne s n hn hnil
    obtain ⟨hb, hlen, happ⟩ := h.of_some hn hnext
    exact ⟨some _, s', rest s', hnext, rfl, hb, hlen, happ⟩

/-- A source that keeps the contract yields all it has left. -/
theorem Delivers.yields {rest : σ → List α} (h : Delivers next rest) (hsize : ∀ i, 1 ≤ size i)
    (s : σ) : Yields next size s (rest s) := h.serves.yields rfl hsize

/-- A source that answers with as many elements as were asked for, while there are so many. -/
theorem Flows.of_take (h : ∀ s l n, R s l → 1 ≤ n → ∃ s',
      next s n = .ok (if (l.take n).isEmpty then none else some (l.take n), s') ∧
        R s' (l.drop n)) : Serves next R := by
  intro s l n hs hn
  obtain ⟨s', hnext, hs'⟩ := h s l n hs hn
  refine ⟨_, s', _, hnext, hs', ?_⟩
  cases l with
  | nil =>
      rw [List.take_nil, List.drop_nil]
      exact ⟨rfl, rfl⟩
  | cons a l =>
      have hlen : ((a :: l).take n).length = min n (l.length + 1) := List.length_take
      have hne : (a :: l).take n ≠ [] := by
        intro h0
        rw [h0, List.length_nil] at hlen
        omega
      rw [if_neg fun h0 => hne (List.isEmpty_iff.mp h0)]
      exact ⟨hne, by omega, (List.take_append_drop n (a :: l)).symm⟩

/-! ## Beside something else -/

/-- The source with something beside it, which stays as it is. -/
def beside {τ : Type} (next : BatchSource ε σ α) : BatchSource ε (τ × σ) α := fun (t, s) n => do
  let (b, s) ← next s n
  return (b, (t, s))

theorem Flows.beside {τ : Type} (h : Flows P fits next R) :
    Flows P fits (beside next : BatchSource ε (τ × σ) α) fun s l => R s.2 l := by
  rintro ⟨t, s⟩ l n hs hn
  obtain ⟨b, s', l', hnext, hs', hb⟩ := h s l n hs hn
  exact ⟨b, (t, s'), l', by rw [Lib.beside, hnext]; rfl, hs', hb⟩

/-! ## Any sizes -/

/-- Asked for one element or more, again and again, the source gives `out` and then its end. -/
inductive Exhausts (next : BatchSource ε σ α) : σ → List α → Prop where
  | stop {s s' : σ} {n : Nat} (hn : 1 ≤ n) (h : next s n = .ok (none, s')) : Exhausts next s []
  | batch {s s' : σ} {n : Nat} {b out : List α} (hn : 1 ≤ n) (h : next s n = .ok (some b, s'))
      (hrest : Exhausts next s' out) : Exhausts next s (b ++ out)

theorem Yields.exhausts (h : Yields next size s l) (hsize : ∀ i, 1 ≤ size i) :
    Exhausts next s l := by
  induction h with
  | stop h => exact .stop (hsize 0) h
  | batch h _ _ ih => exact .batch (hsize 0) h (ih fun i => hsize (i + 1))

theorem Exhausts.of_beside {τ : Type} {st : τ × σ}
    (h : Exhausts (beside next : BatchSource ε (τ × σ) α) st l) : Exhausts next st.2 l := by
  induction h with
  | stop hn h =>
      obtain ⟨⟨b, s'⟩, hs, hr⟩ := bind_eq_ok.mp h
      cases hr
      exact .stop hn hs
  | batch hn h _ ih =>
      obtain ⟨⟨b, s'⟩, hs, hr⟩ := bind_eq_ok.mp h
      cases hr
      exact .batch hn hs ih

/-- No batch is empty, and behind its end the source has no more elements. -/
structure Orderly (next : BatchSource ε σ α) : Prop where
  ne_nil : ∀ s n b s', 1 ≤ n → next s n = .ok (some b, s') → b ≠ []
  sticky : ∀ s n s' m b s'', 1 ≤ n → next s n = .ok (none, s') → 1 ≤ m →
    next s' m = .ok (b, s'') → b = none

theorem Orderly.exhausts_nil (h : Orderly next) {s' : σ} {n : Nat} (hn : 1 ≤ n)
    (hend : next s n = .ok (none, s')) (he : Exhausts next s' l) : l = [] := by
  cases he with
  | stop _ _ => rfl
  | batch hm hb _ => cases h.sticky _ _ _ _ _ _ hn hend hm hb

theorem Orderly.beside {τ : Type} (h : Orderly next) :
    Orderly (beside next : BatchSource ε (τ × σ) α) where
  ne_nil := by
    rintro ⟨t, s⟩ n b s' hn hnext
    obtain ⟨⟨b', s''⟩, hs, hr⟩ := bind_eq_ok.mp hnext
    cases hr
    exact h.ne_nil _ _ _ _ hn hs
  sticky := by
    rintro ⟨t, s⟩ n s' m b s'' hn hnext hm hnext'
    obtain ⟨⟨b₁, s₁⟩, hs₁, hr₁⟩ := bind_eq_ok.mp hnext
    cases hr₁
    obtain ⟨⟨b₂, s₂⟩, hs₂, hr₂⟩ := bind_eq_ok.mp hnext'
    cases hr₂
    exact h.sticky _ _ _ _ _ _ hn hs₁ hm hs₂

theorem Delivers.orderly {rest : σ → List α} (h : Delivers next rest) : Orderly next where
  ne_nil _ _ _ _ hn hb := (h.of_some hn hb).1
  sticky := by
    intro s n s' m b s'' hn hend hm hb
    obtain ⟨s₁, hend', hrest⟩ := h.none_of_nil s n hn (h.of_none hn hend)
    cases hend.symm.trans hend'
    obtain ⟨s₂, hb', -⟩ := h.none_of_nil s' m hm hrest
    cases hb.symm.trans hb'
    rfl

theorem Flows.exhausts_eq (h : Flows (1 ≤ ·) fits next R) (hs : R s l) {out : List α}
    (he : Exhausts next s out) : out = l := by
  induction he generalizing l with
  | stop hn hnext =>
      obtain ⟨b, s', l', hnext', _, hb⟩ := h _ _ _ hs hn
      cases hnext.symm.trans hnext'
      exact hb.1.symm
  | batch hn hnext _ ih =>
      obtain ⟨b, s', l', hnext', hs', hb⟩ := h _ _ _ hs hn
      cases hnext.symm.trans hnext'
      rw [ih hs', hb.2.2]

/-! ## All answers -/

/-- The first answers. -/
def answers (next : BatchSource ε σ α) :
    (Nat → Nat) → Nat → σ → Except ε (List (Option (List α)))
  | _, 0, _ => .ok []
  | size, n + 1, s => do
      let (b, s) ← next s (size 0)
      let bs ← answers next (fun i => size (i + 1)) n s
      return b :: bs

/-- The source answers with these batches, none of them empty, and then, however often it is asked,
with its end. -/
def Streams (next : BatchSource ε σ α) (size : Nat → Nat) (s : σ) (batches : List (List α)) :
    Prop :=
  (∀ b ∈ batches, b ≠ []) ∧
    ∀ n, answers next size n s =
      .ok ((batches.map some).take n ++ List.replicate (n - batches.length) none)

theorem Flows.answers_nil (h : Flows P fits next R) (hs : R s []) (hsize : ∀ i, P (size i))
    (n : Nat) : answers next size n s = .ok (List.replicate n none) := by
  induction n generalizing s size with
  | zero => rfl
  | succ n ih =>
      obtain ⟨b, s', l', hnext, hs', hb⟩ := h s [] (size 0) hs (hsize 0)
      cases b with
      | some b => exact absurd (List.append_eq_nil_iff.mp hb.2.2.symm).1 hb.1
      | none =>
          rw [hb.2] at hs'
          rw [answers, hnext]
          simp only [ok_bind, ih hs' fun i => hsize (i + 1)]
          rfl

/-- What is left comes in batches that fit, and then nothing more comes. -/
theorem Flows.streams (h : Flows P fits next R) (hs : R s l) (hsize : ∀ i, P (size i)) :
    ∃ batches, Streams next size s batches ∧ batches.flatten = l ∧
      ∀ b ∈ batches, ∃ i, fits (size i) b.length := by
  induction hlen : l.length using Nat.strongRecOn generalizing s l size with
  | ind m ih =>
      obtain ⟨b, s', l', hnext, hs', hb⟩ := h s l (size 0) hs (hsize 0)
      cases b with
      | none =>
          obtain ⟨rfl, rfl⟩ := hb
          refine ⟨[], ⟨by simp, fun n => ?_⟩, rfl, by simp⟩
          rw [h.answers_nil hs hsize n, List.map_nil, List.take_nil, List.nil_append]
          rfl
      | some b =>
          obtain ⟨hne, hfits, rfl⟩ := hb
          have hpos := List.length_pos_of_ne_nil hne
          rw [List.length_append] at hlen
          obtain ⟨bs, ⟨hbs, hanswers⟩, hflat, hfit⟩ :=
            ih l'.length (by omega) hs' (fun i => hsize (i + 1)) rfl
          refine ⟨b :: bs, ⟨?_, fun n => ?_⟩, by rw [List.flatten_cons, hflat], ?_⟩
          · exact List.forall_mem_cons.mpr ⟨hne, hbs⟩
          · cases n with
            | zero => simp [answers]
            | succ n =>
                rw [answers, hnext]
                simp only [ok_bind, hanswers n]
                simp
                rfl
          · refine List.forall_mem_cons.mpr ⟨⟨0, hfits⟩, fun b' hb' => ?_⟩
            obtain ⟨i, hi⟩ := hfit b' hb'
            exact ⟨i + 1, hi⟩

end

theorem Yields.unique {next : BatchSource ε σ α} {size : Nat → Nat} {s : σ} {out out' : List α}
    (h : Yields next size s out) (h' : Yields next size s out') : out = out' := by
  induction h generalizing out' with
  | stop h =>
      cases h' with
      | stop _ => rfl
      | batch h' _ _ => cases h.symm.trans h'
  | batch h _ _ ih =>
      cases h' with
      | stop h' => cases h.symm.trans h'
      | batch h' _ hrest =>
          cases h.symm.trans h'
          rw [ih hrest]

theorem Yields.next_of_nil {next : BatchSource ε σ α} {size : Nat → Nat} {s : σ}
    (h : Yields next size s []) : ∃ s', next s (size 0) = .ok (none, s') := by
  generalize hout : ([] : List α) = out at h
  cases h with
  | stop h => exact ⟨_, h⟩
  | batch _ hb _ => exact absurd (List.append_eq_nil_iff.mp hout.symm).1 hb

/-! ## A list as a source -/

/-- The source that hands out a list, as many elements as asked for. -/
def listSource : BatchSource ε (List α) α := fun l n =>
  .ok (if l.isEmpty then (none, []) else (some (l.take n), l.drop n))

theorem listSource_delivers : Delivers (listSource : BatchSource ε (List α) α) id := by
  constructor
  · intro l n hn hne
    have hlen : 0 < l.length := List.length_pos_of_ne_nil hne
    have hisEmpty : l.isEmpty = false := by simpa using hne
    refine ⟨min n l.length, l.drop n, by omega, by omega, Nat.min_le_right _ _, ?_, ?_⟩
    · simp only [listSource, hisEmpty, Bool.false_eq_true, if_false, id_eq, Except.ok.injEq,
        Prod.mk.injEq, Option.some.injEq, and_true]
      rcases Nat.le_total n l.length with h | h
      · rw [Nat.min_eq_left h]
      · rw [Nat.min_eq_right h, List.take_length, List.take_of_length_le h]
    · rcases Nat.le_total n l.length with h | h
      · rw [Nat.min_eq_left h]
        rfl
      · rw [Nat.min_eq_right h, id_eq, id_eq, List.drop_length, List.drop_of_length_le h]
  · intro l n _ hnil
    rw [id_eq] at hnil
    subst hnil
    exact ⟨[], rfl, rfl⟩

end TurtleDb.Lib
