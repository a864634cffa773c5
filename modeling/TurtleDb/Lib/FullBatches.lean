import TurtleDb.Lib.BatchStream

/-!
# Full batches

A source that is always asked for the same number of elements gives so many, until fewer are left. A
source may also fail, if that is excused: without the excuse it keeps the contract, and with it, what
it gives is still right.
-/

namespace TurtleDb.Lib

variable {ε σ α β : Type}

theorem error_of_bind {x : Except ε α} {f : α → Except ε β} (h : ∃ e, x = .error e) :
    ∃ e, (x >>= f) = .error e := by
  obtain ⟨e, rfl⟩ := h
  exact ⟨e, rfl⟩

theorem error_of_bind_ok {x : Except ε α} {f : α → Except ε β} {a : α} (hx : x = .ok a)
    (h : ∃ e, f a = .error e) : ∃ e, (x >>= f) = .error e := by
  rw [hx]
  exact h

/-- How a source answers with these elements. -/
def batchOf (l : List α) : Option (List α) := if l.isEmpty then none else some l

theorem batchOf_of_ne {l : List α} (h : l ≠ []) : batchOf l = some l :=
  if_neg fun h0 => h (List.isEmpty_iff.mp h0)

theorem take_ne_nil {n : Nat} (hn : 1 ≤ n) (a : α) (l : List α) : (a :: l).take n ≠ [] := by
  intro hnil
  have := congrArg List.length hnil
  rw [List.length_take, List.length_cons, List.length_nil] at this
  omega

/-- Asked for `n` elements where `l` is left, the source gives the first `n` of them, or fails and is
excused. -/
def Full (n : Nat) (excuse : Prop) (next : BatchSource ε σ α) (R : σ → List α → Prop) : Prop :=
  ∀ s l, R s l → (∃ s', next s n = .ok (batchOf (l.take n), s') ∧ R s' (l.drop n)) ∨
    excuse ∧ ∃ e, next s n = .error e

namespace Full

variable {n : Nat} {excuse : Prop} {next : BatchSource ε σ α} {R : σ → List α → Prop} {s : σ}
  {l out : List α}

theorem mono (h : Full n excuse next R) {excuse' : Prop} (hexcuse : excuse → excuse') :
    Full n excuse' next R := by
  intro s l hs
  rcases h s l hs with hok | ⟨hex, herror⟩
  · exact .inl hok
  · exact .inr ⟨hexcuse hex, herror⟩

theorem beside {τ : Type} (h : Full n excuse next R) :
    Full n excuse (beside next : BatchSource ε (τ × σ) α) fun s l => R s.2 l := by
  rintro ⟨t, s⟩ l hs
  rcases h s l hs with ⟨s', hnext, hs'⟩ | ⟨hex, e, hnext⟩
  · exact .inl ⟨(t, s'), by rw [Lib.beside, hnext]; rfl, hs'⟩
  · exact .inr ⟨hex, e, by rw [Lib.beside, hnext]; rfl⟩

theorem yields (h : Full n excuse next R) (hn : 1 ≤ n) (hex : ¬ excuse) (hs : R s l) :
    Yields next (fun _ => n) s l := by
  induction hlen : l.length using Nat.strongRecOn generalizing s l with
  | ind m ih =>
      obtain ⟨s', hnext, hs'⟩ := (h s l hs).resolve_right fun herror => hex herror.1
      cases l with
      | nil =>
          rw [List.take_nil] at hnext
          exact .stop hnext
      | cons a l =>
          have htake := take_ne_nil hn a l
          rw [batchOf_of_ne htake] at hnext
          have hless : ((a :: l).drop n).length < m := by
            rw [List.length_drop, List.length_cons] at *
            omega
          have hrest : Yields next (fun _ => n) s ((a :: l).take n ++ (a :: l).drop n) :=
            .batch hnext htake (ih _ hless hs' rfl)
          rwa [List.take_append_drop] at hrest

end Full

/-- The elements are computed when they are asked for. -/
theorem mapM_split {f : α → Except ε β} {l : List α} {out : List β} (h : l.mapM f = .ok out)
    (n : Nat) : (l.take n).mapM f = .ok (out.take n) ∧ (l.drop n).mapM f = .ok (out.drop n) := by
  rw [← List.take_append_drop n l, List.mapM_append] at h
  obtain ⟨front, hfront, h⟩ := bind_eq_ok.mp h
  obtain ⟨back, hback, h⟩ := bind_eq_ok.mp h
  cases h
  have hlen := length_of_mapM hfront
  rw [List.length_take] at hlen
  rcases Nat.le_total n l.length with hle | hle
  · rw [Nat.min_eq_left hle] at hlen
    exact ⟨by rw [List.take_left' hlen]; exact hfront, by rw [List.drop_left' hlen]; exact hback⟩
  · rw [List.drop_of_length_le hle] at hback ⊢
    obtain rfl : back = [] := (Except.ok.inj hback).symm
    rw [Nat.min_eq_right hle] at hlen
    have hout : (front ++ ([] : List β)).length ≤ n := by
      rw [List.append_nil]
      omega
    rw [List.take_of_length_le hout, List.drop_of_length_le hout, List.append_nil]
    exact ⟨hfront, rfl⟩

/-! ## Reading to the end -/

/-- The loop that reads a source in batches of `n` until its end. -/
def foldBatches (starved : ε) (n : Nat) (body : β → List α → Except ε β)
    (next : BatchSource ε σ α) : Nat → σ → β → Except ε (β × σ)
  | 0, _, _ => .error starved
  | fuel + 1, s, acc => do
      let (batch, s) ← next s n
      match batch with
      | none => return (acc, s)
      | some b => do
          let acc ← body acc b
          foldBatches starved n body next fuel s acc

/-- It does with all batches what it would do with one. -/
theorem Full.foldBatches {n : Nat} {excuse : Prop} {next : BatchSource ε σ α}
    {R : σ → List α → Prop} {body : β → List α → Except ε β} {s : σ} {l : List α} {acc out : β}
    (h : Full n excuse next R) (hn : 1 ≤ n) (starved : ε) (fuel : Nat)
    (hnil : ∀ acc, body acc [] = .ok acc)
    (happ : ∀ acc l l', body acc (l ++ l') = body acc l >>= fun acc => body acc l')
    (hs : R s l) (hbody : body acc l = .ok out) :
    (∃ s', foldBatches starved n body next fuel s acc = .ok (out, s') ∧ R s' []) ∨
      (fuel ≤ l.length ∨ excuse) ∧ ∃ e, Lib.foldBatches starved n body next fuel s acc = .error e := by
  induction fuel generalizing s l acc with
  | zero => exact .inr ⟨.inl (Nat.zero_le _), starved, rfl⟩
  | succ fuel ih =>
      rw [Lib.foldBatches]
      rcases h s l hs with ⟨s', hnext, hs'⟩ | ⟨hex, e, hnext⟩
      · rw [hnext, ok_bind]
        cases l with
        | nil =>
            rw [hnil] at hbody
            cases hbody
            rw [List.take_nil, List.drop_nil] at *
            exact .inl ⟨s', rfl, hs'⟩
        | cons a l =>
            have htake := take_ne_nil hn a l
            rw [← List.take_append_drop n (a :: l), happ] at hbody
            obtain ⟨acc', hacc', hbody⟩ := bind_eq_ok.mp hbody
            rw [batchOf_of_ne htake]
            dsimp only
            rw [hacc', ok_bind]
            rcases ih hs' hbody with hok | ⟨hshort | hex, herror⟩
            · exact .inl hok
            · refine .inr ⟨.inl ?_, herror⟩
              rw [List.length_drop, List.length_cons] at *
              omega
            · exact .inr ⟨.inr hex, herror⟩
      · exact .inr ⟨.inr hex, e, by rw [hnext]; rfl⟩

end TurtleDb.Lib
