import TurtleDb.Execution.AbstractExecutor

/-!
# LIMIT

`execution/executors/limit_executor.cpp`, over any child executor. The loop of `next` is bounded by
the rows it wants and not by the rows the child's batch has, so a short batch is indexed past its
end.
-/

namespace TurtleDb.Execution

open TurtleDb.Lib TurtleDb.Table

namespace LimitExecutor

/-- `emitted_count_`, and the state of the child. -/
structure State (σ : Type) where
  child : σ
  emittedCount : Nat

variable {σ : Type}

/-- The loop that moves rows of the child's batch to the output, while row `i` is below
`fetch_size` and the limit is not reached. -/
def emit (childBatch : List Row) (limit : Nat) :
    List Nat → List Row → Nat → Except Fault (List Row × Nat)
  | [], batch, emitted => .ok (batch, emitted)
  | i :: is, batch, emitted =>
      if emitted < limit then
        match childBatch[i]? with
        | none => .error .outOfBounds
        | some row => emit childBatch limit is (batch ++ [row]) (emitted + 1)
      else .ok (batch, emitted)

/-- The `while` around the child's `next` returns in its first iteration. -/
def next (child : AbstractExecutor σ) (limit : Nat) : AbstractExecutor (State σ) :=
  fun s batchSize =>
    if s.emittedCount > limit then .ok (none, s)
    else do
      let remaining := limit - s.emittedCount
      let fetchSize := min batchSize remaining
      let (status, c) ← child s.child batchSize
      match status with
      | none => return (none, { s with child := c })
      | some childBatch =>
          let (batch, emitted) ← emit childBatch limit (List.range fetchSize) [] s.emittedCount
          return (if batch.isEmpty then none else some batch, { child := c, emittedCount := emitted })

/-! ## The condition -/

/-- Until `remaining` rows are out, every batch of the child has as many rows as are wanted of it:
`batch_size`, or what remains if that is less. -/
inductive Ample (child : AbstractExecutor σ) : (Nat → Nat) → σ → Nat → Prop where
  | reached {size : Nat → Nat} {c : σ} : Ample child size c 0
  | exhausted {size : Nat → Nat} {c c' : σ} {remaining : Nat}
      (h : child c (size 0) = .ok (none, c')) : Ample child size c remaining
  | batch {size : Nat → Nat} {c c' : σ} {remaining : Nat} {b : List Row}
      (h : child c (size 0) = .ok (some b, c')) (hb : min (size 0) remaining ≤ b.length)
      (hrest : Ample child (fun i => size (i + 1)) c' (remaining - min (size 0) remaining)) :
      Ample child size c remaining

/-! ## One call -/

theorem emit_eq (childBatch : List Row) {limit : Nat} {batch : List Row} {i n emitted : Nat}
    (h : emitted + n ≤ limit) :
    emit childBatch limit (List.range' i n) batch emitted =
      if i + n ≤ childBatch.length ∨ n = 0 then
        .ok (batch ++ (childBatch.drop i).take n, emitted + n)
      else .error .outOfBounds := by
  induction n generalizing i batch emitted with
  | zero => simp [emit]
  | succ n ih =>
      have hlt : emitted < limit := by omega
      rw [List.range'_succ, emit, if_pos hlt]
      by_cases hi : i < childBatch.length
      · rw [List.getElem?_eq_getElem hi]
        simp only
        rw [ih (by omega)]
        have hdrop : (childBatch.drop i).take (n + 1) =
            childBatch[i] :: (childBatch.drop (i + 1)).take n := by
          rw [List.drop_eq_getElem_cons hi, List.take_succ_cons]
        by_cases hle : i + (n + 1) ≤ childBatch.length
        · rw [if_pos (by omega), if_pos (by omega), hdrop, List.append_assoc]
          simp only [List.singleton_append]
          congr 2
          omega
        · rw [if_neg (by omega), if_neg (by omega)]
      · rw [List.getElem?_eq_none (by omega), if_neg (by omega)]

section
variable {child : AbstractExecutor σ} {limit batchSize : Nat} {s : State σ}

theorem next_none (hle : s.emittedCount ≤ limit) {c : σ}
    (h : child s.child batchSize = .ok (none, c)) :
    next child limit s batchSize = .ok (none, { s with child := c }) := by
  rw [next, if_neg (by omega), h]
  rfl

theorem next_some (hle : s.emittedCount ≤ limit) {c : σ} {b : List Row}
    (h : child s.child batchSize = .ok (some b, c)) :
    next child limit s batchSize =
      if min batchSize (limit - s.emittedCount) ≤ b.length then
        .ok (if (b.take (min batchSize (limit - s.emittedCount))).isEmpty then none
          else some (b.take (min batchSize (limit - s.emittedCount))),
          ⟨c, s.emittedCount + min batchSize (limit - s.emittedCount)⟩)
      else .error .outOfBounds := by
  rw [next, if_neg (by omega)]
  simp only [h, ok_bind]
  rw [List.range_eq_range', emit_eq b (by omega), List.drop_zero, List.nil_append, Nat.zero_add]
  by_cases hb : min batchSize (limit - s.emittedCount) ≤ b.length
  · rw [if_pos (.inl hb), if_pos hb]
    rfl
  · rw [if_neg (by omega), if_neg hb]
    rfl

end

/-! ## Every sequence of calls -/

variable {child : AbstractExecutor σ} {rest : σ → List Row}

theorem ample_of_yields {limit : Nat} {size : Nat → Nat} {s : State σ} {out : List Row}
    (hchild : Delivers child rest) (hsize : ∀ i, 1 ≤ size i) (hle : s.emittedCount ≤ limit)
    (h : Yields (next child limit) size s out) :
    Ample child size s.child (limit - s.emittedCount) := by
  induction h with
  | @stop size s s' h =>
      obtain ⟨status, c, hc⟩ := hchild.next_ok s.child (hsize 0)
      cases status with
      | none => exact .exhausted hc
      | some b =>
          rw [next_some hle hc] at h
          split at h
          next hb =>
            obtain ⟨hne, _, _⟩ := hchild.of_some (hsize 0) hc
            have hempty : (b.take (min (size 0) (limit - s.emittedCount))).isEmpty := by
              by_contra hno
              simp only [hno, if_false] at h
              cases h
            rw [List.isEmpty_iff, List.take_eq_nil_iff] at hempty
            have hone := hsize 0
            have hzero : limit - s.emittedCount = 0 := by
              rcases hempty with h0 | h0
              · omega
              · exact absurd h0 hne
            rw [hzero]
            exact .reached
          next => cases h
  | @batch size s s' b' out h hb' _ ih =>
      obtain ⟨status, c, hc⟩ := hchild.next_ok s.child (hsize 0)
      cases status with
      | none =>
          rw [next_none hle hc] at h
          cases h
      | some b =>
          rw [next_some hle hc] at h
          split at h
          next hb =>
            have hs' : s' = ⟨c, s.emittedCount + min (size 0) (limit - s.emittedCount)⟩ :=
              (Prod.mk.inj (Except.ok.inj h)).2.symm
            subst hs'
            have hrest := ih (fun i => hsize (i + 1)) (by simp only; omega)
            simp only [Nat.sub_add_eq] at hrest
            exact .batch hc hb hrest
          next => cases h

theorem yields_of_ample {limit : Nat} {size : Nat → Nat} {c : σ} {remaining emitted : Nat}
    (hchild : Delivers child rest) (hsize : ∀ i, 1 ≤ size i) (hlimit : emitted + remaining = limit)
    (h : Ample child size c remaining) :
    Yields (next child limit) size ⟨c, emitted⟩ ((rest c).take remaining) := by
  induction h generalizing emitted with
  | @reached size c =>
      obtain ⟨status, c', hc⟩ := hchild.next_ok c (hsize 0)
      rw [List.take_zero]
      cases status with
      | none => exact .stop (next_none (s := ⟨c, emitted⟩) (show emitted ≤ limit by omega) hc)
      | some b =>
          have hstep := next_some (s := ⟨c, emitted⟩) (show emitted ≤ limit by omega) hc
          have hzero : limit - emitted = 0 := by omega
          simp only [hzero, Nat.min_zero, Nat.zero_le, if_true, List.take_zero,
            List.isEmpty_nil] at hstep
          exact .stop hstep
  | @exhausted size c c' remaining h =>
      rw [hchild.of_none (hsize 0) h, List.take_nil]
      exact .stop (next_none (s := ⟨c, emitted⟩) (show emitted ≤ limit by omega) h)
  | @batch size c c' remaining b h hb hrest ih =>
      obtain ⟨hne, hlen, happ⟩ := hchild.of_some (hsize 0) h
      by_cases hzero : remaining = 0
      · subst hzero
        have hstep := next_some (s := ⟨c, emitted⟩) (show emitted ≤ limit by omega) h
        have hzero : limit - emitted = 0 := by omega
        simp only [hzero, Nat.min_zero, Nat.zero_le, if_true, List.take_zero,
          List.isEmpty_nil] at hstep
        rw [List.take_zero]
        exact .stop hstep
      have hone := hsize 0
      have hrem : limit - emitted = remaining := by omega
      have hstep := next_some (s := ⟨c, emitted⟩) (show emitted ≤ limit by omega) h
      simp only [hrem, hb, if_true] at hstep
      have hbne : b.take (min (size 0) remaining) ≠ [] := by
        intro hnil
        rw [List.take_eq_nil_iff] at hnil
        rcases hnil with h0 | h0
        · omega
        · exact hne h0
      rw [if_neg (by simpa using hbne)] at hstep
      have htake : (rest c).take remaining =
          b.take (min (size 0) remaining) ++
            (rest c').take (remaining - min (size 0) remaining) := by
        rw [happ, List.take_append]
        rcases Nat.le_total (size 0) remaining with hle | hle
        · -- the child filled the batch
          have hfull : b.length = size 0 := by omega
          rw [Nat.min_eq_left hle, hfull, List.take_of_length_le (show b.length ≤ remaining by omega),
            List.take_of_length_le (show b.length ≤ size 0 by omega)]
        · -- the limit lies inside the batch
          rw [Nat.min_eq_right hle, Nat.sub_self, List.take_zero,
            show remaining - b.length = 0 by omega, List.take_zero]
      rw [htake]
      exact .batch hstep hbne (ih (fun i => hsize (i + 1)) (by omega))

/-- LIMIT gives the first `limit` rows of its child, whatever the batch sizes, exactly when no batch
of the child is shorter than what LIMIT wants of it. -/
theorem yields_take_iff (child : AbstractExecutor σ) (rest : σ → List Row)
    (hchild : Delivers child rest) (limit : Nat) (size : Nat → Nat) (hsize : ∀ i, 1 ≤ size i)
    (c : σ) :
    Yields (next child limit) size ⟨c, 0⟩ ((rest c).take limit) ↔ Ample child size c limit := by
  constructor
  · intro h
    have := ample_of_yields hchild hsize (Nat.zero_le limit) h
    simpa using this
  · exact yields_of_ample hchild hsize (Nat.zero_add limit)

/-- Rows with the slot numbers below `n`. -/
def numbered (n : Nat) : List Row := (List.range n).map fun i => (⟨[0], ⟨0, i⟩⟩, ⟨0, i⟩)

/-- Over five rows, `LIMIT 3` ends inside the second batch of two. `LIMIT 6` with batches of four
reads behind the second one. -/
theorem yields_take_iff_numbered :
    (Yields (next listSource 3) (fun _ => 2) ⟨numbered 5, 0⟩ (numbered 3) ∧
        Ample listSource (fun _ => 2) (numbered 5) 3) ∧
      ¬ Yields (next listSource 6) (fun _ => 4) ⟨numbered 5, 0⟩ (numbered 5) ∧
        ¬ Ample listSource (fun _ => 4) (numbered 5) 6 := by
  have hthree := yields_take_iff listSource id listSource_delivers 3 (fun _ => 2)
    (fun _ => by decide) (numbered 5)
  have hsix := yields_take_iff listSource id listSource_delivers 6 (fun _ => 4)
    (fun _ => by decide) (numbered 5)
  have hample : Ample listSource (fun _ => 2) (numbered 5) 3 :=
    .batch rfl (by decide) (.batch rfl (by decide) .reached)
  have hno : ¬ Ample listSource (fun _ => 4) (numbered 5) 6 := by
    intro h
    cases h with
    | exhausted h => cases h
    | batch h _ hrest =>
        cases h
        cases hrest with
        | exhausted h => cases h
        | batch h hb _ =>
            cases h
            exact absurd hb (by decide)
  exact ⟨⟨hthree.mpr hample, hample⟩, fun h => hno (hsix.mp h), hno⟩

/-- `LIMIT 2` over a single row, asked for a batch of 256 rows, reads a second row. -/
theorem next_outOfBounds :
    next listSource 2 ⟨[(⟨[1], ⟨0, 0⟩⟩, ⟨0, 0⟩)], 0⟩ 256 = .error .outOfBounds ∧
      ¬ Yields (next listSource 2) (fun _ => 256) ⟨[(⟨[1], ⟨0, 0⟩⟩, ⟨0, 0⟩)], 0⟩
        (List.take 2 [(⟨[1], ⟨0, 0⟩⟩, ⟨0, 0⟩)]) := by
  have hrun : next listSource 2 ⟨[(⟨[1], ⟨0, 0⟩⟩, ⟨0, 0⟩)], 0⟩ 256 = .error .outOfBounds := rfl
  refine ⟨hrun, ?_⟩
  intro h
  generalize List.take 2 _ = out at h
  cases h with
  | stop h => cases hrun.symm.trans h
  | batch h _ _ => cases hrun.symm.trans h

end LimitExecutor

end TurtleDb.Execution
