import TurtleDb.Execution.AbstractExecutor
import TurtleDb.Execution.Expressions

/-!
# Filter

`execution/executors/filter_executor.cpp`, over any child executor. When a batch is full, the rest
of the child's batch waits for the next call, which takes all of it that passes.
-/

namespace TurtleDb.Execution

open TurtleDb.Lib TurtleDb.Table TurtleDb.Datatype

namespace FilterExecutor

/-- `child_tuples_` and `child_rids_`, `child_offset_`, and the state of the child. -/
structure State (σ : Type) where
  child : σ
  childRows : List Row
  childOffset : Nat

variable {σ : Type}

/-- The lambda `passes`; without a predicate every tuple does. -/
def passes (filterExpr : Option (Tuple → Except Fault Value)) (tuple : Tuple) :
    Except Fault Bool :=
  match filterExpr with
  | none => .ok true
  | some evaluate => do
      let value ← evaluate tuple
      return !value.isNull && asBool value

variable (filterExpr : Option (Tuple → Except Fault Value))

/-- The loop over the rows that waited. -/
def drain : List Row → List Row → Except Fault (List Row)
  | [], batch => .ok batch
  | row :: rows, batch => do
      let pass ← passes filterExpr row.1
      drain rows (if pass then batch ++ [row] else batch)

/-- The loop over the child's new batch. It returns the batch and, if that is full, the index of the
row behind the last one taken. -/
def fill (batchSize : Nat) : List Row → Nat → List Row → Except Fault (List Row × Option Nat)
  | [], _, batch => .ok (batch, none)
  | row :: rows, i, batch => do
      let pass ← passes filterExpr row.1
      if pass then
        if (batch ++ [row]).length ≥ batchSize then return (batch ++ [row], some (i + 1))
        else fill batchSize rows (i + 1) (batch ++ [row])
      else fill batchSize rows (i + 1) batch

/-- The `while` of `next`, behind its first look at `child_offset_`. -/
def loop (child : AbstractExecutor σ) (batchSize : Nat) :
    Nat → σ → List Row → Except Fault (Option (List Row) × State σ)
  | 0, _, _ => .error .outOfFuel
  | fuel + 1, c, batch => do
      let (status, c) ← child c batchSize
      match status with
      | none =>
          let s := { child := c, childRows := [], childOffset := 0 }
          return (if batch.isEmpty then none else some batch, s)
      | some rows =>
          let (batch, full) ← fill filterExpr batchSize rows 0 batch
          match full with
          | some i =>
              let offset := if i < rows.length then i else 0
              return (some batch, { child := c, childRows := rows, childOffset := offset })
          | none => loop child batchSize fuel c batch

def next (child : AbstractExecutor σ) (fuel : Nat) : AbstractExecutor (State σ) :=
  fun s batchSize => do
    let batch ←
      if s.childOffset ≠ 0 then drain filterExpr (s.childRows.drop s.childOffset) [] else .ok []
    loop filterExpr child batchSize fuel s.child batch

/-- A filter that has not run yet. -/
def start (c : σ) : State σ := { child := c, childRows := [], childOffset := 0 }

/-! ## Rows that wait -/

/-- The rows that wait. -/
def waiting (s : State σ) : List Row :=
  if s.childOffset ≠ 0 then s.childRows.drop s.childOffset else []

theorem waiting_full (c : σ) {taken : List Row} (h : taken ≠ []) (left : List Row) :
    waiting ⟨c, taken ++ left,
      if taken.length < (taken ++ left).length then taken.length else 0⟩ = left := by
  have hlen : taken.length ≠ 0 := fun h0 => h (List.length_eq_zero_iff.mp h0)
  by_cases hlt : taken.length < (taken ++ left).length
  · rw [if_pos hlt, waiting, if_pos hlen, List.drop_left]
  · have h0 : left = [] := by
      rw [List.length_append] at hlt
      exact List.length_eq_zero_iff.mp (by omega)
    rw [if_neg hlt, waiting, if_neg (not_not.mpr rfl), h0]

section

variable {emit : Row → Option Row} {good : Row → Prop} {P : Nat → Prop}
  {fits : Nat → Nat → Prop} {R : σ → List Row → Prop} {n : Nat}
  {run : σ → List Row → Except Fault (Option (List Row) × State σ)}
  {next : AbstractExecutor (State σ)}

/-- What a call does behind the rows that waited, which are in `batch`: it looks at the next rows of
the child and adds what it emits for them, and without a row it has looked at all. In batches of the
size asked for, less than a batch waits. -/
def Takes (emit : Row → Option Row) (good : Row → Prop) (fits : Nat → Nat → Prop)
    (R : σ → List Row → Prop) (n : Nat)
    (run : σ → List Row → Except Fault (Option (List Row) × State σ)) : Prop :=
  ∀ c rest batch, R c rest → (∀ row ∈ rest, good row) →
    ∃ s' seen rest', rest = seen ++ (waiting s' ++ rest') ∧ R s'.child rest' ∧
      run c batch =
        .ok (if (batch ++ seen.filterMap emit).isEmpty then none
          else some (batch ++ seen.filterMap emit), s') ∧
      (batch ++ seen.filterMap emit = [] → waiting s' ++ rest' = []) ∧
      ((∀ k, fits n k → k ≤ n) → batch.length < n →
        (batch ++ seen.filterMap emit).length ≤ n ∧ (waiting s').length < n)

/-- What comes of the rows that wait and those the child has left. -/
def Ahead (emit : Row → Option Row) (good : Row → Prop) (R : σ → List Row → Prop) (s : State σ)
    (l : List Row) : Prop :=
  ∃ rest, R s.child rest ∧ (∀ row ∈ waiting s ++ rest, good row) ∧
    l = (waiting s ++ rest).filterMap emit

theorem Ahead.start {c : σ} {rest : List Row} (hc : R c rest) (h : ∀ row ∈ rest, good row) :
    Ahead emit good R (start c) (rest.filterMap emit) := ⟨rest, hc, h, rfl⟩

theorem Takes.next_eq (htakes : Takes emit good fits R n run)
    (hnext : ∀ s, (∀ row ∈ waiting s, good row) →
      next s n = run s.child ((waiting s).filterMap emit))
    {s : State σ} {l : List Row} (hs : Ahead emit good R s l) :
    ∃ b s' l', next s n = .ok (b, s') ∧ Ahead emit good R s' l' ∧
      (match b with
      | none => l = [] ∧ l' = []
      | some b => b ≠ [] ∧ l = b ++ l') ∧
      ((∀ k, fits n k → k ≤ n) → (waiting s).length < n →
        (∀ rows, b = some rows → rows.length ≤ n) ∧ (waiting s').length < n) := by
  obtain ⟨rest, hc, h, rfl⟩ := hs
  have hwaiting : ∀ row ∈ waiting s, good row := fun row hr => h row (List.mem_append_left _ hr)
  obtain ⟨s', seen, rest', rfl, hs', hrun, hnil, hbound⟩ :=
    htakes s.child rest ((waiting s).filterMap emit) hc
      fun row hr => h row (List.mem_append_right _ hr)
  have hless : ((waiting s).filterMap emit).length ≤ (waiting s).length :=
    List.length_filterMap_le ..
  refine ⟨_, s', _, (hnext s hwaiting).trans hrun, ⟨rest', hs', fun row hr => ?_, rfl⟩, ?_,
    fun hle hlt => ?_⟩
  · exact h row (List.mem_append_right _ (List.mem_append_right _ hr))
  · rw [List.filterMap_append, List.filterMap_append, ← List.append_assoc]
    by_cases hb : (waiting s).filterMap emit ++ seen.filterMap emit = []
    · rw [if_pos (List.isEmpty_iff.mpr hb), hb, hnil hb]
      exact ⟨rfl, rfl⟩
    · rw [if_neg (fun h0 => hb (List.isEmpty_iff.mp h0))]
      exact ⟨hb, rfl⟩
  · obtain ⟨hbatch, hwait⟩ := hbound hle (by omega)
    refine ⟨fun rows hrows => ?_, hwait⟩
    split at hrows
    · cases hrows
    · cases hrows
      exact hbatch

/-- Call after call, everything comes, in its order. -/
theorem Takes.flows {run : Nat → σ → List Row → Except Fault (Option (List Row) × State σ)}
    (htakes : ∀ n, P n → Takes emit good fits R n (run n))
    (hnext : ∀ s n, (∀ row ∈ waiting s, good row) →
      next s n = run n s.child ((waiting s).filterMap emit)) :
    Flows P (fun _ _ => True) next (Ahead emit good R) := by
  intro s l n hs hn
  obtain ⟨b, s', l', hcall, hs', hb, -⟩ := (htakes n hn).next_eq (fun s => hnext s n) hs
  refine ⟨b, s', l', hcall, hs', ?_⟩
  cases b with
  | none => exact hb
  | some b => exact ⟨hb.1, trivial, hb.2⟩

/-- Asked for batches of one size, the operator keeps to the size. -/
theorem Takes.flows_within (htakes : Takes emit good fits R n run)
    (hfits : ∀ k, fits n k → k ≤ n)
    (hnext : ∀ s, (∀ row ∈ waiting s, good row) →
      next s n = run s.child ((waiting s).filterMap emit)) :
    Flows (· = n) (fun n k => k ≤ n) next fun s l =>
      Ahead emit good R s l ∧ (waiting s).length < n := by
  rintro s l m ⟨hs, hlt⟩ rfl
  obtain ⟨b, s', l', hcall, hs', hb, hbound⟩ := htakes.next_eq hnext hs
  obtain ⟨hbatch, hwait⟩ := hbound hfits hlt
  refine ⟨b, s', l', hcall, ⟨hs', hwait⟩, ?_⟩
  cases b with
  | none => exact hb
  | some b => exact ⟨hb.1, hbatch b rfl, hb.2⟩

end

/-! ## One call -/

/-- What is emitted for a row. -/
def emit (keep : Row → Bool) (row : Row) : Option Row := if keep row then some row else none

/-- On these rows the predicate is evaluated without an exception, and `keep` is its outcome. -/
def Decides (keep : Row → Bool) (rows : List Row) : Prop :=
  ∀ row ∈ rows, passes filterExpr row.1 = .ok (keep row)

/-- `keep` holds of the rows on which the predicate has a value that is true and not NULL. Without a
predicate it holds of all. -/
def Selects (keep : Row → Bool) (rows : List Row) : Prop :=
  ∀ row ∈ rows, match filterExpr with
    | none => keep row = true
    | some evaluate => ∃ value, evaluate row.1 = .ok value ∧
        (keep row = true ↔ value.isNull = false ∧ asBool value = true)

variable {filterExpr} {keep : Row → Bool}

theorem Selects.decides {rows : List Row} (h : Selects filterExpr keep rows) :
    Decides filterExpr keep rows := by
  intro row hrow
  cases filterExpr with
  | none => exact congrArg Except.ok (h row hrow).symm
  | some evaluate =>
      obtain ⟨value, hvalue, hkeep⟩ := h row hrow
      rw [passes, hvalue, ok_bind]
      refine congrArg Except.ok (Bool.eq_iff_iff.mpr ?_)
      rw [hkeep, Bool.and_eq_true, Bool.not_eq_true']

theorem filterMap_emit (rows : List Row) : rows.filterMap (emit keep) = rows.filter keep := by
  rw [← List.filterMap_eq_filter]
  congr 1

theorem Decides.nil : Decides filterExpr keep [] := fun _ hr => absurd hr List.not_mem_nil

theorem Decides.tail {row : Row} {rows : List Row} (h : Decides filterExpr keep (row :: rows)) :
    Decides filterExpr keep rows := fun r hr => h r (List.mem_cons_of_mem _ hr)

theorem Decides.left {rows rows' : List Row} (h : Decides filterExpr keep (rows ++ rows')) :
    Decides filterExpr keep rows := fun r hr => h r (List.mem_append_left _ hr)

theorem Decides.right {rows rows' : List Row} (h : Decides filterExpr keep (rows ++ rows')) :
    Decides filterExpr keep rows' := fun r hr => h r (List.mem_append_right _ hr)

theorem drain_eq {rows : List Row} (h : Decides filterExpr keep rows) (batch : List Row) :
    drain filterExpr rows batch = .ok (batch ++ rows.filter keep) := by
  induction rows generalizing batch with
  | nil => simp [drain]
  | cons row rows ih =>
      rw [drain, h row List.mem_cons_self, ok_bind, ih h.tail]
      cases hk : keep row with
      | true => simp [hk]
      | false => simp [hk]

/-- The rows that pass go to the batch, up to the one that fills it. -/
theorem fill_eq {rows : List Row} (h : Decides filterExpr keep rows) (batchSize i : Nat)
    (batch : List Row) :
    (fill filterExpr batchSize rows i batch = .ok (batch ++ rows.filter keep, none) ∧
        (batch.length < batchSize → (batch ++ rows.filter keep).length < batchSize)) ∨
      ∃ taken left, rows = taken ++ left ∧ taken.filter keep ≠ [] ∧
        fill filterExpr batchSize rows i batch =
          .ok (batch ++ taken.filter keep, some (i + taken.length)) ∧
        (batch.length < batchSize → (batch ++ taken.filter keep).length ≤ batchSize) := by
  induction rows generalizing i batch with
  | nil => exact .inl (by simp [fill])
  | cons row rows ih =>
      rw [fill, h row List.mem_cons_self, ok_bind]
      cases hk : keep row with
      | false =>
          simp only [Bool.false_eq_true, if_false]
          rcases ih h.tail (i + 1) batch with hall | ⟨taken, left, rfl, hne, hfull, hlen⟩
          · exact .inl (by rwa [List.filter_cons_of_neg (by simp [hk])])
          · refine .inr ⟨row :: taken, left, rfl, ?_, ?_, ?_⟩
            · rwa [List.filter_cons_of_neg (by simp [hk])]
            · rw [hfull, List.filter_cons_of_neg (by simp [hk]), List.length_cons]
              congr 3
              omega
            · rwa [List.filter_cons_of_neg (by simp [hk])]
      | true =>
          simp only [if_true]
          by_cases hsize : (batch ++ [row]).length ≥ batchSize
          · rw [if_pos hsize]
            refine .inr ⟨[row], rows, rfl, by simp [hk], by simp [hk]; rfl, fun hlt => ?_⟩
            rw [List.filter_cons_of_pos hk, List.filter_nil, List.length_append]
            exact hlt
          · rw [if_neg hsize]
            have hcons : ∀ rest : List Row, batch ++ (row :: rest).filter keep =
                batch ++ [row] ++ rest.filter keep := by
              intro rest
              rw [List.filter_cons_of_pos hk, List.append_assoc]
              rfl
            rcases ih h.tail (i + 1) (batch ++ [row]) with
              ⟨hall, hlen⟩ | ⟨taken, left, rfl, -, hfull, hlen⟩
            · refine .inl ⟨by rw [hall, hcons], fun _ => ?_⟩
              rw [hcons]
              exact hlen (by omega)
            · refine .inr ⟨row :: taken, left, rfl, ?_, ?_, fun _ => ?_⟩
              · rw [List.filter_cons_of_pos hk]
                exact List.cons_ne_nil _ _
              · rw [hfull, hcons, List.length_cons]
                congr 3
                omega
              · rw [hcons]
                exact hlen (by omega)

section

variable {P : Nat → Prop} {fits : Nat → Nat → Prop} {child : AbstractExecutor σ}
  {R : σ → List Row → Prop} {batchSize fuel : Nat}

/-- The loop ends when it has fuel for all rows of the child. -/
theorem takes_loop (hchild : Flows P fits child R) (hsize : P batchSize) :
    Takes (emit keep) (fun row => passes filterExpr row.1 = .ok (keep row)) fits
      (fun c rest => R c rest ∧ rest.length < fuel) batchSize
      (loop filterExpr child batchSize fuel) := by
  rintro c rest batch ⟨hc, hfuel⟩ h
  simp only [filterMap_emit]
  induction fuel generalizing c rest batch with
  | zero => exact absurd hfuel (Nat.not_lt_zero _)
  | succ fuel ih =>
      obtain ⟨status, c', rest', hnext, hc', hstatus⟩ := hchild c rest batchSize hc hsize
      simp only [loop, hnext, ok_bind]
      cases status with
      | none =>
          obtain ⟨rfl, rfl⟩ := hstatus
          refine ⟨start c', [], [], rfl, ⟨hc', hfuel⟩, ?_, fun _ => rfl, fun _ hlt => ?_⟩
          · simp only [List.filter_nil, List.append_nil]
            rfl
          · rw [List.filter_nil, List.append_nil]
            exact ⟨Nat.le_of_lt hlt, Nat.lt_of_le_of_lt (Nat.zero_le _) hlt⟩
      | some rows =>
          obtain ⟨hne, hfit, rfl⟩ := hstatus
          have hpos : 0 < rows.length := List.length_pos_of_ne_nil hne
          rw [List.length_append] at hfuel
          have hdecides : Decides filterExpr keep (rows ++ rest') := h
          rcases fill_eq hdecides.left batchSize 0 batch with
            ⟨hall, hless⟩ | ⟨taken, left, rfl, htaken, hfull, hlen⟩
          · obtain ⟨s', seen, rest'', rfl, ⟨hs', hfuel'⟩, hloop, hnil, hbound⟩ :=
              ih c' _ (batch ++ rows.filter keep) hc' (by omega) hdecides.right
            have happ : batch ++ (rows ++ seen).filter keep =
                batch ++ rows.filter keep ++ seen.filter keep := by
              rw [List.filter_append, List.append_assoc]
            refine ⟨s', rows ++ seen, rest'', (List.append_assoc ..).symm, ⟨hs', by omega⟩,
              ?_, ?_, ?_⟩
            · simp only [hall, ok_bind]
              rw [happ]
              exact hloop
            · rwa [happ]
            · rw [happ]
              exact fun hle hlt => hbound hle (hless hlt)
          · have hbatch : batch ++ taken.filter keep ≠ [] := by simp [htaken]
            have htne : taken ≠ [] := by
              rintro rfl
              exact htaken rfl
            have hwait := waiting_full c' htne left
            refine ⟨_, taken, rest', ?_, ⟨hc', by omega⟩, by
              simp only [hfull, ok_bind, List.isEmpty_iff, hbatch, if_false, Nat.zero_add]
              rfl, fun hnil => absurd hnil hbatch, fun hle hlt => ⟨hlen hlt, ?_⟩⟩
            · rw [hwait, List.append_assoc]
            · have hrows := hle _ hfit
              have htaken' := List.length_pos_of_ne_nil htne
              rw [List.length_append] at hrows
              rw [hwait]
              omega

theorem next_eq {s : State σ} (h : Decides filterExpr keep (waiting s)) (batchSize : Nat) :
    next filterExpr child fuel s batchSize =
      loop filterExpr child batchSize fuel s.child ((waiting s).filterMap (emit keep)) := by
  rw [filterMap_emit]
  by_cases ho : s.childOffset ≠ 0
  · have hw : waiting s = s.childRows.drop s.childOffset := if_pos ho
    rw [hw] at h ⊢
    rw [next, if_pos ho, drain_eq h, ok_bind, List.nil_append]
  · have hw : waiting s = [] := if_neg ho
    rw [next, if_neg ho, ok_bind, hw, List.filter_nil]

/-! ## Every sequence of calls -/

/-- What comes of a filter in state `s`. -/
abbrev Passing (filterExpr : Option (Tuple → Except Fault Value)) (keep : Row → Bool)
    (R : σ → List Row → Prop) (fuel : Nat) : State σ → List Row → Prop :=
  Ahead (emit keep) (fun row => passes filterExpr row.1 = .ok (keep row))
    fun c rest => R c rest ∧ rest.length < fuel

theorem Passing.start {c : σ} {rest : List Row} (hc : R c rest) (hfuel : rest.length < fuel)
    (h : Decides filterExpr keep rest) :
    Passing filterExpr keep R fuel (start c) (rest.filter keep) := by
  rw [← filterMap_emit]
  exact Ahead.start ⟨hc, hfuel⟩ h

/-- A filter gives the rows of its child that pass, in their order, whatever the batch sizes. -/
theorem flows (hchild : Flows P fits child R) :
    Flows P (fun _ _ => True) (next filterExpr child fuel) (Passing filterExpr keep R fuel) :=
  Takes.flows (fun _ => takes_loop hchild) fun _ n h => next_eq h n

theorem flows_within (hchild : Serves child R) (hsize : 1 ≤ batchSize) :
    Flows (· = batchSize) (fun n k => k ≤ n) (next filterExpr child fuel) fun s l =>
      Passing filterExpr keep R fuel s l ∧ (waiting s).length < batchSize :=
  (takes_loop hchild hsize).flows_within (fun _ hk => hk) fun _ h => next_eq h _

end

end FilterExecutor

end TurtleDb.Execution
