import TurtleDb.Execution.Pipeline

/-!
# Executors that were drained

What an executor was asked for and gave says what its child gave, what its expressions evaluated to
and which rows of an earlier batch it began with. One section for each executor.
-/

namespace TurtleDb.Execution

open TurtleDb.Lib TurtleDb.Buffer TurtleDb.Table TurtleDb.Datatype

/-! ## Row by row -/

/-- What is made of rows, one after the other, if nothing is raised. -/
def emits (f : Row → Except Fault (Option Row)) : List Row → Except Fault (List Row)
  | [] => .ok []
  | row :: rows => do
      let o ← f row
      let out ← emits f rows
      return o.toList ++ out

/-- What is made of one row, if nothing is raised. -/
def emitted (f : Row → Except Fault (Option Row)) (row : Row) : Option Row :=
  match f row with
  | .ok o => o
  | .error _ => none

section
variable {f : Row → Except Fault (Option Row)} {row : Row} {rows rows' out : List Row}
  {o : Option Row}

theorem emits_cons (h : f row = .ok o) (hrows : emits f rows = .ok out) :
    emits f (row :: rows) = .ok (o.toList ++ out) := by
  rw [emits, h, ok_bind, hrows]
  rfl

theorem emits_eq_ok : emits f rows = .ok out ↔
    (∀ row ∈ rows, f row = .ok (emitted f row)) ∧ out = rows.filterMap (emitted f) := by
  induction rows generalizing out with
  | nil =>
      rw [emits]
      simp [eq_comm]
  | cons row rows ih =>
      constructor
      · intro h
        rw [emits] at h
        obtain ⟨o, ho, h⟩ := bind_eq_ok.mp h
        obtain ⟨out', hout', h⟩ := bind_eq_ok.mp h
        cases h
        have hrow : emitted f row = o := by rw [emitted, ho]
        obtain ⟨hrows, rfl⟩ := ih.mp hout'
        refine ⟨List.forall_mem_cons.mpr ⟨hrow ▸ ho, hrows⟩, ?_⟩
        rw [List.filterMap_cons, hrow]
        cases o <;> rfl
      · rintro ⟨h, rfl⟩
        rw [List.forall_mem_cons] at h
        rw [emits_cons h.1 (ih.mpr ⟨h.2, rfl⟩), List.filterMap_cons]
        cases emitted f row <;> rfl

theorem emits_append : emits f (rows ++ rows') = .ok out ↔
    ∃ l l', emits f rows = .ok l ∧ emits f rows' = .ok l' ∧ out = l ++ l' := by
  simp only [emits_eq_ok, List.forall_mem_append, List.filterMap_append]
  constructor
  · rintro ⟨⟨h, h'⟩, rfl⟩
    exact ⟨_, _, ⟨h, rfl⟩, ⟨h', rfl⟩, rfl⟩
  · rintro ⟨_, _, ⟨h, rfl⟩, ⟨h', rfl⟩, rfl⟩
    exact ⟨⟨h, h'⟩, rfl⟩

end

/-! ## Filters and projections -/

section
open FilterExecutor (waiting start)

variable {σ : Type} {f : Row → Except Fault (Option Row)} {child : AbstractExecutor σ}
  {run : Nat → σ → List Row → Except Fault (Option (List Row) × FilterExecutor.State σ)}
  {next : AbstractExecutor (FilterExecutor.State σ)}

/-- What the loop over a new batch of the child has done: either all of the batch is in, or what is
behind the row that filled the batch is left. -/
def Filled (f : Row → Except Fault (Option Row)) (rows : List Row) (i : Nat) (batch : List Row) :
    List Row × Option Nat → Prop
  | (batch', none) => ∃ l, emits f rows = .ok l ∧ batch' = batch ++ l
  | (batch', some j) => ∃ taken left l, rows = taken ++ left ∧ taken ≠ [] ∧ j = i + taken.length ∧
      emits f taken = .ok l ∧ l ≠ [] ∧ batch' = batch ++ l

theorem Filled.cons {row : Row} {o : Option Row} {rows batch : List Row} {i : Nat}
    {r : List Row × Option Nat} (ho : f row = .ok o)
    (h : Filled f rows (i + 1) (batch ++ o.toList) r) : Filled f (row :: rows) i batch r := by
  obtain ⟨batch', full⟩ := r
  cases full with
  | none =>
      obtain ⟨l, hl, rfl⟩ := h
      exact ⟨_, emits_cons ho hl, List.append_assoc ..⟩
  | some j =>
      obtain ⟨taken, left, l, rfl, -, rfl, hl, hne, rfl⟩ := h
      refine ⟨row :: taken, left, _, rfl, List.cons_ne_nil _ _, ?_, emits_cons ho hl, ?_,
        List.append_assoc ..⟩
      · rw [List.length_cons]
        omega
      · exact fun h0 => hne (List.append_eq_nil_iff.mp h0).2

theorem Filled.full {row row' : Row} {rows batch : List Row} {i : Nat}
    (h : f row = .ok (some row')) :
    Filled f (row :: rows) i batch (batch ++ [row'], some (i + 1)) :=
  ⟨[row], rows, [row'], rfl, List.cons_ne_nil _ _, rfl, emits_cons h rfl, List.cons_ne_nil _ _, rfl⟩

/-- What a call has done behind the rows that waited, which are in `batch`: it has looked at the
next rows of the child, and it answers `false` only when these are all. -/
def Took (f : Row → Except Fault (Option Row)) (child : AbstractExecutor σ)
    (run : σ → List Row → Except Fault (Option (List Row) × FilterExecutor.State σ)) : Prop :=
  ∀ c batch res s', run c batch = .ok (res, s') →
    ∃ seen l, emits f seen = .ok l ∧
      res = (if (batch ++ l).isEmpty then none else some (batch ++ l)) ∧
      (∀ rest, Exhausts child s'.child rest → Exhausts child c (seen ++ (waiting s' ++ rest))) ∧
      (res = none → waiting s' = [] ∧ Exhausts child c seen ∧
        ∃ c' m, 1 ≤ m ∧ child c' m = .ok (none, s'.child))

theorem Took.ne_nil {run : σ → List Row → Except Fault (Option (List Row) × FilterExecutor.State σ)}
    (htook : Took f child run) {c : σ} {batch b : List Row} {s' : FilterExecutor.State σ}
    (h : run c batch = .ok (some b, s')) : b ≠ [] := by
  obtain ⟨_, _, _, hres, _⟩ := htook _ _ _ _ h
  split at hres
  · cases hres
  · cases hres
    exact fun h0 => ‹¬ _› (List.isEmpty_iff.mpr h0)

theorem Took.of_end {c c' : σ} {n : Nat} {batch : List Row} (hchild : Orderly child) (hn : 1 ≤ n)
    (hend : child c n = .ok (none, c')) :
    ∃ seen l, emits f seen = .ok l ∧
      (if batch.isEmpty then none else some batch) =
        (if (batch ++ l).isEmpty then none else some (batch ++ l)) ∧
      (∀ rest, Exhausts child (start c').child rest →
        Exhausts child c (seen ++ (waiting (start c') ++ rest))) ∧
      ((if batch.isEmpty then none else some batch) = none → waiting (start c') = [] ∧
        Exhausts child c seen ∧ ∃ c'' m, 1 ≤ m ∧ child c'' m = .ok (none, (start c').child)) := by
  refine ⟨[], [], rfl, by rw [List.append_nil], fun rest hrest => ?_, fun _ => ?_⟩
  · rw [hchild.exhausts_nil hn hend hrest]
    exact .stop hn hend
  · exact ⟨rfl, .stop hn hend, c, n, hn, hend⟩

/-- A filter or a projection over its child. -/
structure Operates (f : Row → Except Fault (Option Row)) (child : AbstractExecutor σ)
    (run : Nat → σ → List Row → Except Fault (Option (List Row) × FilterExecutor.State σ))
    (next : AbstractExecutor (FilterExecutor.State σ)) : Prop where
  took : ∀ n, 1 ≤ n → Took f child (run n)
  next_ok : ∀ s n r, next s n = .ok r →
    ∃ w, emits f (waiting s) = .ok w ∧ run n s.child w = .ok r
  stop : ∀ c n r, (∀ b c', child c n = .ok (b, c') → b = none) → run n c [] = .ok r → r.1 = none
  preserves : ∀ (I : σ → Prop) c n batch r, (∀ c n b c', I c → child c n = .ok (b, c') → I c') →
    I c → run n c batch = .ok r → I r.2.child

namespace Operates

variable {s s' : FilterExecutor.State σ} {n : Nat} {out : List Row}

theorem exhausts_child (ho : Operates f child run next) (h : Exhausts next s out) :
    ∃ rest, Exhausts child s.child rest ∧ emits f (waiting s ++ rest) = .ok out := by
  induction h with
  | @stop s s' n hn h =>
      obtain ⟨w, hw, hrun⟩ := ho.next_ok s n _ h
      obtain ⟨seen, l, hl, hres, -, hend⟩ := ho.took n hn _ _ _ _ hrun
      refine ⟨seen, (hend rfl).2.1, emits_append.mpr ⟨w, l, hw, hl, ?_⟩⟩
      split at hres
      · exact (List.isEmpty_iff.mp ‹_›).symm
      · cases hres
  | @batch s s' n b out hn h _ ih =>
      obtain ⟨w, hw, hrun⟩ := ho.next_ok s n _ h
      obtain ⟨seen, l, hl, hres, hbehind, -⟩ := ho.took n hn _ _ _ _ hrun
      obtain ⟨rest, hrest, hout⟩ := ih
      refine ⟨_, hbehind rest hrest, ?_⟩
      rw [← List.append_assoc]
      refine emits_append.mpr ⟨w ++ l, out, emits_append.mpr ⟨w, l, hw, hl, rfl⟩, hout, ?_⟩
      split at hres
      · cases hres
      · cases hres
        rfl

theorem at_end (ho : Operates f child run next) (hn : 1 ≤ n) (h : next s n = .ok (none, s')) :
    waiting s' = [] ∧ ∃ c m, 1 ≤ m ∧ child c m = .ok (none, s'.child) := by
  obtain ⟨w, -, hrun⟩ := ho.next_ok _ _ _ h
  obtain ⟨_, _, _, _, _, hend⟩ := ho.took n hn _ _ _ _ hrun
  exact ⟨(hend rfl).1, (hend rfl).2.2⟩

theorem next_preserves (ho : Operates f child run next) {I : σ → Prop}
    (hI : ∀ c n b c', I c → child c n = .ok (b, c') → I c') (hs : I s.child)
    {batch : Option (List Row)} (h : next s n = .ok (batch, s')) : I s'.child := by
  obtain ⟨w, -, hrun⟩ := ho.next_ok _ _ _ h
  exact ho.preserves I _ _ _ _ hI hs hrun

theorem orderly (ho : Operates f child run next) (hchild : Orderly child) : Orderly next := by
  constructor
  · intro s n b s' hn h
    obtain ⟨w, -, hrun⟩ := ho.next_ok _ _ _ h
    exact (ho.took n hn).ne_nil hrun
  · intro s n s' m b s'' hn hend hm h
    obtain ⟨hwaiting, c, k, hk, hc⟩ := ho.at_end hn hend
    obtain ⟨w, hw, hrun⟩ := ho.next_ok _ _ _ h
    rw [hwaiting] at hw
    cases hw
    exact ho.stop _ _ _ (fun _ _ hb => hchild.sticky _ _ _ _ _ _ hk hc hm hb) hrun

end Operates

end

namespace FilterExecutor

variable {σ : Type} {filterExpr : Option (Tuple → Except Fault Value)} {child : AbstractExecutor σ}
  {fuel : Nat}

/-- The row, if it passes. -/
def pick (filterExpr : Option (Tuple → Except Fault Value)) (row : Row) :
    Except Fault (Option Row) := do
  let pass ← passes filterExpr row.1
  return if pass then some row else none

theorem pick_eq {row : Row} {pass : Bool} (h : passes filterExpr row.1 = .ok pass) :
    pick filterExpr row = .ok (if pass then some row else none) := by
  rw [pick, h]
  rfl

theorem drain_ok {rows batch out : List Row} (h : drain filterExpr rows batch = .ok out) :
    ∃ l, emits (pick filterExpr) rows = .ok l ∧ out = batch ++ l := by
  induction rows generalizing batch with
  | nil =>
      cases h
      exact ⟨[], rfl, (List.append_nil _).symm⟩
  | cons row rows ih =>
      rw [drain] at h
      obtain ⟨pass, hpass, h⟩ := bind_eq_ok.mp h
      obtain ⟨l, hl, rfl⟩ := ih h
      refine ⟨_, emits_cons (pick_eq hpass) hl, ?_⟩
      cases pass with
      | true => exact List.append_assoc ..
      | false => rfl

theorem filled_fill {batchSize i : Nat} {rows batch : List Row} {r : List Row × Option Nat}
    (h : fill filterExpr batchSize rows i batch = .ok r) :
    Filled (pick filterExpr) rows i batch r := by
  induction rows generalizing i batch with
  | nil =>
      cases h
      exact ⟨[], rfl, (List.append_nil _).symm⟩
  | cons row rows ih =>
      rw [fill] at h
      obtain ⟨pass, hpass, h⟩ := bind_eq_ok.mp h
      have hpick := pick_eq hpass
      cases pass with
      | true =>
          rw [if_pos rfl] at h hpick
          split at h
          · cases h
            exact .full hpick
          · exact .cons hpick (ih h)
      | false =>
          refine .cons hpick ?_
          rw [show (if false = true then some row else none) = none from rfl, Option.toList_none,
            List.append_nil]
          exact ih h

theorem took_loop (hchild : Orderly child) {batchSize : Nat} (hn : 1 ≤ batchSize) :
    Took (pick filterExpr) child (loop filterExpr child batchSize fuel) := by
  intro c batch res s' h
  induction fuel generalizing c batch with
  | zero => cases h
  | succ fuel ih =>
      rw [loop] at h
      obtain ⟨⟨status, c'⟩, hc, h⟩ := bind_eq_ok.mp h
      cases status with
      | none =>
          cases h
          exact Took.of_end hchild hn hc
      | some rows =>
          obtain ⟨⟨batch', full⟩, hfill, h⟩ := bind_eq_ok.mp h
          have hfilled := filled_fill hfill
          cases full with
          | none =>
              obtain ⟨l, hl, rfl⟩ := hfilled
              obtain ⟨seen, l', hl', hres, hbehind, hend⟩ := ih _ _ h
              refine ⟨rows ++ seen, l ++ l', emits_append.mpr ⟨l, l', hl, hl', rfl⟩, ?_,
                fun rest hrest => ?_, fun hnone => ?_⟩
              · rwa [← List.append_assoc]
              · rw [List.append_assoc]
                exact .batch hn hc (hbehind rest hrest)
              · obtain ⟨hw, hexhausts, hlast⟩ := hend hnone
                exact ⟨hw, .batch hn hc hexhausts, hlast⟩
          | some j =>
              obtain ⟨taken, left, l, rfl, htaken, rfl, hl, hne, rfl⟩ := hfilled
              cases h
              rw [Nat.zero_add]
              have hbatch : batch ++ l ≠ [] := fun h0 => hne (List.append_eq_nil_iff.mp h0).2
              refine ⟨taken, l, hl, (if_neg fun h0 => hbatch (List.isEmpty_iff.mp h0)).symm,
                fun rest hrest => ?_, fun h0 => by cases h0⟩
              rw [waiting_full c' htaken left, ← List.append_assoc]
              exact .batch hn hc hrest

theorem next_ok {s : State σ} {batchSize : Nat} {r : Option (List Row) × State σ}
    (h : next filterExpr child fuel s batchSize = .ok r) :
    ∃ w, emits (pick filterExpr) (waiting s) = .ok w ∧
      loop filterExpr child batchSize fuel s.child w = .ok r := by
  rw [next] at h
  by_cases ho : s.childOffset ≠ 0
  · rw [if_pos ho] at h
    obtain ⟨batch, hdrain, h⟩ := bind_eq_ok.mp h
    obtain ⟨_, hw, rfl⟩ := drain_ok hdrain
    rw [waiting, if_pos ho]
    exact ⟨_, hw, h⟩
  · rw [if_neg ho, ok_bind] at h
    rw [waiting, if_neg ho]
    exact ⟨[], rfl, h⟩

theorem loop_preserves {I : σ → Prop} {batchSize : Nat}
    (hI : ∀ c n b c', I c → child c n = .ok (b, c') → I c') {c : σ} (hc : I c) {batch : List Row}
    {r : Option (List Row) × State σ} (h : loop filterExpr child batchSize fuel c batch = .ok r) :
    I r.2.child := by
  induction fuel generalizing c batch with
  | zero => cases h
  | succ fuel ih =>
      rw [loop] at h
      obtain ⟨⟨status, c'⟩, hchild, h⟩ := bind_eq_ok.mp h
      have hc' := hI _ _ _ _ hc hchild
      cases status with
      | none =>
          cases h
          exact hc'
      | some rows =>
          obtain ⟨⟨batch', full⟩, -, h⟩ := bind_eq_ok.mp h
          cases full with
          | none => exact ih hc' h
          | some j =>
              cases h
              exact hc'

theorem operates (hchild : Orderly child) :
    Operates (pick filterExpr) child (fun n => loop filterExpr child n fuel)
      (next filterExpr child fuel) where
  took _ hn := took_loop hchild hn
  next_ok _ _ _ := next_ok
  stop c n r hc h := by
    cases fuel with
    | zero => cases h
    | succ fuel =>
        simp only [loop] at h
        obtain ⟨⟨status, c'⟩, hstatus, h⟩ := bind_eq_ok.mp h
        cases hc _ _ hstatus
        cases h
        rfl
  preserves _ _ _ _ _ hI hc h := loop_preserves hI hc h

/-- Whether the row passes, if nothing is raised. -/
def keeps (filterExpr : Option (Tuple → Except Fault Value)) (row : Row) : Bool :=
  (emitted (pick filterExpr) row).isSome

theorem Passing.of_emits {R : σ → List Row → Prop} {s : State σ} {rest out : List Row}
    (hc : R s.child rest) (hfuel : rest.length < fuel)
    (h : emits (pick filterExpr) (waiting s ++ rest) = .ok out) :
    Passing filterExpr (keeps filterExpr) R fuel s out := by
  obtain ⟨hpick, rfl⟩ := emits_eq_ok.mp h
  have hpass : ∀ row ∈ waiting s ++ rest, passes filterExpr row.1 = .ok (keeps filterExpr row) ∧
      emitted (pick filterExpr) row = emit (keeps filterExpr) row := by
    intro row hrow
    obtain ⟨pass, hpass, ho⟩ := bind_eq_ok.mp (hpick row hrow)
    have hemitted := (Except.ok.inj ho).symm
    rw [emit, keeps, hemitted]
    cases pass with
    | true => exact ⟨hpass, rfl⟩
    | false => exact ⟨hpass, rfl⟩
  exact ⟨rest, ⟨hc, hfuel⟩, fun row hrow => (hpass row hrow).1,
    List.filterMap_congr fun row hrow => (hpass row hrow).2⟩

end FilterExecutor

namespace ProjectionExecutor

open FilterExecutor (waiting waiting_full)

variable {σ : Type} {plan : ProjectionPlanNode} {child : AbstractExecutor σ}

/-- The projected row. -/
def pick (plan : ProjectionPlanNode) (row : Row) : Except Fault (Option Row) := do
  let tuple ← project plan row.1
  return some (tuple, row.2)

theorem pick_eq {row : Row} {tuple : Tuple} (h : project plan row.1 = .ok tuple) :
    pick plan row = .ok (some (tuple, row.2)) := by
  rw [pick, h]
  rfl

theorem drain_ok {rows batch out : List Row} (h : drain plan rows batch = .ok out) :
    ∃ l, emits (pick plan) rows = .ok l ∧ out = batch ++ l := by
  induction rows generalizing batch with
  | nil =>
      cases h
      exact ⟨[], rfl, (List.append_nil _).symm⟩
  | cons row rows ih =>
      rw [drain] at h
      obtain ⟨tuple, htuple, h⟩ := bind_eq_ok.mp h
      obtain ⟨l, hl, rfl⟩ := ih h
      exact ⟨_, emits_cons (pick_eq htuple) hl, List.append_assoc ..⟩

theorem filled_fill {batchSize i : Nat} {rows batch : List Row} {r : List Row × Option Nat}
    (h : fill plan batchSize rows i batch = .ok r) : Filled (pick plan) rows i batch r := by
  induction rows generalizing i batch with
  | nil =>
      cases h
      exact ⟨[], rfl, (List.append_nil _).symm⟩
  | cons row rows ih =>
      rw [fill] at h
      obtain ⟨tuple, htuple, h⟩ := bind_eq_ok.mp h
      split at h
      · cases h
        exact .full (pick_eq htuple)
      · exact .cons (pick_eq htuple) (ih h)

theorem length_of_emits {rows l : List Row} (h : emits (pick plan) rows = .ok l) :
    l.length = rows.length := by
  induction rows generalizing l with
  | nil =>
      cases h
      rfl
  | cons row rows ih =>
      rw [emits] at h
      obtain ⟨o, ho, h⟩ := bind_eq_ok.mp h
      obtain ⟨out, hout, h⟩ := bind_eq_ok.mp h
      obtain ⟨tuple, -, ho⟩ := bind_eq_ok.mp ho
      cases ho
      cases h
      rw [List.length_append, ih hout, List.length_cons, Nat.add_comm]
      rfl

theorem took_advance (hchild : Orderly child) {batchSize : Nat} (hn : 1 ≤ batchSize) :
    Took (pick plan) child (advance plan child batchSize) := by
  intro c batch res s' h
  rw [advance] at h
  obtain ⟨⟨status, c'⟩, hc, h⟩ := bind_eq_ok.mp h
  cases status with
  | none =>
      cases h
      exact Took.of_end hchild hn hc
  | some rows =>
      obtain ⟨⟨batch', full⟩, hfill, h⟩ := bind_eq_ok.mp h
      have hfilled := filled_fill hfill
      cases full with
      | none =>
          obtain ⟨l, hl, rfl⟩ := hfilled
          cases h
          refine ⟨rows, l, hl, rfl, fun rest hrest => .batch hn hc hrest, fun hnone => ?_⟩
          -- the child's batch has a row, and every row is projected
          have hlen := length_of_emits hl
          split at hnone
          · have hnil := (List.append_eq_nil_iff.mp (List.isEmpty_iff.mp ‹_›)).2
            rw [hnil] at hlen
            exact absurd (List.length_eq_zero_iff.mp hlen.symm) (hchild.ne_nil _ _ _ _ hn hc)
          · cases hnone
      | some j =>
          obtain ⟨taken, left, l, rfl, htaken, rfl, hl, hne, rfl⟩ := hfilled
          cases h
          rw [Nat.zero_add]
          have hbatch : batch ++ l ≠ [] := fun h0 => hne (List.append_eq_nil_iff.mp h0).2
          refine ⟨taken, l, hl, (if_neg fun h0 => hbatch (List.isEmpty_iff.mp h0)).symm,
            fun rest hrest => ?_, fun h0 => by cases h0⟩
          rw [waiting_full c' htaken left, ← List.append_assoc]
          exact .batch hn hc hrest

theorem next_ok {s : State σ} {batchSize : Nat} {r : Option (List Row) × State σ}
    (h : next plan child s batchSize = .ok r) :
    ∃ w, emits (pick plan) (waiting s) = .ok w ∧ advance plan child batchSize s.child w = .ok r := by
  rw [next] at h
  by_cases ho : s.childOffset ≠ 0
  · rw [if_pos ho] at h
    obtain ⟨batch, hdrain, h⟩ := bind_eq_ok.mp h
    obtain ⟨_, hw, rfl⟩ := drain_ok hdrain
    rw [waiting, if_pos ho]
    exact ⟨_, hw, h⟩
  · rw [if_neg ho, ok_bind] at h
    rw [waiting, if_neg ho]
    exact ⟨[], rfl, h⟩

theorem advance_preserves {I : σ → Prop} {batchSize : Nat}
    (hI : ∀ c n b c', I c → child c n = .ok (b, c') → I c') {c : σ} (hc : I c) {batch : List Row}
    {r : Option (List Row) × State σ} (h : advance plan child batchSize c batch = .ok r) :
    I r.2.child := by
  rw [advance] at h
  obtain ⟨⟨status, c'⟩, hchild, h⟩ := bind_eq_ok.mp h
  have hc' := hI _ _ _ _ hc hchild
  cases status with
  | none =>
      cases h
      exact hc'
  | some rows =>
      obtain ⟨⟨batch', full⟩, -, h⟩ := bind_eq_ok.mp h
      cases full with
      | none =>
          cases h
          exact hc'
      | some j =>
          cases h
          exact hc'

theorem operates (hchild : Orderly child) :
    Operates (pick plan) child (advance plan child) (next plan child) where
  took _ hn := took_advance hchild hn
  next_ok _ _ _ := next_ok
  stop c n r hc h := by
    rw [advance] at h
    obtain ⟨⟨status, c'⟩, hstatus, h⟩ := bind_eq_ok.mp h
    cases hc _ _ hstatus
    cases h
    rfl
  preserves _ _ _ _ _ hI hc h := advance_preserves hI hc h

/-- What a tuple is projected to, if nothing is raised. -/
def image (plan : ProjectionPlanNode) (tuple : Tuple) : Tuple :=
  match project plan tuple with
  | .ok tuple' => tuple'
  | .error _ => tuple

theorem Projecting.of_emits {R : σ → List Row → Prop} {s : State σ} {rest out : List Row}
    (hc : R s.child rest) (h : emits (pick plan) (waiting s ++ rest) = .ok out) :
    Projecting plan (image plan) R s out := by
  obtain ⟨hpick, rfl⟩ := emits_eq_ok.mp h
  have himage : ∀ row ∈ waiting s ++ rest, project plan row.1 = .ok (image plan row.1) ∧
      emitted (pick plan) row = emit (image plan) row := by
    intro row hrow
    obtain ⟨tuple, htuple, ho⟩ := bind_eq_ok.mp (hpick row hrow)
    have himage : image plan row.1 = tuple := by rw [image, htuple]
    rw [← Except.ok.inj ho, himage]
    refine ⟨htuple, ?_⟩
    rw [emit, imageRow, himage]
  exact ⟨rest, hc, fun row hrow => (himage row hrow).1,
    List.filterMap_congr fun row hrow => (himage row hrow).2⟩

end ProjectionExecutor

/-! ## Values -/

namespace ValuesExecutor

variable {plan : ValuesPlanNode} {cursor cursor' n : Nat} {rows rest out : List Row}

/-- The rows from the cursor on. -/
def rowsFrom (plan : ValuesPlanNode) (cursor : Nat) : Except Fault (List Row) :=
  (plan.values.drop cursor).mapM (row plan)

theorem rowsFrom_of_none (h : plan.values[cursor]? = none) : rowsFrom plan cursor = .ok [] := by
  rw [rowsFrom, List.drop_eq_nil_of_le (List.getElem?_eq_none_iff.mp h)]
  rfl

theorem rowsFrom_of_some {rowExpr : List (Except Fault Value)}
    (h : plan.values[cursor]? = some rowExpr) :
    rowsFrom plan cursor = do
      let r ← row plan rowExpr
      let rows ← rowsFrom plan (cursor + 1)
      return r :: rows := by
  obtain ⟨hlt, rfl⟩ := List.getElem?_eq_some_iff.mp h
  rw [rowsFrom, List.drop_eq_getElem_cons hlt, List.mapM_cons]
  rfl

theorem rowsFrom_of_fill (h : fill plan n cursor = .ok (rows, cursor'))
    (hrest : rowsFrom plan cursor' = .ok rest) : rowsFrom plan cursor = .ok (rows ++ rest) := by
  induction n generalizing cursor rows with
  | zero =>
      cases h
      exact hrest
  | succ n ih =>
      rw [fill] at h
      split at h
      · cases h
        exact hrest
      · obtain ⟨r, hr, h⟩ := bind_eq_ok.mp h
        obtain ⟨⟨rows', cursor''⟩, hfill, h⟩ := bind_eq_ok.mp h
        cases h
        rw [rowsFrom_of_some ‹_›, hr, ok_bind, ih hfill]
        rfl

theorem fill_of_rowsFrom (h : rowsFrom plan cursor = .ok out) :
    ∃ cursor', fill plan n cursor = .ok (out.take n, cursor') ∧
      rowsFrom plan cursor' = .ok (out.drop n) := by
  induction n generalizing cursor out with
  | zero => exact ⟨cursor, by rw [fill, List.take_zero], h⟩
  | succ n ih =>
      rw [fill]
      cases hrow : plan.values[cursor]? with
      | none =>
          rw [rowsFrom_of_none hrow] at h
          cases h
          exact ⟨cursor, rfl, rowsFrom_of_none hrow⟩
      | some rowExpr =>
          rw [rowsFrom_of_some hrow] at h
          obtain ⟨r, hr, h⟩ := bind_eq_ok.mp h
          obtain ⟨rows, hrows, h⟩ := bind_eq_ok.mp h
          cases h
          obtain ⟨cursor', hfill, hrest⟩ := ih hrows
          refine ⟨cursor', ?_, hrest⟩
          simp only [hr, hfill, ok_bind]
          rfl

theorem flows : Serves (next plan) fun cursor out => rowsFrom plan cursor = .ok out := by
  refine Flows.of_take fun cursor out n h _ => ?_
  obtain ⟨cursor', hfill, hrest⟩ := fill_of_rowsFrom (n := n) h
  refine ⟨cursor', ?_, hrest⟩
  rw [next, hfill]
  rfl

theorem rowsFrom_of_end (hn : 1 ≤ n) (h : next plan cursor n = .ok (none, cursor')) :
    cursor' = cursor ∧ plan.values[cursor]? = none := by
  obtain ⟨⟨rows, cursor''⟩, hfill, h⟩ := bind_eq_ok.mp h
  match n, hn with
  | n + 1, _ =>
    rw [fill] at hfill
    split at hfill
    · cases hfill
      cases h
      exact ⟨rfl, ‹_›⟩
    · obtain ⟨r, hr, hfill⟩ := bind_eq_ok.mp hfill
      obtain ⟨⟨rows', cursor₁⟩, -, hfill⟩ := bind_eq_ok.mp hfill
      cases hfill
      cases h

theorem rowsFrom_of_exhausts (h : Exhausts (next plan) cursor out) :
    rowsFrom plan cursor = .ok out := by
  induction h with
  | stop hn h => exact rowsFrom_of_none (rowsFrom_of_end hn h).2
  | batch hn h _ ih =>
      obtain ⟨⟨rows, cursor''⟩, hfill, h⟩ := bind_eq_ok.mp h
      dsimp only at h
      split at h
      · cases h
      · cases h
        exact rowsFrom_of_fill hfill ih

theorem orderly : Orderly (next plan) where
  ne_nil := by
    intro cursor n b cursor' hn h
    obtain ⟨⟨rows, cursor''⟩, hfill, h⟩ := bind_eq_ok.mp h
    dsimp only at h
    split at h
    · cases h
    · cases h
      exact fun h0 => ‹¬ _› (List.isEmpty_iff.mpr h0)
  sticky := by
    intro cursor n cursor' m b cursor'' hn h hm h'
    obtain ⟨rfl, hnone⟩ := rowsFrom_of_end hn h
    match m, hm with
    | m + 1, _ =>
      rw [next, fill, hnone] at h'
      cases h'
      rfl

end ValuesExecutor

/-! ## Scans -/

namespace SeqScanExecutor

variable {δ : Type} [PageDisk δ] {h : TableHeap} {b b' : BufferPoolManager δ}
  {it it' : TableIterator} {e : SeqScanExecutor} {rows rest out : List Row} {fuel n : Nat}

/-- The loop over the iterator, from here on, visits these rows. -/
def Visits (fuel : Nat) (h : TableHeap) (b : BufferPoolManager δ) (it : TableIterator)
    (out : List Row) : Prop :=
  ∃ steps b', h.visit fuel steps b it = .ok (out.map Prod.swap, b')

theorem Visits.finished (hfin : it.currentId = TableHeap.finish) : Visits fuel h b it [] :=
  ⟨1, b, by rw [TableHeap.visit, if_pos hfin]; rfl⟩

theorem Visits.step (hne : it.currentId ≠ TableHeap.finish)
    (hinc : it.increment fuel h b = .ok (it', b')) (hrest : Visits fuel h b' it' rest) :
    Visits fuel h b it ((it.currentTuple, it.currentId) :: rest) := by
  obtain ⟨steps, b'', hvisit⟩ := hrest
  refine ⟨steps + 1, b'', ?_⟩
  rw [TableHeap.visit, if_neg hne, hinc, ok_bind]
  dsimp only
  rw [hvisit]
  rfl

theorem Visits.cases (hv : Visits fuel h b it out) :
    it.currentId = TableHeap.finish ∧ out = [] ∨
      it.currentId ≠ TableHeap.finish ∧ ∃ it' b' rest,
        it.increment fuel h b = .ok (it', b') ∧ Visits fuel h b' it' rest ∧
          out = (it.currentTuple, it.currentId) :: rest := by
  obtain ⟨steps, b'', hvisit⟩ := hv
  cases steps with
  | zero => cases hvisit
  | succ steps =>
      rw [TableHeap.visit] at hvisit
      split at hvisit
      · refine .inl ⟨‹_›, ?_⟩
        have hout := congrArg Prod.fst (Except.ok.inj hvisit)
        exact List.map_eq_nil_iff.mp hout.symm
      · obtain ⟨⟨it', b'⟩, hinc, hvisit⟩ := bind_eq_ok.mp hvisit
        obtain ⟨⟨rest, b₁⟩, hrest, hvisit⟩ := bind_eq_ok.mp hvisit
        have hout := congrArg Prod.fst (Except.ok.inj hvisit)
        cases out with
        | nil => cases hout
        | cons row out =>
            obtain ⟨hrow, rfl⟩ := List.cons.inj hout
            refine .inr ⟨‹_›, it', b', out, hinc, ⟨steps, b₁, hrest⟩, ?_⟩
            rw [← Prod.swap_swap row, ← hrow]
            rfl

theorem Visits.unique (hv : Visits fuel h b it out) {fuel' : Nat} {out' : List Row}
    (hv' : Visits fuel' h b it out') : out = out' := by
  obtain ⟨steps, b₁, hvisit⟩ := hv
  obtain ⟨steps', b₂, hvisit'⟩ := hv'
  have hmax := TableHeap.visit_mono hvisit (Nat.le_max_left fuel fuel')
    (Nat.le_max_left steps steps')
  have hmax' := TableHeap.visit_mono hvisit' (Nat.le_max_right fuel fuel')
    (Nat.le_max_right steps steps')
  have hrows := congrArg Prod.fst (Except.ok.inj (hmax.symm.trans hmax'))
  exact List.map_injective_iff.mpr Prod.swap_injective hrows

theorem Visits.of_fill (hfill : fill fuel h n b it = .ok (rows, it', b'))
    (hrest : Visits fuel h b' it' rest) : Visits fuel h b it (rows ++ rest) := by
  induction n generalizing b it rows with
  | zero =>
      cases hfill
      exact hrest
  | succ n ih =>
      rw [fill] at hfill
      split at hfill
      · cases hfill
        exact hrest
      · obtain ⟨⟨it₁, b₁⟩, hinc, hfill⟩ := bind_eq_ok.mp hfill
        obtain ⟨⟨rows', it₂, b₂⟩, hrows, hfill⟩ := bind_eq_ok.mp hfill
        cases hfill
        exact .step ‹_› hinc (ih hrows)

theorem Visits.fill (hv : Visits fuel h b it out) (n : Nat) :
    ∃ it' b', SeqScanExecutor.fill fuel h n b it = .ok (out.take n, it', b') ∧
      Visits fuel h b' it' (out.drop n) := by
  induction n generalizing b it out with
  | zero => exact ⟨it, b, by rw [SeqScanExecutor.fill, List.take_zero], hv⟩
  | succ n ih =>
      rcases hv.cases with ⟨hfin, rfl⟩ | ⟨hne, it₁, b₁, rest, hinc, hrest, rfl⟩
      · exact ⟨it, b, by rw [SeqScanExecutor.fill, if_pos hfin]; rfl, hv⟩
      · obtain ⟨it', b', hfill, hbehind⟩ := ih hrest
        refine ⟨it', b', ?_, hbehind⟩
        rw [SeqScanExecutor.fill, if_neg hne, hinc, ok_bind]
        dsimp only
        rw [hfill]
        rfl

theorem flows_visits (fuel : Nat) :
    Serves (next fuel : AbstractExecutor (BufferPoolManager δ × SeqScanExecutor)) fun st out =>
      Visits fuel st.2.tableHeap st.1 st.2.iter out := by
  refine Flows.of_take fun st out n hv _ => ?_
  obtain ⟨b, e⟩ := st
  obtain ⟨it', b', hfill, hrest⟩ := hv.fill n
  refine ⟨(b', { e with iter := it' }), ?_, hrest⟩
  rw [next]
  dsimp only
  rw [hfill]
  rfl

theorem finished_of_end {st : BufferPoolManager δ × SeqScanExecutor} (hn : 1 ≤ n)
    (hnext : next fuel (b, e) n = .ok (none, st)) :
    st = (b, e) ∧ e.iter.currentId = TableHeap.finish := by
  obtain ⟨⟨rows, it', b'⟩, hfill, hr⟩ := bind_eq_ok.mp hnext
  match n, hn with
  | n + 1, _ =>
    rw [fill] at hfill
    split at hfill
    · cases hfill
      cases hr
      exact ⟨rfl, ‹_›⟩
    · obtain ⟨⟨it₁, b₁⟩, -, hfill⟩ := bind_eq_ok.mp hfill
      obtain ⟨⟨rows', it₂, b₂⟩, -, hfill⟩ := bind_eq_ok.mp hfill
      cases hfill
      cases hr

theorem Visits.of_exhausts {st : BufferPoolManager δ × SeqScanExecutor}
    (hx : Exhausts (next fuel) st out) : Visits fuel st.2.tableHeap st.1 st.2.iter out := by
  induction hx with
  | @stop st st' n hn hnext => exact .finished (finished_of_end hn hnext).2
  | @batch st st' n rows out hn hnext _ ih =>
      obtain ⟨⟨rows', it', b'⟩, hfill, hr⟩ := bind_eq_ok.mp hnext
      dsimp only at hr
      split at hr
      · cases hr
      · cases hr
        exact .of_fill hfill ih

/-- From `init` on, all rows of a scan are visited. -/
theorem scan_iff_visits : (∃ fuel b', h.scan fuel b = .ok (out.map Prod.swap, b')) ↔
    ∃ fuel it b₁, h.start fuel b = .ok (it, b₁) ∧ Visits fuel h b₁ it out := by
  constructor
  · rintro ⟨fuel, b', hscan⟩
    obtain ⟨⟨it, b₁⟩, hstart, hvisit⟩ := bind_eq_ok.mp hscan
    exact ⟨fuel, it, b₁, hstart, fuel, b', hvisit⟩
  · rintro ⟨fuel, it, b₁, hstart, steps, b', hvisit⟩
    refine ⟨max fuel steps, b', ?_⟩
    rw [TableHeap.scan, TableHeap.start_mono hstart (Nat.le_max_left ..), ok_bind]
    exact TableHeap.visit_mono hvisit (Nat.le_max_left ..) (Nat.le_max_right ..)

theorem orderly : Orderly (next fuel : AbstractExecutor (BufferPoolManager δ × SeqScanExecutor)) where
  ne_nil := by
    rintro ⟨b, e⟩ n rows st hn hnext
    obtain ⟨⟨rows', it', b'⟩, hfill, hr⟩ := bind_eq_ok.mp hnext
    dsimp only at hr
    split at hr
    · cases hr
    · cases hr
      exact fun h0 => ‹¬ _› (List.isEmpty_iff.mpr h0)
  sticky := by
    rintro ⟨b, e⟩ n st m rows st' hn hnext hm hnext'
    obtain ⟨rfl, hfin⟩ := finished_of_end hn hnext
    match m, hm with
    | m + 1, _ =>
      rw [next] at hnext'
      dsimp only at hnext'
      rw [fill, if_pos hfin] at hnext'
      cases hnext'
      rfl

end SeqScanExecutor

/-! ## Sorts -/

namespace SortExecutor

variable {σ : Type} {child : AbstractExecutor σ} {orderBys : List OrderBy} {c c' : σ}
  {entries es : List SortEntry} {fuel : Nat}

theorem collect_ok (h : collect child orderBys fuel c entries = .ok (es, c')) :
    ∃ rows new, Exhausts child c rows ∧ rows.mapM (entry orderBys) = .ok new ∧
      es = entries ++ new ∧ ∃ c₁, child c₁ 256 = .ok (none, c') := by
  induction fuel generalizing c entries with
  | zero => cases h
  | succ fuel ih =>
      rw [collect] at h
      obtain ⟨⟨status, c₁⟩, hc, h⟩ := bind_eq_ok.mp h
      cases status with
      | none =>
          cases h
          exact ⟨[], [], .stop (by decide) hc, rfl, (List.append_nil _).symm, c, hc⟩
      | some rows =>
          obtain ⟨new, hnew, h⟩ := bind_eq_ok.mp h
          obtain ⟨rows', new', hrows, hnew', rfl, hend⟩ := ih h
          refine ⟨rows ++ rows', new ++ new', .batch (by decide) hc hrows, ?_,
            List.append_assoc .., hend⟩
          rw [List.mapM_append, hnew, ok_bind, hnew']
          rfl

theorem collect_preserves {I : σ → Prop}
    (hI : ∀ c n b c', I c → child c n = .ok (b, c') → I c') (hc : I c)
    (h : collect child orderBys fuel c entries = .ok (es, c')) : I c' := by
  induction fuel generalizing c entries with
  | zero => cases h
  | succ fuel ih =>
      rw [collect] at h
      obtain ⟨⟨status, c₁⟩, hchild, h⟩ := bind_eq_ok.mp h
      have hc₁ := hI _ _ _ _ hc hchild
      cases status with
      | none =>
          cases h
          exact hc₁
      | some rows =>
          obtain ⟨new, -, h⟩ := bind_eq_ok.mp h
          exact ih hc₁ h

theorem collect_of_flows {fits : Nat → Nat → Prop} {R : σ → List Row → Prop} {rest : List Row}
    {new : List SortEntry} (hchild : Flows (1 ≤ ·) fits child R) (hc : R c rest)
    (hnew : rest.mapM (entry orderBys) = .ok new) (hfuel : rest.length < fuel) :
    ∃ c', collect child orderBys fuel c entries = .ok (entries ++ new, c') := by
  induction fuel generalizing c entries rest new with
  | zero => exact absurd hfuel (Nat.not_lt_zero _)
  | succ fuel ih =>
      obtain ⟨status, c₁, rest₁, hnext, hc₁, hstatus⟩ := hchild c rest 256 hc (by decide)
      rw [collect, hnext]
      cases status with
      | none =>
          obtain ⟨rfl, -⟩ := hstatus
          rw [List.mapM_nil] at hnew
          cases hnew
          exact ⟨c₁, by rw [List.append_nil]; rfl⟩
      | some rows =>
          obtain ⟨hne, -, rfl⟩ := hstatus
          have hpos := List.length_pos_of_ne_nil hne
          rw [List.length_append] at hfuel
          rw [List.mapM_append] at hnew
          obtain ⟨new₁, hnew₁, hnew⟩ := bind_eq_ok.mp hnew
          obtain ⟨new₂, hnew₂, hnew⟩ := bind_eq_ok.mp hnew
          cases hnew
          have hfuel' : rest₁.length < fuel := by omega
          obtain ⟨c', he⟩ : ∃ c', collect child orderBys fuel c₁ (entries ++ new₁) =
              .ok (entries ++ new₁ ++ new₂, c') := ih hc₁ hnew₂ hfuel'
          refine ⟨c', ?_⟩
          rw [List.append_assoc] at he
          simp only [ok_bind, hnew₁]
          exact he

end SortExecutor

end TurtleDb.Execution
