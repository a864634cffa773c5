import TurtleDb.Execution.Modify
import TurtleDb.Execution.QueryPlan
import TurtleDb.Lib.Agreement

/-!
# More fuel

The loops of the executors are bounded by fuel here and by nothing in the source. An executor that
answers gives the same answer with more fuel, and keeps what its child keeps.
-/

namespace TurtleDb.Execution

open TurtleDb.Lib TurtleDb.Buffer TurtleDb.Table TurtleDb.Datatype

variable {σ : Type} {I : σ → Prop} {Q : Row → Prop} {child child' : AbstractExecutor σ}
  {n fuel fuel' : Nat} {rows batch out : List Row}

/-! ## Filters -/

namespace FilterExecutor

variable {filterExpr : Option (Tuple → Except Fault Value)}

theorem subset_append_cons {row : Row} : batch ++ rows ⊆ batch ++ row :: rows := fun _ hrow =>
  (List.mem_append.mp hrow).elim (List.mem_append_left _) fun hrow =>
    List.mem_append_right _ (List.mem_cons_of_mem _ hrow)

theorem drain_subset (h : drain filterExpr rows batch = .ok out) : out ⊆ batch ++ rows := by
  induction rows generalizing batch with
  | nil =>
      cases h
      exact List.subset_append_left _ _
  | cons row rows ih =>
      rw [drain] at h
      obtain ⟨pass, _, h⟩ := bind_eq_ok.mp h
      refine List.Subset.trans (ih h) ?_
      cases pass with
      | false => exact subset_append_cons
      | true => simp

theorem fill_subset {i : Nat} {full : Option Nat}
    (h : fill filterExpr n rows i batch = .ok (out, full)) : out ⊆ batch ++ rows := by
  induction rows generalizing i batch with
  | nil =>
      cases h
      exact List.subset_append_left _ _
  | cons row rows ih =>
      rw [fill] at h
      obtain ⟨pass, _, h⟩ := bind_eq_ok.mp h
      cases pass with
      | false =>
          rw [if_neg Bool.false_ne_true] at h
          exact List.Subset.trans (ih h) subset_append_cons
      | true =>
          rw [if_pos rfl] at h
          split at h
          · cases h
            simp
          · exact List.Subset.trans (ih h) (by simp)

/-- The child keeps `I`, and the rows that wait have `Q`. -/
def Kept (I : σ → Prop) (Q : Row → Prop) (s : State σ) : Prop :=
  I s.child ∧ ∀ row ∈ s.childRows, Q row

theorem agrees_loop (h : SourcesAgree I Q child child') {c : σ} (hc : I c)
    (hbatch : ∀ row ∈ batch, Q row) (hle : fuel ≤ fuel') {answer : Option (List Row)} {s' : State σ}
    (hrun : loop filterExpr child n fuel c batch = .ok (answer, s')) :
    loop filterExpr child' n fuel' c batch = .ok (answer, s') ∧ Kept I Q s' ∧
      ∀ b, answer = some b → ∀ row ∈ b, Q row := by
  induction fuel generalizing fuel' c batch with
  | zero => cases hrun
  | succ fuel ih =>
      match fuel', hle with
      | fuel' + 1, hle =>
        rw [loop] at hrun ⊢
        obtain ⟨⟨status, c₁⟩, hnext, hrun⟩ := bind_eq_ok.mp hrun
        obtain ⟨hnext', hc₁, hstatus⟩ := h c n status c₁ hc hnext
        rw [hnext', ok_bind]
        cases status with
        | none =>
            cases hrun
            refine ⟨rfl, ⟨hc₁, fun _ hrow => absurd hrow List.not_mem_nil⟩, fun b hb => ?_⟩
            split at hb
            · cases hb
            · cases hb
              exact hbatch
        | some rows =>
            have hrows := hstatus rows rfl
            obtain ⟨⟨batch', full⟩, hfill, hrun⟩ := bind_eq_ok.mp hrun
            have hbatch' : ∀ row ∈ batch', Q row := fun row hrow =>
              (List.mem_append.mp (fill_subset hfill hrow)).elim (hbatch row) (hrows row)
            dsimp only
            rw [hfill, ok_bind]
            cases full with
            | none => exact ih hc₁ hbatch' (Nat.le_of_succ_le_succ hle) hrun
            | some i =>
                cases hrun
                refine ⟨rfl, ⟨hc₁, hrows⟩, fun b hb => ?_⟩
                cases hb
                exact hbatch'

theorem agrees (h : SourcesAgree I Q child child') (hle : fuel ≤ fuel') :
    SourcesAgree (Kept I Q) Q (next filterExpr child fuel) (next filterExpr child' fuel') := by
  intro s n answer s' hs hrun
  rw [next] at hrun ⊢
  split at hrun
  · obtain ⟨waited, hwait, hrun⟩ := bind_eq_ok.mp hrun
    have hwaited : ∀ row ∈ waited, Q row := fun row hrow =>
      hs.2 row (List.mem_of_mem_drop (drain_subset hwait hrow))
    rw [if_pos ‹_›, hwait, ok_bind]
    exact agrees_loop h hs.1 hwaited hle hrun
  · rw [if_neg ‹_›]
    exact agrees_loop h hs.1 (fun _ hrow => absurd hrow List.not_mem_nil) hle hrun

end FilterExecutor

/-! ## Projections, LIMITs, sorts and aggregations -/

namespace ProjectionExecutor

theorem advance_agrees (plan : ProjectionPlanNode) (h : SourcesAgree I Q child child') {c : σ}
    (hc : I c) {answer : Option (List Row)} {s' : State σ}
    (hrun : advance plan child n c batch = .ok (answer, s')) :
    advance plan child' n c batch = .ok (answer, s') ∧ I s'.child := by
  rw [advance] at hrun ⊢
  obtain ⟨⟨status, c₁⟩, hnext, hrun⟩ := bind_eq_ok.mp hrun
  obtain ⟨hnext', hc₁, _⟩ := h c n status c₁ hc hnext
  rw [hnext', ok_bind]
  refine ⟨hrun, ?_⟩
  cases status with
  | none =>
      cases hrun
      exact hc₁
  | some rows =>
      obtain ⟨⟨batch, full⟩, _, hrun⟩ := bind_eq_ok.mp hrun
      cases full <;> cases hrun <;> exact hc₁

theorem agrees (plan : ProjectionPlanNode) (h : SourcesAgree I Q child child') :
    SourcesAgree (fun s : State σ => I s.child) (fun _ => True) (next plan child)
      (next plan child') := by
  intro s n answer s' hs hrun
  rw [next] at hrun ⊢
  split at hrun
  · obtain ⟨waited, hwait, hrun⟩ := bind_eq_ok.mp hrun
    rw [if_pos ‹_›, hwait, ok_bind]
    obtain ⟨hrun', hs'⟩ := advance_agrees plan h hs hrun
    exact ⟨hrun', hs', fun _ _ _ _ => trivial⟩
  · rw [if_neg ‹_›]
    obtain ⟨hrun', hs'⟩ := advance_agrees plan h hs hrun
    exact ⟨hrun', hs', fun _ _ _ _ => trivial⟩

end ProjectionExecutor

namespace LimitExecutor

theorem agrees (limit : Nat) (h : SourcesAgree I Q child child') :
    SourcesAgree (fun s : State σ => I s.child) (fun _ => True) (next child limit)
      (next child' limit) := by
  intro s n answer s' hs hrun
  rw [next] at hrun ⊢
  split at hrun
  · cases hrun
    rw [if_pos ‹_›]
    exact ⟨rfl, hs, fun _ _ _ _ => trivial⟩
  · rw [if_neg ‹_›]
    obtain ⟨⟨status, c⟩, hnext, hrun⟩ := bind_eq_ok.mp hrun
    obtain ⟨hnext', hc, _⟩ := h s.child n status c hs hnext
    dsimp only
    rw [hnext', ok_bind]
    refine ⟨hrun, ?_, fun _ _ _ _ => trivial⟩
    cases status with
    | none =>
        cases hrun
        exact hc
    | some rows =>
        obtain ⟨⟨batch, emitted⟩, _, hrun⟩ := bind_eq_ok.mp hrun
        cases hrun
        exact hc

end LimitExecutor

namespace SortExecutor

end SortExecutor

namespace AggregationExecutor

end AggregationExecutor

/-! ## INSERT, DELETE and UPDATE -/

namespace CountingExecutor

variable {call : σ → Row → Except Fault (Bool × σ)} {w w' : σ} {total total' : BitVec 64}

end CountingExecutor

namespace UpdateExecutor

theorem collect_eq (child : AbstractExecutor σ) (n fuel : Nat) (w : σ) (all : List Row) :
    collect child n fuel w all =
      foldBatches .outOfFuel n (fun all rows => .ok (all ++ rows)) child fuel w all := by
  induction fuel generalizing w all with
  | zero => rfl
  | succ fuel ih =>
      rw [collect, foldBatches]
      cases child w n with
      | error fault => rfl
      | ok r =>
          obtain ⟨_ | rows, w₁⟩ := r
          · rfl
          · exact ih w₁ (all ++ rows)

end UpdateExecutor

/-! ## Query plans -/

namespace QueryPlan

variable {δ φ : Type}

/-- The pool of the leaf. -/
def poolOf : (p : QueryPlan φ) → State δ p → BufferPoolManager δ
  | .values _, (b, _) => b
  | .seqScan _, (b, _) => b
  | .filter _ child, s => poolOf child s.child
  | .projection _ child, s => poolOf child s.child
  | .sort _ child, (c, _) => poolOf child c
  | .limit _ child, s => poolOf child s.child
  | .aggregation _ child, (c, _) => poolOf child c

/-- `J` holds of the pool and the scan of the leaf. -/
def AtLeaf (J : BufferPoolManager δ → Option SeqScanExecutor → Prop) :
    (p : QueryPlan φ) → State δ p → Prop
  | .values _, (b, _) => J b none
  | .seqScan _, (b, e) => J b e
  | .filter _ child, s => AtLeaf J child s.child
  | .projection _ child, s => AtLeaf J child s.child
  | .sort _ child, (c, _) => AtLeaf J child c
  | .limit _ child, s => AtLeaf J child s.child
  | .aggregation _ child, (c, _) => AtLeaf J child c

variable {J : BufferPoolManager δ → Option SeqScanExecutor → Prop} {b : BufferPoolManager δ}

theorem AtLeaf.poolOf {p : QueryPlan φ} {s : State δ p} (h : AtLeaf J p s) :
    ∃ e, J (poolOf p s) e := by
  induction p with
  | values _ => exact ⟨none, h⟩
  | seqScan _ => exact ⟨s.2, h⟩
  | filter _ _ ih => exact ih h
  | projection _ _ ih => exact ih h
  | sort _ _ ih => exact ih h
  | limit _ _ ih => exact ih h
  | aggregation _ _ ih => exact ih h

variable [PageDisk δ] [Aggregating φ] {catalog : Nat → Option TableHeap}
  {sort : Sorter Fault SortEntry} {rt : Runtime}

end QueryPlan

namespace SeqScanExecutor

variable {δ : Type} [PageDisk δ]

theorem init_mono {tableOid : Nat} {info : Option TableHeap} {b : BufferPoolManager δ}
    {r : SeqScanExecutor × BufferPoolManager δ} (hr : init fuel tableOid info b = .ok r)
    (hle : fuel ≤ fuel') : init fuel' tableOid info b = .ok r := by
  cases info with
  | none => cases hr
  | some h =>
      rw [init] at hr ⊢
      obtain ⟨⟨it, b'⟩, hstart, hr⟩ := bind_eq_ok.mp hr
      rw [TableHeap.start_mono hstart hle]
      exact hr

theorem next_mono {st : BufferPoolManager δ × SeqScanExecutor}
    {r : Option (List Row) × BufferPoolManager δ × SeqScanExecutor} (hr : next fuel st n = .ok r)
    (hle : fuel ≤ fuel') : next fuel' st n = .ok r := by
  obtain ⟨b, e⟩ := st
  rw [next] at hr ⊢
  obtain ⟨⟨rows, it, b'⟩, hfill, hr⟩ := bind_eq_ok.mp hr
  rw [fill_mono hfill hle]
  exact hr

end SeqScanExecutor

namespace QueryPlan

variable {δ φ : Type} [PageDisk δ] [Aggregating φ] {catalog : Nat → Option TableHeap}
  {sort : Sorter Fault SortEntry} {rt : Runtime} {b : BufferPoolManager δ}
  {J : BufferPoolManager δ → Option SeqScanExecutor → Prop}

end QueryPlan

end TurtleDb.Execution
