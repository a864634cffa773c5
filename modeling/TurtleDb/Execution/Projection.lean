import TurtleDb.Execution.Filter

/-!
# Projection

`execution/executors/projection_executor.cpp`, over any child executor. It keeps the child's batch as
the filter does, but asks the child once in each call. Behind it stands what both operators have in
common: no row is lost or repeated.
-/

namespace TurtleDb.Execution

open TurtleDb.Lib TurtleDb.Table TurtleDb.Datatype

/-- The columns of the output, and what they evaluate to on a tuple of the child. -/
structure ProjectionPlanNode where
  outputSchema : ColumnSchema
  expressions : List (Tuple → Except Fault Value)

namespace ProjectionExecutor

/-- The members of a filter's state. -/
abbrev State (σ : Type) := FilterExecutor.State σ

variable {σ : Type} (plan : ProjectionPlanNode)

/-- The tuple that is made of a tuple of the child. -/
def project (tuple : Tuple) : Except Fault Tuple := do
  let values ← plan.expressions.mapM fun expr => expr tuple
  Tuple.make plan.outputSchema values

/-- The loop over the rows that waited. -/
def drain : List Row → List Row → Except Fault (List Row)
  | [], batch => .ok batch
  | row :: rows, batch => do
      let tuple ← project plan row.1
      drain rows (batch ++ [(tuple, row.2)])

/-- The loop over the child's new batch. It returns the batch and, if that is full, the index of the
row behind the last one taken. -/
def fill (batchSize : Nat) : List Row → Nat → List Row → Except Fault (List Row × Option Nat)
  | [], _, batch => .ok (batch, none)
  | row :: rows, i, batch => do
      let tuple ← project plan row.1
      if (batch ++ [(tuple, row.2)]).length ≥ batchSize then
        return (batch ++ [(tuple, row.2)], some (i + 1))
      else fill batchSize rows (i + 1) (batch ++ [(tuple, row.2)])

/-- `next`, behind its look at `child_offset_`. -/
def advance (child : AbstractExecutor σ) (batchSize : Nat) (c : σ) (batch : List Row) :
    Except Fault (Option (List Row) × State σ) := do
  let (status, c) ← child c batchSize
  match status with
  | none =>
      let s := { child := c, childRows := [], childOffset := 0 }
      return (if batch.isEmpty then none else some batch, s)
  | some rows => do
      let (batch, full) ← fill plan batchSize rows 0 batch
      match full with
      | some i =>
          let offset := if i < rows.length then i else 0
          return (some batch, { child := c, childRows := rows, childOffset := offset })
      | none =>
          let s := { child := c, childRows := rows, childOffset := 0 }
          return (if batch.isEmpty then none else some batch, s)

def next (child : AbstractExecutor σ) : AbstractExecutor (State σ) := fun s batchSize => do
  let batch ←
    if s.childOffset ≠ 0 then drain plan (s.childRows.drop s.childOffset) [] else .ok []
  advance plan child batchSize s.child batch

/-! ## One call -/

variable {plan} {image : Tuple → Tuple}

/-- The projected row, with its `RecordId`. -/
def imageRow (image : Tuple → Tuple) (row : Row) : Row := (image row.1, row.2)

/-- These rows are projected without an exception. -/
def Projects (plan : ProjectionPlanNode) (image : Tuple → Tuple) (rows : List Row) : Prop :=
  ∀ row ∈ rows, project plan row.1 = .ok (image row.1)

theorem project_eq_ok {tuple out : Tuple} : project plan tuple = .ok out ↔
    Builds plan.outputSchema plan.expressions tuple out := bind_eq_ok

theorem Projects.tail {row : Row} {rows : List Row} (h : Projects plan image (row :: rows)) :
    Projects plan image rows := fun r hr => h r (List.mem_cons_of_mem _ hr)

theorem Projects.left {rows rows' : List Row} (h : Projects plan image (rows ++ rows')) :
    Projects plan image rows := fun r hr => h r (List.mem_append_left _ hr)

theorem Projects.right {rows rows' : List Row} (h : Projects plan image (rows ++ rows')) :
    Projects plan image rows' := fun r hr => h r (List.mem_append_right _ hr)

theorem drain_eq {rows : List Row} (h : Projects plan image rows) (batch : List Row) :
    drain plan rows batch = .ok (batch ++ rows.map (imageRow image)) := by
  induction rows generalizing batch with
  | nil => simp [drain]
  | cons row rows ih =>
      rw [drain, h row List.mem_cons_self, ok_bind, ih h.tail, List.append_assoc]
      rfl

theorem fill_cons {row : Row} {rows : List Row} (h : Projects plan image (row :: rows))
    (batchSize i : Nat) (batch : List Row) :
    fill plan batchSize (row :: rows) i batch =
      if (batch ++ [imageRow image row]).length ≥ batchSize then
        .ok (batch ++ [imageRow image row], some (i + 1))
      else fill plan batchSize rows (i + 1) (batch ++ [imageRow image row]) := by
  rw [fill, h row List.mem_cons_self]
  rfl

theorem fill_eq {rows : List Row} (h : Projects plan image rows) (batchSize i : Nat)
    (batch : List Row) :
    (fill plan batchSize rows i batch = .ok (batch ++ rows.map (imageRow image), none) ∧
        (batch.length < batchSize →
          (batch ++ rows.map (imageRow image)).length < batchSize)) ∨
      ∃ taken left, rows = taken ++ left ∧ taken ≠ [] ∧
        fill plan batchSize rows i batch =
          .ok (batch ++ taken.map (imageRow image), some (i + taken.length)) ∧
        (batch.length < batchSize →
          (batch ++ taken.map (imageRow image)).length ≤ batchSize) := by
  induction rows generalizing i batch with
  | nil => exact .inl (by simp [fill])
  | cons row rows ih =>
      rw [fill_cons h]
      by_cases hsize : (batch ++ [imageRow image row]).length ≥ batchSize
      · rw [if_pos hsize]
        refine .inr ⟨[row], rows, rfl, List.cons_ne_nil _ _, rfl, fun hlt => ?_⟩
        rw [List.map_singleton, List.length_append]
        exact hlt
      · have hcons : ∀ rest : List Row, batch ++ (row :: rest).map (imageRow image) =
            batch ++ [imageRow image row] ++ rest.map (imageRow image) := by
          intro rest
          rw [List.append_assoc]
          rfl
        rw [if_neg hsize]
        rcases ih h.tail (i + 1) (batch ++ [imageRow image row]) with
          ⟨hall, hlen⟩ | ⟨taken, left, rfl, -, hfull, hlen⟩
        · refine .inl ⟨by rw [hall, hcons], fun _ => ?_⟩
          rw [hcons]
          exact hlen (by omega)
        · refine .inr ⟨row :: taken, left, rfl, List.cons_ne_nil _ _, ?_, fun _ => ?_⟩
          · rw [hfull, hcons, List.length_cons]
            congr 3
            omega
          · rw [hcons]
            exact hlen (by omega)

section

open FilterExecutor (waiting waiting_full start Takes Ahead)

variable {P : Nat → Prop} {fits : Nat → Nat → Prop} {child : AbstractExecutor σ}
  {R : σ → List Row → Prop} {batchSize : Nat}

/-- What is emitted for a row. -/
def emit (image : Tuple → Tuple) (row : Row) : Option Row := some (imageRow image row)

theorem filterMap_emit (rows : List Row) :
    rows.filterMap (emit image) = rows.map (imageRow image) := by
  rw [← List.filterMap_eq_map]
  rfl

theorem takes_advance (hchild : Flows P fits child R) (hsize : P batchSize) :
    Takes (emit image) (fun row => project plan row.1 = .ok (image row.1)) fits R batchSize
      (advance plan child batchSize) := by
  intro c rest batch hc h
  simp only [filterMap_emit]
  obtain ⟨status, c', rest', hnext, hc', hstatus⟩ := hchild c rest batchSize hc hsize
  rw [advance, hnext]
  cases status with
  | none =>
      obtain ⟨rfl, rfl⟩ := hstatus
      refine ⟨start c', [], [], rfl, hc', ?_, fun _ => rfl, fun _ hlt => ?_⟩
      · rw [List.map_nil, List.append_nil]
        rfl
      · rw [List.map_nil, List.append_nil]
        exact ⟨Nat.le_of_lt hlt, Nat.lt_of_le_of_lt (Nat.zero_le _) hlt⟩
  | some rows =>
      obtain ⟨hne, hfit, rfl⟩ := hstatus
      have hprojects : Projects plan image (rows ++ rest') := h
      rcases fill_eq hprojects.left batchSize 0 batch with
        ⟨hall, hless⟩ | ⟨taken, left, rfl, htaken, hfull, hbound⟩
      · refine ⟨⟨c', rows, 0⟩, rows, rest', rfl, hc', ?_, ?_, fun _ hlt => ?_⟩
        · simp only [ok_bind, hall]
          rfl
        · intro hnil
          exact absurd (List.map_eq_nil_iff.mp (List.append_eq_nil_iff.mp hnil).2) hne
        · exact ⟨Nat.le_of_lt (hless hlt), Nat.lt_of_le_of_lt (Nat.zero_le _) hlt⟩
      · have hbatch : batch ++ taken.map (imageRow image) ≠ [] := by simp [htaken]
        have hwait := waiting_full c' htaken left
        refine ⟨_, taken, rest', ?_, hc', by
          simp only [ok_bind, hfull, List.isEmpty_iff, hbatch, if_false, Nat.zero_add]
          rfl, fun hnil => absurd hnil hbatch, fun hle hlt => ⟨hbound hlt, ?_⟩⟩
        · rw [hwait, List.append_assoc]
        · have hrows := hle _ hfit
          have htaken' := List.length_pos_of_ne_nil htaken
          rw [List.length_append] at hrows
          rw [hwait]
          omega

theorem next_eq {s : State σ} (h : Projects plan image (waiting s)) (batchSize : Nat) :
    next plan child s batchSize =
      advance plan child batchSize s.child ((waiting s).filterMap (emit image)) := by
  rw [filterMap_emit]
  by_cases ho : s.childOffset ≠ 0
  · have hw : waiting s = s.childRows.drop s.childOffset := if_pos ho
    rw [hw] at h ⊢
    rw [next, if_pos ho, drain_eq h, ok_bind, List.nil_append]
  · have hw : waiting s = [] := if_neg ho
    rw [next, if_neg ho, ok_bind, hw, List.map_nil]

/-! ## Every sequence of calls -/

/-- What comes of a projection in state `s`. -/
abbrev Projecting (plan : ProjectionPlanNode) (image : Tuple → Tuple) (R : σ → List Row → Prop) :
    State σ → List Row → Prop :=
  Ahead (emit image) (fun row => project plan row.1 = .ok (image row.1)) R

theorem Projecting.start {c : σ} {rest : List Row} (hc : R c rest)
    (h : Projects plan image rest) :
    Projecting plan image R (start c) (rest.map (imageRow image)) := by
  rw [← filterMap_emit]
  exact Ahead.start hc h

/-- A projection gives the images of the rows of its child, in their order. -/
theorem flows (hchild : Flows P fits child R) :
    Flows P (fun _ _ => True) (next plan child) (Projecting plan image R) :=
  Takes.flows (fun _ => takes_advance hchild) fun _ n h => next_eq h n

theorem flows_within (hchild : Serves child R) (hsize : 1 ≤ batchSize) :
    Flows (· = batchSize) (fun n k => k ≤ n) (next plan child) fun s l =>
      Projecting plan image R s l ∧ (waiting s).length < batchSize :=
  (takes_advance hchild hsize).flows_within (fun _ hk => hk) fun _ h => next_eq h _

end

end ProjectionExecutor

/-! ## Both operators -/

variable {σ : Type}

/-- Whatever the batch sizes, batches with the rows of `out` come and then, for good, the end. In
batches of one size, none is larger than asked for. -/
def LosesNothing (next : AbstractExecutor σ) (size : Nat → Nat) (s : σ) (out : List Row) : Prop :=
  ∃ batches, Streams next size s batches ∧ batches.flatten = out ∧
    ∀ B, (∀ i, size i = B) → ∀ b ∈ batches, b.length ≤ B

theorem losesNothing {next : AbstractExecutor σ} {R : σ → List Row → Prop} {s : σ}
    {out : List Row} {Q : Nat → σ → Prop} (h : Flows (1 ≤ ·) (fun _ _ => True) next R)
    (hwithin : ∀ n, 1 ≤ n →
      Flows (· = n) (fun n k => k ≤ n) next fun s l => R s l ∧ Q n s)
    (hs : R s out) (hQ : ∀ n, 1 ≤ n → Q n s) {size : Nat → Nat} (hsize : ∀ i, 1 ≤ size i) :
    LosesNothing next size s out := by
  by_cases hone : ∃ B, ∀ i, size i = B
  · obtain ⟨B, hB⟩ := hone
    have hpos : 1 ≤ B := hB 0 ▸ hsize 0
    obtain ⟨batches, hstreams, hflat, hfits⟩ :=
      (hwithin B hpos).streams ⟨hs, hQ B hpos⟩ hB
    refine ⟨batches, hstreams, hflat, fun B' hB' b hb => ?_⟩
    obtain ⟨i, hi⟩ := hfits b hb
    rwa [hB' i] at hi
  · obtain ⟨batches, hstreams, hflat, -⟩ := h.streams hs hsize
    exact ⟨batches, hstreams, hflat, fun B hB => absurd ⟨B, hB⟩ hone⟩

/-- Over a child that keeps the contract of batches, the filter streams the rows on which the
predicate is true, and the projection the images of all rows with their `RecordId`s. -/
theorem filter_projection_stream {child : AbstractExecutor σ} {R : σ → List Row → Prop}
    (hchild : Serves child R) {c : σ} {rows : List Row} (hc : R c rows) {size : Nat → Nat}
    (hsize : ∀ i, 1 ≤ size i) :
    (∀ (filterExpr : Option (Tuple → Except Fault Value)) (keep : Row → Bool) (fuel : Nat),
      rows.length < fuel → FilterExecutor.Selects filterExpr keep rows →
        LosesNothing (FilterExecutor.next filterExpr child fuel) size (FilterExecutor.start c)
          (rows.filter keep)) ∧
      ∀ (plan : ProjectionPlanNode) (image : Tuple → Tuple),
        (∀ row ∈ rows, Builds plan.outputSchema plan.expressions row.1 (image row.1)) →
          LosesNothing (ProjectionExecutor.next plan child) size (FilterExecutor.start c)
            (rows.map fun row => (image row.1, row.2)) := by
  have hnone : ∀ n, 1 ≤ n → (FilterExecutor.waiting (FilterExecutor.start c)).length < n :=
    fun _ hn => hn
  constructor
  · intro filterExpr keep fuel hfuel h
    exact losesNothing (FilterExecutor.flows hchild)
      (fun n hn => FilterExecutor.flows_within hchild hn) (.start hc hfuel h.decides) hnone hsize
  · intro plan image h
    have hprojects : ProjectionExecutor.Projects plan image rows := fun row hrow =>
      ProjectionExecutor.project_eq_ok.mpr (h row hrow)
    exact losesNothing (ProjectionExecutor.flows hchild)
      (fun n hn => ProjectionExecutor.flows_within hchild hn) (.start hc hprojects) hnone hsize

/-! ## One column of flags -/

def flag (tuple : Tuple) : Except Fault Value := tuple.value [⟨"flag", .boolean, 1⟩] 0

def flagRow (b : UInt8) : Row := (⟨[0, b], .invalid⟩, ⟨0, 0⟩)

/-- `SELECT 7, flag`. -/
def sevenPlan : ProjectionPlanNode where
  outputSchema := [⟨"seven", .integer, 4⟩, ⟨"flag", .boolean, 1⟩]
  expressions := [fun _ => .ok (Value.ofInt32 .integer 7), flag]

/-- A 7 in front of the bytes behind the bitmap. -/
def withSeven (tuple : Tuple) : Tuple := ⟨[0, 7, 0, 0, 0] ++ tuple.data.drop 1, .invalid⟩

/-- Of a true and a false row the filter gives one, and the projection both with a 7. -/
theorem filter_projection_stream_flags :
    LosesNothing (FilterExecutor.next (some flag) listSource 3) (fun _ => 1)
        (FilterExecutor.start [flagRow 1, flagRow 0])
        ([flagRow 1, flagRow 0].filter fun row => row = flagRow 1) ∧
      LosesNothing (ProjectionExecutor.next sevenPlan listSource)
        (fun _ => 1) (FilterExecutor.start [flagRow 1, flagRow 0])
        ([flagRow 1, flagRow 0].map fun row => (withSeven row.1, row.2)) := by
  have hrows : ∀ row ∈ [flagRow 1, flagRow 0], row = flagRow 1 ∨ row = flagRow 0 := by simp
  obtain ⟨hfilter, hprojection⟩ := filter_projection_stream listSource_delivers.serves
    (rfl : [flagRow 1, flagRow 0] = id [flagRow 1, flagRow 0]) (fun _ => Nat.le_refl 1)
  refine ⟨hfilter (some flag) (fun row => row = flagRow 1) 3 (by decide) ?_,
    hprojection sevenPlan withSeven ?_⟩
  · intro row hrow
    rcases hrows row hrow with rfl | rfl
    · exact ⟨Value.ofInt8 .boolean 1, rfl, by decide⟩
    · exact ⟨Value.ofInt8 .boolean 0, rfl, by decide⟩
  · intro row hrow
    rcases hrows row hrow with rfl | rfl
    · exact ⟨[Value.ofInt32 .integer 7, Value.ofInt8 .boolean 1], rfl, rfl⟩
    · exact ⟨[Value.ofInt32 .integer 7, Value.ofInt8 .boolean 0], rfl, rfl⟩

end TurtleDb.Execution
