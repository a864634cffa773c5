import TurtleDb.Execution.Batching
import TurtleDb.Execution.GroupByTheorems
import TurtleDb.Execution.Restart

/-!
# Query plans

The trees of `execution/plans` whose executors only read, with all their executors: `Values` or a
sequential scan below filters, projections, sorts, LIMITs and aggregations. A tree that is asked for
batches of one size gives the rows that its executors make of all the rows of their children.
-/

namespace TurtleDb.Execution

open TurtleDb.Lib TurtleDb.Buffer TurtleDb.Table TurtleDb.Datatype

inductive QueryPlan (φ : Type) where
  | values (plan : ValuesPlanNode)
  | seqScan (plan : SeqScanPlanNode)
  | filter (predicate : Option (Tuple → Except Fault Value)) (child : QueryPlan φ)
  | projection (plan : ProjectionPlanNode) (child : QueryPlan φ)
  | sort (orderBys : List OrderBy) (child : QueryPlan φ)
  | limit (count : Nat) (child : QueryPlan φ)
  | aggregation (plan : AggregationPlan φ) (child : QueryPlan φ)

namespace QueryPlan

variable {δ φ : Type}

/-! ## Executors -/

/-- A scan has no iterator before its first `init`. -/
def State (δ : Type) : QueryPlan φ → Type
  | .values _ => BufferPoolManager δ × Nat
  | .seqScan _ => BufferPoolManager δ × Option SeqScanExecutor
  | .filter _ child => FilterExecutor.State (State δ child)
  | .projection _ child => ProjectionExecutor.State (State δ child)
  | .sort _ child => State δ child × SortExecutor.State
  | .limit _ child => LimitExecutor.State (State δ child)
  | .aggregation _ child => State δ child × AggregationExecutor.State

/-- The constructors. -/
def construct (b : BufferPoolManager δ) : (p : QueryPlan φ) → State δ p
  | .values _ => (b, 0)
  | .seqScan _ => (b, none)
  | .filter _ child => FilterExecutor.start (construct b child)
  | .projection _ child => FilterExecutor.start (construct b child)
  | .sort _ child => (construct b child, ⟨[], 0⟩)
  | .limit _ child => ⟨construct b child, 0⟩
  | .aggregation _ child => (construct b child, ⟨[]⟩)

variable [PageDisk δ] [Aggregating φ] (catalog : Nat → Option TableHeap)
  (sort : Sorter Fault SortEntry) (rt : Runtime) (fuel : Nat)

/-- `next`. A scan without an iterator dereferences a null pointer. -/
def next : (p : QueryPlan φ) → AbstractExecutor (State δ p)
  | .values plan => beside (ValuesExecutor.next plan)
  | .seqScan plan => fun (b, e) batchSize =>
      match e with
      | none => .error .outOfBounds
      | some e => do
          let (batch, b, e) ← plan.next fuel (b, e) batchSize
          return (batch, (b, some e))
  | .filter predicate child => FilterExecutor.next predicate (next child) fuel
  | .projection plan child => ProjectionExecutor.next plan (next child)
  | .sort _ _ => beside SortExecutor.next
  | .limit count child => LimitExecutor.next (next child) count
  | .aggregation plan _ => beside (AggregationExecutor.next plan)

omit [PageDisk δ] in
/-- "If child returned no tuples and there are no GROUP BY keys". -/
def addEmptyGroup (plan : AggregationPlan φ) (entries : List AggregationHashTable.Entry) :
    Except Fault (List AggregationHashTable.Entry) :=
  if entries.isEmpty && plan.groupBys.isEmpty then
    AggregationHashTable.insertCombine rt plan.aggFuncs entries [] (plan.aggFuncs.map fun _ => none)
  else .ok entries

/-- `init`. A filter and a projection keep what they have of their child's last batch. -/
def init : (p : QueryPlan φ) → State δ p → Except Fault (State δ p)
  | .values _, (b, _) => .ok (b, 0)
  | .seqScan plan, (b, _) => do
      let (e, b) ← plan.init fuel (catalog plan.tableOid) b
      return (b, some e)
  | .filter _ child, s => do
      let c ← init child s.child
      return { s with child := c }
  | .projection _ child, s => do
      let c ← init child s.child
      return { s with child := c }
  | .sort orderBys child, (c, _) => do
      let c ← init child c
      let (entries, c) ← SortExecutor.collect (next fuel child) orderBys fuel c []
      let sorted ← sort (SortComparator.apply orderBys) entries
      return (c, ⟨sorted, 0⟩)
  | .limit _ child, s => do
      let c ← init child s.child
      return ⟨c, 0⟩
  | .aggregation plan child, (c, _) => do
      let c ← init child c
      let (entries, c) ← AggregationExecutor.consume rt plan (next fuel child) fuel c []
      let entries ← addEmptyGroup rt plan entries
      return (c, ⟨rt.map.order entries⟩)

/-- A new tree that is asked for batches of `n` rows until its end gives `out`. -/
def Drains (p : QueryPlan φ) (b : BufferPoolManager δ) (n : Nat) (out : List Row) : Prop :=
  ∃ fuel s, init catalog sort rt fuel p (construct b p) = .ok s ∧
    Yields (next fuel p) (fun _ => n) s out

/-! ## What the executors compute -/

/-- The rows that a scan gives. -/
def Scans (b : BufferPoolManager δ) (tableOid : Nat) (out : List Row) : Prop :=
  ∃ h fuel b', catalog tableOid = some h ∧ h.scan fuel b = .ok (out.map Prod.swap, b')

/-- The rows that the executors make, over tables with the rows `scanned`, if nothing raises. -/
def Evaluates (scanned : Nat → List Row → Prop) : QueryPlan φ → List Row → Prop
  | .values plan, out => ValuesExecutor.rowsFrom plan 0 = .ok out
  | .seqScan plan, out => scanned plan.tableOid out
  | .filter predicate child, out => ∃ rows, Evaluates scanned child rows ∧
      emits (FilterExecutor.pick predicate) rows = .ok out
  | .projection plan child, out => ∃ rows, Evaluates scanned child rows ∧
      emits (ProjectionExecutor.pick plan) rows = .ok out
  | .sort orderBys child, out => ∃ rows entries sorted, Evaluates scanned child rows ∧
      rows.mapM (SortExecutor.entry orderBys) = .ok entries ∧
      sort (SortComparator.apply orderBys) entries = .ok sorted ∧
      out = sorted.map SortEntry.row
  | .limit count child, out => ∃ rows, Evaluates scanned child rows ∧ out = rows.take count
  | .aggregation plan child, out => ∃ rows entries groups, Evaluates scanned child rows ∧
      AggregationExecutor.insertBatch rt plan [] rows = .ok entries ∧
      addEmptyGroup rt plan entries = .ok groups ∧
      (rt.map.order groups).mapM (AggregationExecutor.emitRow plan) = .ok out

/-- Below each LIMIT, whose rows `means` has, are as many as it wants, or whole batches. A sort and
an aggregation read batches of 256. -/
def Served (means : QueryPlan φ → List Row → Prop) : Nat → QueryPlan φ → Prop
  | _, .values _ => True
  | _, .seqScan _ => True
  | n, .filter _ child => Served means n child
  | n, .projection _ child => Served means n child
  | _, .sort _ child => Served means 256 child
  | n, .limit count child => Served means n child ∧
      ∀ rows, means child rows → count ≤ rows.length ∨ n ∣ rows.length
  | _, .aggregation _ child => Served means 256 child

/-! ## Call after call -/

/-- What the tree has still to give, in batches of `n`. -/
def Left (served : Prop) (fuel N n : Nat) : (p : QueryPlan φ) → State δ p → List Row → Prop
  | .values plan, (_, cursor), l => ValuesExecutor.rowsFrom plan cursor = .ok l
  | .seqScan _, (b, e), l => ∃ e', e = some e' ∧
      SeqScanExecutor.Visits (max fuel (N + 1)) e'.tableHeap b e'.iter l
  | .filter predicate child, s, l =>
      FilterExecutor.Partly predicate (FilterExecutor.keeps predicate) n N
        (Left served fuel N n child) s l
  | .projection plan child, s, l =>
      ProjectionExecutor.Whole plan (ProjectionExecutor.image plan) (Left served fuel N n child) s l
  | .sort _ _, (_, s), l => l = (s.sortedEntries.drop s.cursor).map SortEntry.row
  | .limit count child, s, l =>
      LimitExecutor.Remaining n count served (Left served fuel N n child) s l
  | .aggregation plan _, (_, s), l => s.ahead.mapM (AggregationExecutor.emitRow plan) = .ok l

variable {catalog sort rt fuel} {served : Prop} {N n : Nat} {b : BufferPoolManager δ}
  {out : List Row}

/-- The only excuses are too little fuel and a LIMIT that is not served. -/
theorem full (hn : 1 ≤ n) (p : QueryPlan φ) :
    Full n (fuel ≤ N ∨ ¬ served) (next fuel p : AbstractExecutor (State δ p))
      (Left served fuel N n p) := by
  induction p with
  | values plan => exact (ValuesExecutor.full plan n).beside.mono False.elim
  | seqScan plan =>
      rintro ⟨b, e⟩ l ⟨e, rfl, hv⟩
      rcases SeqScanExecutor.full n fuel N (b, e) l hv with
        ⟨⟨b', e'⟩, hnext, hv'⟩ | ⟨hex, fault, hnext⟩
      · exact .inl ⟨(b', some e'), bind_eq_ok.mpr ⟨_, hnext, rfl⟩, e', rfl, hv'⟩
      · refine .inr ⟨.inl hex, fault, ?_⟩
        show (SeqScanExecutor.next fuel (b, e) n >>= _) = _
        rw [hnext]
        rfl
  | filter predicate child ih =>
      exact (FilterExecutor.full ih fuel N).mono (Or.elim · .inl id)
  | projection plan child ih => exact ProjectionExecutor.full hn ih
  | sort orderBys child ih => exact (SortExecutor.full hn).beside.mono False.elim
  | limit count child ih => exact (LimitExecutor.full hn ih).mono (Or.elim · id .inr)
  | aggregation plan child ih => exact (AggregationExecutor.full plan n).beside.mono False.elim

/-! ## `init` -/

theorem decides_of_emits {filterExpr : Option (Tuple → Except Fault Value)} {rows : List Row}
    (h : emits (FilterExecutor.pick filterExpr) rows = .ok out) :
    FilterExecutor.Decides filterExpr (FilterExecutor.keeps filterExpr) rows ∧
      out = rows.filter (FilterExecutor.keeps filterExpr) := by
  obtain ⟨rest, ⟨rfl, -⟩, hdecides, hout⟩ := FilterExecutor.Passing.of_emits
    (R := fun _ rest => rest = rows) (s := FilterExecutor.start ()) rfl (Nat.lt_succ_self _) h
  exact ⟨hdecides, hout.trans (FilterExecutor.filterMap_emit rest)⟩

theorem projects_of_emits {plan : ProjectionPlanNode} {rows : List Row}
    (h : emits (ProjectionExecutor.pick plan) rows = .ok out) :
    ProjectionExecutor.Projects plan (ProjectionExecutor.image plan) rows ∧
      out = rows.map (ProjectionExecutor.imageRow (ProjectionExecutor.image plan)) := by
  obtain ⟨rest, rfl, hprojects, hout⟩ := ProjectionExecutor.Projecting.of_emits
    (R := fun _ rest => rest = rows) (s := FilterExecutor.start ()) rfl h
  exact ⟨hprojects, hout.trans (ProjectionExecutor.filterMap_emit rest)⟩

/-- `init` of a new tree returns, and everything is still to come; or it fails and is excused. -/
def Begins (catalog : Nat → Option TableHeap) (sort : Sorter Fault SortEntry) (rt : Runtime)
    (served : Prop) (b : BufferPoolManager δ) (n : Nat) (p : QueryPlan φ) (out : List Row)
    (N fuel : Nat) : Prop :=
  (∃ s, init catalog sort rt fuel p (construct b p) = .ok s ∧ Left served fuel N n p s out) ∨
    (fuel ≤ N ∨ ¬ served) ∧ ∃ e, init catalog sort rt fuel p (construct b p) = .error e

theorem begins (p : QueryPlan φ) (hn : 1 ≤ n) (h : Evaluates sort rt (Scans catalog b) p out)
    (hserved : served → Served (Evaluates sort rt (Scans catalog b)) n p) :
    ∃ least, ∀ N, least ≤ N → ∀ fuel, Begins catalog sort rt served b n p out N fuel := by
  induction p generalizing n out with
  | values plan => exact ⟨0, fun N _ fuel => .inl ⟨(b, 0), rfl, h⟩⟩
  | seqScan plan =>
      obtain ⟨t, f, b', ht, hscan⟩ := h
      obtain ⟨least, it, b₁, hstart, steps, b₂, hvisit⟩ :=
        SeqScanExecutor.scan_iff_visits.mp ⟨f, b', hscan⟩
      refine ⟨least, fun N hN fuel => ?_⟩
      have hle : least ≤ max fuel (N + 1) :=
        Nat.le_trans (Nat.le_succ_of_le hN) (Nat.le_max_right _ _)
      cases hown : t.start fuel b with
      | ok r =>
          have hr := TableHeap.start_mono hown (Nat.le_max_left fuel (N + 1))
          cases hr.symm.trans (TableHeap.start_mono hstart hle)
          refine .inl ⟨(b₁, some ⟨t, it⟩), ?_, ⟨t, it⟩, rfl, steps, b₂, ?_⟩
          · have hinit : plan.init fuel (catalog plan.tableOid) b = .ok (⟨t, it⟩, b₁) := by
              rw [ht]
              exact bind_eq_ok.mpr ⟨_, hown, rfl⟩
            exact bind_eq_ok.mpr ⟨_, hinit, rfl⟩
          · exact TableHeap.visit_mono hvisit hle (Nat.le_refl _)
      | error fault =>
          refine .inr ⟨.inl ?_, ?_⟩
          · by_contra hlt
            have henough : least ≤ fuel := Nat.le_trans hN (Nat.le_of_lt (Nat.not_le.mp hlt))
            cases hown.symm.trans (TableHeap.start_mono hstart henough)
          · have hinit : ∃ e, plan.init fuel (catalog plan.tableOid) b = .error e := by
              rw [ht]
              exact error_of_bind ⟨fault, hown⟩
            exact error_of_bind hinit
  | filter predicate child ih =>
      obtain ⟨rows, hrows, hout⟩ := h
      obtain ⟨hdecides, rfl⟩ := decides_of_emits hout
      obtain ⟨least, hbegins⟩ := ih hn hrows hserved
      refine ⟨max least rows.length, fun N hN fuel => ?_⟩
      rcases hbegins N (Nat.le_trans (Nat.le_max_left _ _) hN) fuel with
        ⟨c, hc, hl⟩ | ⟨hex, herror⟩
      · refine .inl ⟨FilterExecutor.start c, bind_eq_ok.mpr ⟨c, hc, rfl⟩, hn, rows, hl, ?_,
          hdecides, rfl⟩
        exact Nat.le_trans (Nat.le_max_right _ _) hN
      · exact .inr ⟨hex, error_of_bind herror⟩
  | projection plan child ih =>
      obtain ⟨rows, hrows, hout⟩ := h
      obtain ⟨hprojects, rfl⟩ := projects_of_emits hout
      obtain ⟨least, hbegins⟩ := ih hn hrows hserved
      refine ⟨least, fun N hN fuel => ?_⟩
      rcases hbegins N hN fuel with ⟨c, hc, hl⟩ | ⟨hex, herror⟩
      · exact .inl ⟨FilterExecutor.start c, bind_eq_ok.mpr ⟨c, hc, rfl⟩, rfl, rows, hl, hprojects,
          rfl⟩
      · exact .inr ⟨hex, error_of_bind herror⟩
  | sort orderBys child ih =>
      obtain ⟨rows, entries, sorted, hrows, hentries, hsorted, rfl⟩ := h
      obtain ⟨least, hbegins⟩ := ih (by decide) hrows hserved
      refine ⟨max least rows.length, fun N hN fuel => ?_⟩
      rcases hbegins N (Nat.le_trans (Nat.le_max_left _ _) hN) fuel with
        ⟨c, hc, hl⟩ | ⟨hex, herror⟩
      · have hchild : Full 256 (fuel ≤ N ∨ ¬ served) (next fuel child)
            (Left served fuel N 256 child : State δ child → List Row → Prop) :=
          full (by decide) child
        rcases SortExecutor.collect_full hchild hl hentries fuel with
          ⟨c', hdrain⟩ | ⟨hex, herror⟩
        · refine .inl ⟨(c', ⟨sorted, 0⟩), bind_eq_ok.mpr ⟨c, hc, ?_⟩, rfl⟩
          exact bind_eq_ok.mpr ⟨_, hdrain, bind_eq_ok.mpr ⟨sorted, hsorted, rfl⟩⟩
        · have hshort : fuel ≤ N ∨ ¬ served := hex.elim (fun hle => .inl
            (Nat.le_trans hle (Nat.le_trans (Nat.le_max_right _ _) hN))) id
          exact .inr ⟨hshort, error_of_bind_ok hc (error_of_bind herror)⟩
      · exact .inr ⟨hex, error_of_bind herror⟩
  | limit count child ih =>
      obtain ⟨rows, hrows, rfl⟩ := h
      obtain ⟨least, hbegins⟩ := ih hn hrows fun hs => (hserved hs).1
      refine ⟨least, fun N hN fuel => ?_⟩
      rcases hbegins N hN fuel with ⟨c, hc, hl⟩ | ⟨hex, herror⟩
      · exact .inl ⟨⟨c, 0⟩, bind_eq_ok.mpr ⟨c, hc, rfl⟩, Nat.zero_le _, rows, hl, rfl,
          fun hs => (hserved hs).2 rows hrows⟩
      · exact .inr ⟨hex, error_of_bind herror⟩
  | aggregation plan child ih =>
      obtain ⟨rows, entries, groups, hrows, hentries, hgroups, hout⟩ := h
      obtain ⟨least, hbegins⟩ := ih (by decide) hrows hserved
      refine ⟨max least rows.length, fun N hN fuel => ?_⟩
      rcases hbegins N (Nat.le_trans (Nat.le_max_left _ _) hN) fuel with
        ⟨c, hc, hl⟩ | ⟨hex, herror⟩
      · have hchild : Full 256 (fuel ≤ N ∨ ¬ served) (next fuel child)
            (Left served fuel N 256 child : State δ child → List Row → Prop) :=
          full (by decide) child
        rcases AggregationExecutor.consume_full hchild hl hentries fuel with
          ⟨c', hconsume⟩ | ⟨hex, herror⟩
        · refine .inl ⟨(c', ⟨rt.map.order groups⟩), bind_eq_ok.mpr ⟨c, hc, ?_⟩, hout⟩
          exact bind_eq_ok.mpr ⟨_, hconsume, bind_eq_ok.mpr ⟨groups, hgroups, rfl⟩⟩
        · have hshort : fuel ≤ N ∨ ¬ served := hex.elim (fun hle => .inl
            (Nat.le_trans hle (Nat.le_trans (Nat.le_max_right _ _) hN))) id
          exact .inr ⟨hshort, error_of_bind_ok hc (error_of_bind herror)⟩
      · exact .inr ⟨hex, error_of_bind herror⟩

end QueryPlan

end TurtleDb.Execution
