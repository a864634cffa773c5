import TurtleDb.Execution.Statements

/-!
# Runs of statements

Over a table that takes the next row each statement ends. It answers what it means over the rows of
the table, it leaves the tuples that it means to leave, and the table takes the next row again.
-/

namespace TurtleDb.Execution

open TurtleDb.Lib TurtleDb.Buffer TurtleDb.Buffer.BufferPoolManager TurtleDb.Page TurtleDb.Table
  TurtleDb.Table.HeapState TurtleDb.Datatype

variable {δ φ σ τ : Type}

section
variable {s t : HeapState δ} {T T₀ : Multiset (List UInt8)} {old : List Row} {new : List Tuple}

variable [PageDisk δ] [LawfulPageDisk δ] {file : FileId} {store : PageKey → Option PageData}
  {l : Pages}

end

/-! ## INSERT -/

section
variable [PageDisk δ] [LawfulPageDisk δ] {file : FileId} {lo hi m n fuel : Nat} {s : HeapState δ}
  {rows l : List Row}

namespace InsertExecutor

end InsertExecutor

end

/-! ## Scans that keep a table ready -/

section
variable [PageDisk δ] [LawfulPageDisk δ] {file : FileId} {lo hi m n fuel fuel' : Nat}
  {s : HeapState δ} {b : BufferPoolManager δ} {it it' : TableIterator} {rows : List Row}
  {handed : List PageKey}

namespace SeqScanExecutor

/-- The table is ready, and the iterator is on one of its pages. -/
structure Upon (file : FileId) (lo hi m : Nat) (handed : List PageKey)
    (w : HeapState δ × SeqScanExecutor) : Prop where
  ready : Ready file lo hi w.1 m
  handed : w.1.handed = handed
  iter : OnPage file w.1 w.2.iter

/-- The row is from a page of the table. -/
def FromPage (file : FileId) (handed : List PageKey) (row : Row) : Prop :=
  ⟨file, row.2.pageId⟩ ∈ handed

theorem fill_ready (hs : Ready file lo hi s m) (hit : OnPage file s it)
    (he : fill fuel s.heap n s.pool it = .ok (rows, it', b)) :
    Ready file lo hi { s with pool := b } m ∧ OnPage file s it' ∧
      ∀ row ∈ rows, FromPage file s.handed row := by
  induction n generalizing s it rows with
  | zero =>
      cases he
      exact ⟨hs, hit, fun _ hrow => absurd hrow List.not_mem_nil⟩
  | succ n ih =>
      rw [fill] at he
      split at he
      · cases he
        exact ⟨hs, hit, fun _ hrow => absurd hrow List.not_mem_nil⟩
      · obtain ⟨⟨it₁, b₁⟩, hinc, he⟩ := bind_eq_ok.mp he
        obtain ⟨⟨rows', it₂, b₂⟩, hfill, he⟩ := bind_eq_ok.mp he
        cases he
        obtain ⟨hread, hit₁⟩ := ReadTo.increment hs.within hit hinc
        obtain ⟨hs₂, hit₂, hrows⟩ := ih (s := { s with pool := b₁ }) (hs.readTo hread) hit₁ hfill
        refine ⟨hs₂, hit₂, fun row hrow => ?_⟩
        rcases List.mem_cons.mp hrow with rfl | hrow
        · exact hit.resolve_left ‹_›
        · exact hrows row hrow

theorem agrees_nextOn (hle : fuel ≤ fuel') :
    SourcesAgree (Upon (δ := δ) file lo hi m handed) (FromPage file handed) (nextOn fuel)
      (nextOn fuel') := by
  rintro ⟨s, e⟩ n batch w' hw hrun
  obtain ⟨⟨batch', b, e'⟩, hnext, hrun⟩ := bind_eq_ok.mp hrun
  cases hrun
  have hnext' := next_mono hnext hle
  obtain ⟨⟨rows, it', b'⟩, hfill, hnext⟩ := bind_eq_ok.mp hnext
  cases hnext
  obtain ⟨hs, hit, hrows⟩ := fill_ready hw.ready hw.iter hfill
  refine ⟨bind_eq_ok.mpr ⟨_, hnext', rfl⟩, ⟨hs, hw.handed, hit⟩, fun b hb row hrow => ?_⟩
  split at hb
  · cases hb
  · cases hb
    rw [← hw.handed]
    exact hrows row hrow

theorem initOn_ready {tableOid : Nat} {w : HeapState δ × SeqScanExecutor}
    (hs : Ready file lo hi s m) (he : initOn fuel tableOid s = .ok w) (hle : fuel ≤ fuel') :
    initOn fuel' tableOid s = .ok w ∧ Upon file lo hi m s.handed w := by
  obtain ⟨⟨e, b⟩, hinit, he⟩ := bind_eq_ok.mp he
  cases he
  refine ⟨bind_eq_ok.mpr ⟨_, init_mono hinit hle, rfl⟩, ?_⟩
  obtain ⟨⟨it, b'⟩, hstart, hinit⟩ := bind_eq_ok.mp hinit
  cases hinit
  obtain ⟨hread, hit⟩ := ReadTo.start hs.within hstart
  exact ⟨hs.readTo hread, rfl, hit⟩

end SeqScanExecutor

namespace FilterExecutor

variable {I : τ × σ → Prop} {Q : Row → Prop} {child child' : AbstractExecutor (τ × σ)}
  {filterExpr : Option (Tuple → Except Fault Value)}

/-- The child keeps `I`, which is about `τ` too, and the rows that wait have `Q`. -/
def KeptOn (I : τ × σ → Prop) (Q : Row → Prop) (w : τ × State σ) : Prop :=
  Kept I Q { w.2 with child := (w.1, w.2.child) }

theorem agrees_nextOn (h : SourcesAgree I Q child child') (hle : fuel ≤ fuel') :
    SourcesAgree (KeptOn I Q) Q (nextOn filterExpr child fuel) (nextOn filterExpr child' fuel') := by
  rintro ⟨w, s⟩ n batch w' hw hrun
  obtain ⟨⟨answer, s'⟩, hnext, hrun⟩ := bind_eq_ok.mp hrun
  cases hrun
  obtain ⟨hnext', hs', hbatch⟩ := agrees h hle _ n _ s' hw hnext
  exact ⟨bind_eq_ok.mpr ⟨_, hnext', rfl⟩, hs', hbatch⟩

end FilterExecutor

namespace Target

open SeqScanExecutor in
/-- The child has the table ready. -/
def Upon (file : FileId) (lo hi m : Nat) (handed : List PageKey) :
    (p : Target) → HeapState δ × p.State → Prop
  | .scan => SeqScanExecutor.Upon file lo hi m handed
  | .filter _ => FilterExecutor.KeptOn (SeqScanExecutor.Upon file lo hi m handed)
      (FromPage file handed)

open SeqScanExecutor in
theorem agrees (hle : fuel ≤ fuel') (p : Target) :
    SourcesAgree (Upon (δ := δ) file lo hi m handed p) (FromPage file handed) (p.next fuel)
      (p.next fuel') := by
  cases p with
  | scan => exact agrees_nextOn hle
  | filter predicate => exact FilterExecutor.agrees_nextOn (agrees_nextOn hle) hle

theorem Upon.ready {p : Target} {w : HeapState δ × p.State} (hw : Upon file lo hi m handed p w) :
    Ready file lo hi w.1 m := by
  cases p with
  | scan => exact SeqScanExecutor.Upon.ready hw
  | filter predicate => exact (show FilterExecutor.KeptOn _ _ w from hw).1.ready

theorem init_ready {tableOid : Nat} {p : Target} {w : HeapState δ × p.State}
    (hs : Ready file lo hi s m) (he : p.init fuel tableOid s = .ok w) (hle : fuel ≤ fuel') :
    p.init fuel' tableOid s = .ok w ∧ Upon file lo hi m s.handed p w := by
  cases p with
  | scan => exact SeqScanExecutor.initOn_ready hs he hle
  | filter predicate =>
      obtain ⟨⟨s₁, e⟩, hinit, he⟩ := bind_eq_ok.mp he
      cases he
      obtain ⟨hinit', hw⟩ := SeqScanExecutor.initOn_ready hs hinit hle
      exact ⟨bind_eq_ok.mpr ⟨_, hinit', rfl⟩, hw, fun _ hrow => absurd hrow List.not_mem_nil⟩

/-- After its `init` a new child has the rows of the table to look at, and yields those that the
predicate keeps. -/
theorem init_yielding (p : Target) (tableOid : Nat) {store : PageKey → Option PageData} {l : Pages}
    {keep : Row → Bool} (hs : Ready file lo hi s m) (hholds : Holds file s store l)
    (hkeep : FilterExecutor.Decides p.predicate keep (SeqScanExecutor.liveRows l))
    (hpages : s.pageCount file < fuel) (hfuel : (SeqScanExecutor.liveRows l).length < fuel) :
    ∃ w matching R, p.init fuel tableOid s = .ok w ∧
      Yielding file matching (p.next fuel) R ∧ R w (SeqScanExecutor.liveRows l) ∧
      (SeqScanExecutor.liveRows l).filter matching = (SeqScanExecutor.liveRows l).filter keep ∧
      w.1.map = s.map := by
  obtain ⟨⟨s', e⟩, hinit, hahead, hbrowsed⟩ :=
    SeqScanExecutor.initOn_liveRows tableOid hs.within.reachable hholds hs.canRead hpages
  cases p with
  | scan =>
      refine ⟨(s', e), _, _, hinit, SeqScanExecutor.yielding fuel, hahead, ?_, hbrowsed.map⟩
      refine List.filter_congr fun row hrow => ?_
      exact Except.ok.inj (hkeep row hrow)
  | filter predicate =>
      have hscan : Yielding file _ (SeqScanExecutor.nextOn fuel) _ :=
        SeqScanExecutor.yielding (δ := δ) fuel
      refine ⟨(s', FilterExecutor.start e), keep, _, ?_, FilterExecutor.yielding hscan,
        FilterExecutor.facing_start hscan hahead hkeep hfuel, rfl, hbrowsed.map⟩
      exact bind_eq_ok.mpr ⟨_, hinit, rfl⟩

end Target

end

/-! ## UPDATE -/

section
variable [PageDisk δ] [LawfulPageDisk δ] {file : FileId} {lo hi m : Nat} {s : HeapState δ}
  {rows : List Row} {new : List Tuple} {plan : UpdatePlanNode}

/-- A pending row is replaced: its old version is deleted, and the new one finds its place. -/
theorem UpdateExecutor.updatedRow_ready {row : Row} {tuple : Tuple}
    (hs : Ready file lo hi s (m + 1)) (hroom : SlotsLeaveRoom lo hi) (hlo : 1 ≤ lo)
    (hhi : hi ≤ 4064)
    (hold : s.map row.2 = some row.1.data) (ht : updatedTuple plan row.1 = .ok tuple)
    (hge : lo ≤ tuple.data.length) (hle : tuple.data.length ≤ hi) (c : σ) :
    ∃ (u : RowUpdate (HeapState δ × σ)) (s' : HeapState δ),
      UpdatedRow plan (heapCalls σ file) (s, c) u (s', c) ∧ u.row = row ∧ u.tuple = tuple ∧
        Succeeds u ∧ Ready file lo hi s' m := by
  have hlive : s.map row.2 ≠ none := by
    rw [hold]
    exact Option.some_ne_none _
  obtain ⟨store, l, hholds⟩ := hs.within.holds
  obtain ⟨b, h, _, _, hdelete, _⟩ := hholds.markDelete_live hs.canRead hlive
  have hdeleted := hs.deleted (hs.within.reachable.mem_handed hlive) hdelete
  obtain ⟨rid, b', h', hinsert, hcan, hs'⟩ := hdeleted.insertTuple hroom hlo hhi hge hle
  exact ⟨⟨(s.deleted row.2 (.ok true) b h, c), row, tuple, true, some rid⟩, _,
    .deleted ht (heapCalls_markDelete c hdelete) (heapCalls_insertTuple c hinsert), rfl, rfl,
    ⟨rfl, rfl, hcan⟩, hs'⟩

theorem UpdateExecutor.updatedRows_ready {w : HeapState δ × σ}
    (hs : Ready file lo hi w.1 (m + rows.length)) (hroom : SlotsLeaveRoom lo hi) (hlo : 1 ≤ lo)
    (hhi : hi ≤ 4064) (hp : Pending w.1 rows)
    (hnew : List.Forall₂
      (fun row tuple => Builds plan.schema plan.targetExpressions row.1 tuple) rows new)
    (hsized : ∀ tuple ∈ new, lo ≤ tuple.data.length ∧ tuple.data.length ≤ hi) :
    ∃ log w', UpdatedRows plan (heapCalls σ file) w log w' ∧ log.map RowUpdate.row = rows ∧
      log.map RowUpdate.tuple = new ∧ (∀ c ∈ log, Succeeds c) ∧ Ready file lo hi w'.1 m := by
  induction hnew generalizing w with
  | nil => exact ⟨[], w, .nil w, rfl, rfl, fun _ hc => absurd hc List.not_mem_nil, hs⟩
  | @cons row tuple rows new ht hnew ih =>
      obtain ⟨s, c⟩ := w
      obtain ⟨hge, hle⟩ := hsized tuple List.mem_cons_self
      have hold := hp.stored row List.mem_cons_self
      obtain ⟨u, s₁, hu, rfl, rfl, hdone, hs₁⟩ :=
        updatedRow_ready hs hroom hlo hhi hold (updatedTuple_eq_ok.mpr ht) hge hle c
      have hstep := hu.step hs.within.reachable hold fun _ => hdone.2.2
      obtain ⟨log, w', hlog, hrows, htuples, hall, hs'⟩ := ih hs₁ (hp.step hstep).1
        fun tuple hmem => hsized tuple (List.mem_cons_of_mem _ hmem)
      refine ⟨u :: log, w', .cons hu hlog, congrArg (u.row :: ·) hrows,
        congrArg (u.tuple :: ·) htuples, List.forall_mem_cons.mpr ⟨hdone, hall⟩, hs'⟩

/-- The matching rows are collected. They are in the table, which is still ready. -/
theorem Target.collect_ready (p : Target) (tableOid : Nat) {n fuel : Nat}
    {store : PageKey → Option PageData} {l : Pages} {keep : Row → Bool}
    (hs : Ready file lo hi s m) (hholds : Holds file s store l)
    (hkeep : FilterExecutor.Decides p.predicate keep (SeqScanExecutor.liveRows l)) (hn : 1 ≤ n)
    (hpages : s.pageCount file < fuel) (hfuel : (SeqScanExecutor.liveRows l).length < fuel) :
    ∃ w w₁, p.init fuel tableOid s = .ok w ∧ w.1.map = s.map ∧
      UpdateExecutor.Changes file (p.next fuel) fuel n w
        ((SeqScanExecutor.liveRows l).filter keep) ∧
      UpdateExecutor.collect (p.next fuel) n fuel w [] =
        .ok ((SeqScanExecutor.liveRows l).filter keep, w₁) ∧
      UpdateExecutor.Pending w₁.1 ((SeqScanExecutor.liveRows l).filter keep) ∧
      Ready file lo hi w₁.1 m := by
  obtain ⟨w, matching, R, hinit, hchild, hw, hmatched, hmap⟩ :=
    p.init_yielding tableOid hs hholds hkeep hpages hfuel
  have hchanges := UpdateExecutor.changes hchild hw hn hfuel
  obtain ⟨w₁, hcollect, _, hmap₁⟩ := UpdateExecutor.collect_yielding hchild hw hn hfuel []
  rw [hmatched] at hchanges hcollect
  refine ⟨w, w₁, hinit, hmap, hchanges, hcollect, ?_, ?_⟩
  · have hp := hchild.pending w _ hw
    refine ⟨fun row hrow => ?_, hp.nodup.sublist (List.filter_sublist.map _)⟩
    rw [hmap₁]
    exact hp.stored row (List.mem_of_mem_filter hrow)
  · obtain ⟨_, hupon⟩ := Target.init_ready hs hinit (Nat.le_refl _)
    rw [UpdateExecutor.collect_eq] at hcollect
    obtain ⟨_, hupon₁⟩ :=
      (Target.agrees (Nat.le_refl _) p).foldBatches hupon (Nat.le_refl _) hcollect
    exact hupon₁.ready

end

/-! ## INSERT, DELETE and UPDATE end -/

namespace Statement

section
variable [PageDisk δ] [LawfulPageDisk δ] [Aggregating φ] {sort : Sorter Fault SortEntry}
  {rt : Runtime} {file : FileId} {tableOid n lo hi m : Nat} {s : HeapState δ} {new : List Row}
  {store : PageKey → Option PageData} {l : Pages} {keep : Row → Bool}

end

/-! ## SELECT -/

section
variable [PageDisk δ] [LawfulPageDisk δ] [Aggregating φ] {sort : Sorter Fault SortEntry}
  {rt : Runtime} {file : FileId} {tableOid n lo hi m : Nat} {s t : HeapState δ}
  {store : PageKey → Option PageData} {l : Pages} {plan : QueryPlan φ} {out rows : List Row}

end

end Statement

end TurtleDb.Execution
