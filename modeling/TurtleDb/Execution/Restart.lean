import TurtleDb.Execution.Draining

/-!
# Starting a pipeline again

`init` does not clear the rows that a filter or a projection keeps of its child's last batch. A
pipeline that is started again gives what comes of these rows, and then what a new copy gives.
-/

namespace TurtleDb.Execution.Plan

open TurtleDb.Lib TurtleDb.Buffer TurtleDb.Table TurtleDb.Datatype

variable {δ : Type} [PageDisk δ]

/-- What comes of the rows that `init` keeps. A sort drops its entries, and has drained its child. -/
def stale : (p : Plan) → State δ p → Except Fault (List Row)
  | .values _, _ => .ok []
  | .seqScan _, _ => .ok []
  | .filter predicate child, s => do
      let rest ← stale child s.child
      emits (FilterExecutor.pick predicate) (FilterExecutor.waiting s ++ rest)
  | .projection plan child, s => do
      let rest ← stale child s.child
      emits (ProjectionExecutor.pick plan) (FilterExecutor.waiting s ++ rest)
  | .sort _ _, _ => .ok []

/-- The rows of the pipeline, with all tuples read at once. -/
def Gives (catalog : Nat → Option TableHeap) (sort : Sorter Fault SortEntry)
    (b : BufferPoolManager δ) : Plan → List Row → Prop
  | .values plan, out => ValuesExecutor.rowsFrom plan 0 = .ok out
  | .seqScan plan, out => ∃ h fuel b', catalog plan.tableOid = some h ∧
      h.scan fuel b = .ok (out.map Prod.swap, b')
  | .filter predicate child, out => ∃ rows, Gives catalog sort b child rows ∧
      emits (FilterExecutor.pick predicate) rows = .ok out
  | .projection plan child, out => ∃ rows, Gives catalog sort b child rows ∧
      emits (ProjectionExecutor.pick plan) rows = .ok out
  | .sort orderBys child, out => ∃ rows entries sorted, Gives catalog sort b child rows ∧
      rows.mapM (SortExecutor.entry orderBys) = .ok entries ∧
      sort (SortComparator.apply orderBys) entries = .ok sorted ∧
      out = sorted.map SortEntry.row

/-- What the pipeline has still to give. -/
def Left (fuel : Nat) : (p : Plan) → State δ p → List Row → Prop
  | .values plan, (_, cursor), l => ValuesExecutor.rowsFrom plan cursor = .ok l
  | .seqScan _, (b, e), l => ∃ e', e = some e' ∧
      SeqScanExecutor.Visits fuel e'.tableHeap b e'.iter l
  | .filter predicate child, s, l =>
      FilterExecutor.Passing predicate (FilterExecutor.keeps predicate) (Left fuel child) fuel s l
  | .projection plan child, s, l =>
      ProjectionExecutor.Projecting plan (ProjectionExecutor.image plan) (Left fuel child) s l
  | .sort _ _, (_, s), l => l = (s.sortedEntries.drop s.cursor).map SortEntry.row

/-- The child of a sort has been drained. -/
def Settled : (p : Plan) → State δ p → Prop
  | .values _, _ => True
  | .seqScan _, _ => True
  | .filter _ child, s => Settled child s.child
  | .projection _ child, s => Settled child s.child
  | .sort _ child, (c, _) => Settled child c ∧ stale child c = .ok []

variable {catalog : Nat → Option TableHeap} {sort : Sorter Fault SortEntry} {fuel fuel' : Nat}
  {p : Plan} {b : BufferPoolManager δ} {s s' : State δ p} {out rows l : List Row}

/-! ## Reading on -/

theorem next_seqScan {plan : SeqScanPlanNode} {st st' : State δ (.seqScan plan)} {n : Nat}
    {batch : Option (List Row)} (h : next fuel (.seqScan plan) st n = .ok (batch, st')) :
    ∃ e e', st.2 = some e ∧ st'.2 = some e' ∧
      SeqScanExecutor.next fuel (st.1, e) n = .ok (batch, (st'.1, e')) := by
  obtain ⟨b, e⟩ := st
  cases e with
  | none => cases h
  | some e =>
      obtain ⟨⟨batch', b', e'⟩, hnext, h⟩ := bind_eq_ok.mp h
      cases h
      exact ⟨e, e', rfl, rfl, hnext⟩

theorem orderly (p : Plan) : Orderly (next fuel p : AbstractExecutor (State δ p)) := by
  induction p with
  | values plan => exact ValuesExecutor.orderly.beside
  | seqScan plan =>
      have ho : Orderly (SeqScanExecutor.next fuel : AbstractExecutor
          (BufferPoolManager δ × SeqScanExecutor)) := SeqScanExecutor.orderly
      constructor
      · intro st n rows st' hn h
        obtain ⟨e, e', -, -, hnext⟩ := next_seqScan h
        exact ho.ne_nil _ _ _ _ hn hnext
      · intro st n st' m rows st'' hn h hm h'
        obtain ⟨e, e', -, he', hnext⟩ := next_seqScan h
        obtain ⟨e₁, e₂, he₁, -, hnext'⟩ := next_seqScan h'
        cases he'.symm.trans he₁
        exact ho.sticky _ _ _ _ _ _ hn hnext hm hnext'
  | filter predicate child ih => exact (FilterExecutor.operates ih).orderly ih
  | projection plan child ih => exact (ProjectionExecutor.operates ih).orderly ih
  | sort orderBys child ih => exact SortExecutor.next_delivers.orderly.beside

theorem flows (p : Plan) :
    Flows (1 ≤ ·) (fun _ _ => True) (next fuel p : AbstractExecutor (State δ p)) (Left fuel p) := by
  induction p with
  | values plan => exact ValuesExecutor.flows.beside.mono (fun _ => id) fun _ _ _ => trivial
  | seqScan plan =>
      rintro ⟨b, e⟩ l n ⟨e, rfl, hv⟩ hn
      obtain ⟨batch, ⟨b', e'⟩, l', hnext, hv', hbatch⟩ :=
        (SeqScanExecutor.flows_visits fuel).mono (fun _ => id)
          (fun _ _ _ => trivial) (b, e) l n hv hn
      refine ⟨batch, (b', some e'), l', ?_, ⟨e', rfl, hv'⟩, hbatch⟩
      exact bind_eq_ok.mpr ⟨_, hnext, rfl⟩
  | filter predicate child ih => exact FilterExecutor.flows ih
  | projection plan child ih => exact ProjectionExecutor.flows ih
  | sort orderBys child ih =>
      exact SortExecutor.next_delivers.serves.beside.mono (fun _ => id) fun _ _ _ => trivial

/-! ## What a pipeline keeps -/

/-- At its end a pipeline has kept nothing. -/
theorem stale_of_end {n : Nat} (hn : 1 ≤ n) (h : next fuel p s n = .ok (none, s')) :
    stale p s' = .ok [] := by
  induction p generalizing n with
  | values plan => rfl
  | seqScan plan => rfl
  | filter predicate child ih =>
      obtain ⟨hwaiting, c, m, hm, hc⟩ := (FilterExecutor.operates (orderly child)).at_end hn h
      rw [stale, ih hm hc, ok_bind, hwaiting]
      rfl
  | projection plan child ih =>
      obtain ⟨hwaiting, c, m, hm, hc⟩ := (ProjectionExecutor.operates (orderly child)).at_end hn h
      rw [stale, ih hm hc, ok_bind, hwaiting]
      rfl
  | sort orderBys child ih => rfl

theorem Settled.next {n : Nat} {batch : Option (List Row)} (hs : Settled p s)
    (h : next fuel p s n = .ok (batch, s')) : Settled p s' := by
  induction p generalizing n batch with
  | values plan => trivial
  | seqScan plan => trivial
  | filter predicate child ih =>
      exact (FilterExecutor.operates (orderly child)).next_preserves
        (fun _ _ _ _ hc hchild => ih hc hchild) hs h
  | projection plan child ih =>
      exact (ProjectionExecutor.operates (orderly child)).next_preserves
        (fun _ _ _ _ hc hchild => ih hc hchild) hs h
  | sort orderBys child ih =>
      obtain ⟨⟨batch', s₁⟩, -, h⟩ := bind_eq_ok.mp h
      cases h
      exact hs

theorem Settled.init (hs : Settled p s) (h : init catalog sort fuel p s = .ok s') :
    Settled p s' := by
  induction p with
  | values plan => trivial
  | seqScan plan => trivial
  | filter predicate child ih =>
      obtain ⟨c, hc, h⟩ := bind_eq_ok.mp h
      cases h
      exact ih hs hc
  | projection plan child ih =>
      obtain ⟨c, hc, h⟩ := bind_eq_ok.mp h
      cases h
      exact ih hs hc
  | sort orderBys child ih =>
      obtain ⟨c, hc, h⟩ := bind_eq_ok.mp h
      obtain ⟨⟨entries, c'⟩, hdrain, h⟩ := bind_eq_ok.mp h
      obtain ⟨sorted, -, h⟩ := bind_eq_ok.mp h
      cases h
      obtain ⟨_, _, _, _, _, c₁, hend⟩ := SortExecutor.collect_ok hdrain
      exact ⟨SortExecutor.collect_preserves (fun _ _ _ _ hc hchild => Settled.next hc hchild)
        (ih hs.1 hc) hdrain, stale_of_end (by decide) hend⟩

omit [PageDisk δ] in
theorem stale_construct (b : BufferPoolManager δ) (p : Plan) :
    stale p (construct b p) = .ok [] := by
  induction p with
  | values plan => rfl
  | seqScan plan => rfl
  | filter predicate child ih =>
      rw [stale]
      show (stale child (construct b child) >>= _) = _
      rw [ih]
      rfl
  | projection plan child ih =>
      rw [stale]
      show (stale child (construct b child) >>= _) = _
      rw [ih]
      rfl
  | sort orderBys child ih => rfl

omit [PageDisk δ] in
theorem settled_construct (b : BufferPoolManager δ) (p : Plan) : Settled p (construct b p) := by
  induction p with
  | values plan => trivial
  | seqScan plan => trivial
  | filter predicate child ih => exact ih
  | projection plan child ih => exact ih
  | sort orderBys child ih => exact ⟨ih, stale_construct b child⟩

omit [PageDisk δ] in
theorem pool_construct (b : BufferPoolManager δ) (p : Plan) : pool p (construct b p) = b := by
  induction p with
  | values plan => rfl
  | seqScan plan => rfl
  | filter predicate child ih => exact ih
  | projection plan child ih => exact ih
  | sort orderBys child ih => exact ih

theorem Reached.settled (h : Reached catalog sort p s) : Settled p s := by
  induction h with
  | construct b => exact settled_construct b p
  | init _ hr ih => exact ih.init hr
  | next _ _ hr ih => exact ih.next hr

/-! ## Draining -/

theorem Gives.unique (h : Gives catalog sort b p out) {out' : List Row}
    (h' : Gives catalog sort b p out') : out = out' := by
  induction p generalizing out out' with
  | values plan => exact Except.ok.inj (h.symm.trans h')
  | seqScan plan =>
      obtain ⟨t, fuel, b₁, ht, hscan⟩ := h
      obtain ⟨t', fuel', b₂, ht', hscan'⟩ := h'
      cases ht.symm.trans ht'
      have hmax := TableHeap.scan_mono hscan (Nat.le_max_left fuel fuel')
      have hmax' := TableHeap.scan_mono hscan' (Nat.le_max_right fuel fuel')
      have hrows := congrArg Prod.fst (Except.ok.inj (hmax.symm.trans hmax'))
      exact List.map_injective_iff.mpr Prod.swap_injective hrows
  | filter predicate child ih =>
      obtain ⟨rows, hrows, hout⟩ := h
      obtain ⟨rows', hrows', hout'⟩ := h'
      cases ih hrows hrows'
      exact Except.ok.inj (hout.symm.trans hout')
  | projection plan child ih =>
      obtain ⟨rows, hrows, hout⟩ := h
      obtain ⟨rows', hrows', hout'⟩ := h'
      cases ih hrows hrows'
      exact Except.ok.inj (hout.symm.trans hout')
  | sort orderBys child ih =>
      obtain ⟨rows, entries, sorted, hrows, hentries, hsorted, rfl⟩ := h
      obtain ⟨rows', entries', sorted', hrows', hentries', hsorted', rfl⟩ := h'
      cases ih hrows hrows'
      cases hentries.symm.trans hentries'
      cases hsorted.symm.trans hsorted'
      rfl

theorem init_seqScan {plan : SeqScanPlanNode} {b b' : BufferPoolManager δ} {e : SeqScanExecutor}
    (h : plan.init fuel (catalog plan.tableOid) b = .ok (e, b')) :
    ∃ t, catalog plan.tableOid = some t ∧ ∃ it, t.start fuel b = .ok (it, b') ∧ e = ⟨t, it⟩ := by
  cases ht : catalog plan.tableOid with
  | none =>
      rw [ht] at h
      cases h
  | some t =>
      rw [ht] at h
      obtain ⟨⟨it, b₁⟩, hstart, h⟩ := bind_eq_ok.mp h
      cases h
      exact ⟨t, rfl, it, hstart, rfl⟩

theorem exhausts_seqScan {plan : SeqScanPlanNode} {st : State δ (.seqScan plan)}
    {e : SeqScanExecutor} (h : Exhausts (next fuel (.seqScan plan)) st out)
    (he : st.2 = some e) : Exhausts (SeqScanExecutor.next fuel) (st.1, e) out := by
  induction h generalizing e with
  | stop hn hnext =>
      obtain ⟨e₁, e', he₁, -, hnext⟩ := next_seqScan hnext
      cases he.symm.trans he₁
      exact .stop hn hnext
  | batch hn hnext _ ih =>
      obtain ⟨e₁, e', he₁, he', hnext⟩ := next_seqScan hnext
      cases he.symm.trans he₁
      exact .batch hn hnext (ih he')

/-- What is drained after `init` comes of what was kept, and then of the data. -/
theorem gives_of_exhausts (hs : Settled p s) (hi : init catalog sort fuel p s = .ok s')
    (h : Exhausts (next fuel p) s' out) :
    ∃ old new, stale p s = .ok old ∧ Gives catalog sort (pool p s) p new ∧ out = old ++ new := by
  induction p generalizing out with
  | values plan =>
      cases hi
      exact ⟨[], out, rfl, ValuesExecutor.rowsFrom_of_exhausts h.of_beside, rfl⟩
  | seqScan plan =>
      obtain ⟨⟨e, b'⟩, hinit, hi⟩ := bind_eq_ok.mp hi
      cases hi
      obtain ⟨t, ht, it, hstart, rfl⟩ := init_seqScan hinit
      have hv := SeqScanExecutor.Visits.of_exhausts (exhausts_seqScan h rfl)
      obtain ⟨fuel', b'', hscan⟩ := SeqScanExecutor.scan_iff_visits.mpr ⟨fuel, it, b', hstart, hv⟩
      exact ⟨[], out, rfl, ⟨t, fuel', b'', ht, hscan⟩, rfl⟩
  | filter predicate child ih =>
      obtain ⟨c, hc, hi⟩ := bind_eq_ok.mp hi
      cases hi
      obtain ⟨rest, hrest, hout⟩ := (FilterExecutor.operates (orderly child)).exhausts_child h
      obtain ⟨old, new, hold, hnew, rfl⟩ := ih hs hc hrest
      rw [← List.append_assoc] at hout
      obtain ⟨l, l', hl, hl', rfl⟩ := emits_append.mp hout
      refine ⟨l, l', ?_, ⟨new, hnew, hl'⟩, rfl⟩
      rw [stale, hold]
      exact hl
  | projection plan child ih =>
      obtain ⟨c, hc, hi⟩ := bind_eq_ok.mp hi
      cases hi
      obtain ⟨rest, hrest, hout⟩ := (ProjectionExecutor.operates (orderly child)).exhausts_child h
      obtain ⟨old, new, hold, hnew, rfl⟩ := ih hs hc hrest
      rw [← List.append_assoc] at hout
      obtain ⟨l, l', hl, hl', rfl⟩ := emits_append.mp hout
      refine ⟨l, l', ?_, ⟨new, hnew, hl'⟩, rfl⟩
      rw [stale, hold]
      exact hl
  | sort orderBys child ih =>
      obtain ⟨c, hc, hi⟩ := bind_eq_ok.mp hi
      obtain ⟨⟨entries, c'⟩, hdrain, hi⟩ := bind_eq_ok.mp hi
      obtain ⟨sorted, hsorted, hi⟩ := bind_eq_ok.mp hi
      cases hi
      obtain ⟨rows, new, hrows, hnew, hentries, -⟩ := SortExecutor.collect_ok hdrain
      obtain ⟨old, rest, hold, hrest, rfl⟩ := ih hs.1 hc hrows
      cases hs.2.symm.trans hold
      cases hentries
      refine ⟨[], _, rfl, ⟨rest, _, sorted, hrest, hnew, hsorted, rfl⟩, ?_⟩
      exact SortExecutor.next_delivers.serves.beside.exhausts_eq rfl h

/-- With enough fuel `init` returns, and everything is still to come. -/
theorem init_left (hs : Settled p s) {old new : List Row} (hold : stale p s = .ok old)
    (hnew : Gives catalog sort (pool p s) p new) :
    ∃ least, ∀ fuel, least ≤ fuel →
      ∃ s', init catalog sort fuel p s = .ok s' ∧ Left fuel p s' (old ++ new) := by
  induction p generalizing old new with
  | values plan =>
      cases hold
      exact ⟨0, fun fuel _ => ⟨(s.1, 0), rfl, hnew⟩⟩
  | seqScan plan =>
      cases hold
      obtain ⟨t, fuel, b', ht, hscan⟩ := hnew
      obtain ⟨least, it, b₁, hstart, steps, b₂, hvisit⟩ :=
        SeqScanExecutor.scan_iff_visits.mp ⟨fuel, b', hscan⟩
      refine ⟨least, fun fuel hle => ⟨(b₁, some ⟨t, it⟩), ?_, ⟨t, it⟩, rfl, steps, b₂, ?_⟩⟩
      · have hinit : plan.init fuel (catalog plan.tableOid) s.1 = .ok (⟨t, it⟩, b₁) := by
          rw [ht]
          exact bind_eq_ok.mpr ⟨_, TableHeap.start_mono hstart hle, rfl⟩
        exact bind_eq_ok.mpr ⟨_, hinit, rfl⟩
      · exact TableHeap.visit_mono hvisit hle (Nat.le_refl _)
  | filter predicate child ih =>
      obtain ⟨rest, hrest, hold⟩ := bind_eq_ok.mp hold
      obtain ⟨rows, hrows, hnew⟩ := hnew
      obtain ⟨least, hleft⟩ := ih hs hrest hrows
      refine ⟨max least ((rest ++ rows).length + 1), fun fuel hle => ?_⟩
      obtain ⟨c, hc, hl⟩ := hleft fuel (Nat.le_trans (Nat.le_max_left ..) hle)
      refine ⟨{ s with child := c }, bind_eq_ok.mpr ⟨c, hc, rfl⟩, ?_⟩
      refine FilterExecutor.Passing.of_emits hl (Nat.le_trans (Nat.le_max_right ..) hle) ?_
      rw [← List.append_assoc]
      exact emits_append.mpr ⟨old, new, hold, hnew, rfl⟩
  | projection plan child ih =>
      obtain ⟨rest, hrest, hold⟩ := bind_eq_ok.mp hold
      obtain ⟨rows, hrows, hnew⟩ := hnew
      obtain ⟨least, hleft⟩ := ih hs hrest hrows
      refine ⟨least, fun fuel hle => ?_⟩
      obtain ⟨c, hc, hl⟩ := hleft fuel hle
      refine ⟨{ s with child := c }, bind_eq_ok.mpr ⟨c, hc, rfl⟩, ?_⟩
      refine ProjectionExecutor.Projecting.of_emits hl ?_
      rw [← List.append_assoc]
      exact emits_append.mpr ⟨old, new, hold, hnew, rfl⟩
  | sort orderBys child ih =>
      cases hold
      obtain ⟨rows, entries, sorted, hrows, hentries, hsorted, rfl⟩ := hnew
      obtain ⟨least, hleft⟩ := ih hs.1 hs.2 hrows
      refine ⟨max least (rows.length + 1), fun fuel hle => ?_⟩
      obtain ⟨c, hc, hl⟩ := hleft fuel (Nat.le_trans (Nat.le_max_left ..) hle)
      obtain ⟨c', hdrain⟩ : ∃ c', SortExecutor.collect (next fuel child) orderBys fuel c [] =
          .ok ([] ++ entries, c') :=
        SortExecutor.collect_of_flows (flows child) hl hentries
          (Nat.le_trans (Nat.le_max_right ..) hle)
      refine ⟨(c', ⟨sorted, 0⟩), bind_eq_ok.mpr ⟨c, hc, ?_⟩, rfl⟩
      exact bind_eq_ok.mpr ⟨_, hdrain, bind_eq_ok.mpr ⟨sorted, hsorted, rfl⟩⟩

theorem Drains.gives (hs : Settled p s) {size : Nat → Nat} (hsize : ∀ i, 1 ≤ size i)
    (h : Drains catalog sort p s size out) :
    ∃ old new, stale p s = .ok old ∧ Gives catalog sort (pool p s) p new ∧ out = old ++ new := by
  obtain ⟨fuel, s', hi, hy⟩ := h
  exact gives_of_exhausts hs hi (hy.exhausts hsize)

theorem Drains.of_gives (hs : Settled p s) {old new : List Row} (hold : stale p s = .ok old)
    (hnew : Gives catalog sort (pool p s) p new) {size : Nat → Nat} (hsize : ∀ i, 1 ≤ size i) :
    Drains catalog sort p s size (old ++ new) := by
  obtain ⟨least, hleft⟩ := init_left hs hold hnew
  obtain ⟨s', hi, hl⟩ := hleft least (Nat.le_refl _)
  exact ⟨least, s', hi, (flows p).yields hl hsize⟩

/-- If a new copy over the same data can be drained, the pipeline gives the same rows when it is
started again exactly if nothing comes of the rows that it has kept. -/
theorem restarts_iff (catalog : Nat → Option TableHeap) (sort : Sorter Fault SortEntry) (p : Plan)
    (s : State δ p) (hr : Reached catalog sort p s)
    (hd : ∃ size out, (∀ i, 1 ≤ size i) ∧
      Drains catalog sort p (construct (pool p s) p) size out) :
    (∀ size out, (∀ i, 1 ≤ size i) → Drains catalog sort p (construct (pool p s) p) size out →
        Drains catalog sort p s size out) ↔
      stale p s = .ok [] := by
  have hnew : ∀ size out, (∀ i, 1 ≤ size i) →
      Drains catalog sort p (construct (pool p s) p) size out →
        Gives catalog sort (pool p s) p out := by
    intro size out hsize h
    obtain ⟨old, new, hold, hgives, rfl⟩ := h.gives (settled_construct _ p) hsize
    rw [stale_construct] at hold
    cases hold
    rwa [pool_construct] at hgives
  constructor
  · intro h
    obtain ⟨size, out, hsize, hdrains⟩ := hd
    obtain ⟨old, new, hold, hgives, hout⟩ := (h size out hsize hdrains).gives hr.settled hsize
    rw [hgives.unique (hnew size out hsize hdrains)] at hout
    rw [hold, List.self_eq_append_left.mp hout]
  · intro h size out hsize hdrains
    exact Drains.of_gives hr.settled h (hnew size out hsize hdrains) hsize

/-! ## Four flags -/

/-- The rows `false`, `true`, `true`, `true`. -/
def flagValues : ValuesPlanNode where
  outputSchema := [⟨"flag", .boolean, 1⟩]
  values := [0, 1, 1, 1].map fun b => [.ok (Value.ofInt8 .boolean b)]

/-- `SELECT * FROM (VALUES …) WHERE flag`. -/
def flags : Plan := .filter (some flag) (.values flagValues)

def trueRow : Row := (⟨[0, 1], .invalid⟩, .invalid)

section
variable (b : BufferPoolManager Disk.PageMap)

/-- After `init` and one call for a batch of `n`. -/
theorem reached_flags {n : Nat} {batch : Option (List Row)} {s : State Disk.PageMap flags}
    (hn : 1 ≤ n) (h : next 4 flags (construct b flags) n = .ok (batch, s)) :
    Reached (fun _ => none) (fun _ l => .ok l) flags s :=
  .next (.init (.construct b)
    (rfl : init (fun _ => none) (fun _ l => .ok l) 4 flags (construct b flags) = _)) hn h

theorem gives_flags :
    Gives (fun _ => none) (fun _ l => .ok l) b flags [trueRow, trueRow, trueRow] :=
  ⟨[(⟨[0, 0], .invalid⟩, .invalid), trueRow, trueRow, trueRow], rfl, rfl⟩

theorem drains_flags :
    Drains (fun _ => none) (fun _ l => .ok l) flags (construct b flags) (fun _ => 1)
      [trueRow, trueRow, trueRow] :=
  Drains.of_gives (settled_construct b flags) (stale_construct b flags) (gives_flags b)
    fun _ => Nat.le_refl 1

end

/-- With a batch of three everything was given. -/
theorem restarts_iff_flags : ∃ s : State Disk.PageMap flags,
    Reached (fun _ => none) (fun _ l => .ok l) flags s ∧
      ∀ size out, (∀ i, 1 ≤ size i) →
        Drains (fun _ => none) (fun _ l => .ok l) flags (construct (pool flags s) flags) size out →
          Drains (fun _ => none) (fun _ l => .ok l) flags s size out := by
  have hr := reached_flags (.create 1 Disk.PageMap.zero) (show 1 ≤ 3 by decide) rfl
  exact ⟨_, hr, (restarts_iff _ _ _ _ hr ⟨fun _ => 1, _, fun _ => Nat.le_refl 1,
    drains_flags (.create 1 Disk.PageMap.zero)⟩).mpr rfl⟩

/-- After a batch of two the third `true` waits. Started again, the filter gives it first. -/
theorem not_restarts_flags : ∃ s : State Disk.PageMap flags,
    Reached (fun _ => none) (fun _ l => .ok l) flags s ∧
      Drains (fun _ => none) (fun _ l => .ok l) flags (construct (pool flags s) flags) (fun _ => 1)
        [trueRow, trueRow, trueRow] ∧
      Drains (fun _ => none) (fun _ l => .ok l) flags s (fun _ => 1)
        [trueRow, trueRow, trueRow, trueRow] ∧
      ¬ ∀ size out, (∀ i, 1 ≤ size i) →
        Drains (fun _ => none) (fun _ l => .ok l) flags (construct (pool flags s) flags) size out →
          Drains (fun _ => none) (fun _ l => .ok l) flags s size out := by
  have hr := reached_flags (.create 1 Disk.PageMap.zero) (show 1 ≤ 2 by decide) rfl
  have hone : ∀ _ : Nat, 1 ≤ 1 := fun _ => Nat.le_refl 1
  have hdrains := drains_flags (.create 1 Disk.PageMap.zero)
  refine ⟨_, hr, hdrains,
    Drains.of_gives hr.settled (rfl : _ = Except.ok [trueRow]) (gives_flags _) hone, fun h => ?_⟩
  obtain ⟨old, new, hold, hnew, hout⟩ := (h _ _ hone hdrains).gives hr.settled hone
  cases hold
  cases hnew.unique (gives_flags _)
  cases hout

end TurtleDb.Execution.Plan
