import TurtleDb.Execution.Filter
import TurtleDb.Execution.SeqScan

/-!
# A predicate in the plan of a scan

A `SeqScanPlanNode` can carry a predicate, and its text shows it. The executor that is made from the
plan never looks at it, so the scan gives the rows that a filter would drop.
-/

namespace TurtleDb.Execution

open TurtleDb.Lib TurtleDb.Buffer TurtleDb.Table TurtleDb.Table.HeapState TurtleDb.Datatype

/-- `execution/plans/seq_scan_plan.hpp`. -/
structure SeqScanPlanNode where
  tableOid : Nat
  filterPredicate : Option (Tuple → Except Fault Value)

namespace SeqScanPlanNode

variable {δ : Type} [PageDisk δ]

/-- `init` of the executor with this plan, of which it reads the table OID. -/
def init (plan : SeqScanPlanNode) (fuel : Nat) (info : Option TableHeap)
    (b : BufferPoolManager δ) : Except Fault (SeqScanExecutor × BufferPoolManager δ) :=
  SeqScanExecutor.init fuel plan.tableOid info b

/-- `next` of the executor with this plan, of which it reads nothing. -/
def next (_plan : SeqScanPlanNode) (fuel : Nat) :
    AbstractExecutor (BufferPoolManager δ × SeqScanExecutor) := SeqScanExecutor.next fuel

/-- Draining the scan gives `out`. -/
def Drains (plan : SeqScanPlanNode) (fuel : Nat) (h : TableHeap) (b : BufferPoolManager δ)
    (size : Nat → Nat) (out : List Row) : Prop :=
  ∃ e b', plan.init fuel (some h) b = .ok (e, b') ∧ Yields (plan.next fuel) size (b', e) out

/-- Draining a filter with the predicate, over a scan without one, gives `out`. -/
def DrainsFilter (plan : SeqScanPlanNode) (fuel : Nat) (h : TableHeap) (b : BufferPoolManager δ)
    (size : Nat → Nat) (out : List Row) : Prop :=
  ∃ e b', { plan with filterPredicate := none }.init fuel (some h) b = .ok (e, b') ∧
    Yields (FilterExecutor.next plan.filterPredicate
      ({ plan with filterPredicate := none }.next fuel) fuel) size
      (FilterExecutor.start (b', e)) out

theorem Drains.unique {plan : SeqScanPlanNode} {fuel : Nat} {h : TableHeap}
    {b : BufferPoolManager δ} {size : Nat → Nat} {out out' : List Row}
    (hd : plan.Drains fuel h b size out) (hd' : plan.Drains fuel h b size out') : out = out' := by
  obtain ⟨e, b', he, hyields⟩ := hd
  obtain ⟨e', b'', he', hyields'⟩ := hd'
  cases he.symm.trans he'
  exact hyields.unique hyields'

theorem DrainsFilter.unique {plan : SeqScanPlanNode} {fuel : Nat} {h : TableHeap}
    {b : BufferPoolManager δ} {size : Nat → Nat} {out out' : List Row}
    (hd : plan.DrainsFilter fuel h b size out) (hd' : plan.DrainsFilter fuel h b size out') :
    out = out' := by
  obtain ⟨e, b', he, hyields⟩ := hd
  obtain ⟨e', b'', he', hyields'⟩ := hd'
  cases he.symm.trans he'
  exact hyields.unique hyields'

variable [LawfulPageDisk δ] {file : FileId} {s : HeapState δ} {store : PageKey → Option PageData}
  {l : Pages}

/-- The rows of a scan are the live tuples. -/
theorem mem_rows_iff (hs : Holds file s store l) {row : Row} :
    row ∈ (PagedTable.entries l.contents).map SeqScanExecutor.entryRow ↔
      ∃ rid data, s.map rid = some data ∧ row = (⟨data, .invalid⟩, rid) := by
  simp only [hs.map, List.mem_map]
  constructor
  · rintro ⟨⟨⟨i, k⟩, data⟩, hmem, rfl⟩
    exact ⟨⟨i, k⟩, data, (PagedTable.mem_entries_iff hs.nodup).mp hmem, rfl⟩
  · rintro ⟨rid, data, hdata, rfl⟩
    exact ⟨((rid.pageId, rid.slotNum), data), (PagedTable.mem_entries_iff hs.nodup).mpr hdata, rfl⟩

/-- In a table that can be read, both are drained. -/
theorem exists_drains (hs : Holds file s store l) (hcan : CanRead file s) (plan : SeqScanPlanNode)
    {keep : Row → Bool} (hkeep : ∀ row ∈ (PagedTable.entries l.contents).map
      SeqScanExecutor.entryRow, FilterExecutor.passes plan.filterPredicate row.1 = .ok (keep row))
    {size : Nat → Nat} (hsize : ∀ i, 1 ≤ size i) :
    plan.Drains (stepBound file s) s.heap s.pool size
        ((PagedTable.entries l.contents).map SeqScanExecutor.entryRow) ∧
      plan.DrainsFilter (stepBound file s) s.heap s.pool size
        (((PagedTable.entries l.contents).map SeqScanExecutor.entryRow).filter keep) := by
  have hlen := hs.entries_le
  have hpages := hs.pageCount_eq
  have hfuel : l.length < stepBound file s := by
    rw [stepBound]
    omega
  have hrows : ((PagedTable.entries l.contents).map SeqScanExecutor.entryRow).length <
      stepBound file s := by
    rw [List.length_map, stepBound]
    omega
  obtain ⟨e, b, he, hleaves⟩ := SeqScanExecutor.init_leaves plan.tableOid hs hcan hfuel
  refine ⟨⟨e, b, he, (SeqScanExecutor.serves hfuel).yields hleaves hsize⟩, e, b, he, ?_⟩
  exact (FilterExecutor.flows (SeqScanExecutor.serves hfuel)).yields (.start hleaves hrows hkeep)
    hsize

/-- The scan with the predicate and the filter over a scan give the same rows exactly when the table
can be read and the predicate is true on all of it. -/
theorem pushdown_iff (file : FileId) (s : HeapState δ) (hr : Reachable file s)
    (plan : SeqScanPlanNode)
    (hp : ∀ rid data, s.map rid = some data →
      ∃ pass, FilterExecutor.passes plan.filterPredicate ⟨data, .invalid⟩ = .ok pass)
    (size : Nat → Nat) (hsize : ∀ i, 1 ≤ size i) :
    (∃ out, plan.Drains (stepBound file s) s.heap s.pool size out ∧
        plan.DrainsFilter (stepBound file s) s.heap s.pool size out) ↔
      CanRead file s ∧ ∀ rid data, s.map rid = some data →
        FilterExecutor.passes plan.filterPredicate ⟨data, .invalid⟩ = .ok true := by
  obtain ⟨store, l, hs⟩ := hr.holds
  have hdecides : ∀ row ∈ (PagedTable.entries l.contents).map SeqScanExecutor.entryRow,
      ∃ pass, FilterExecutor.passes plan.filterPredicate row.1 = .ok pass := by
    intro row hrow
    obtain ⟨rid, data, hdata, rfl⟩ := (mem_rows_iff hs).mp hrow
    exact hp rid data hdata
  choose! keep hkeep using hdecides
  constructor
  · rintro ⟨out, hdrains, hfilter⟩
    have hcan : CanRead file s := by
      by_contra hcan
      obtain ⟨hfull, pre, j, p, post, rfl, hnone⟩ := hs.exists_blocked hcan
      obtain ⟨e, b, he, hyields⟩ := hdrains
      exact SeqScanExecutor.init_blocked hs hfull hnone he hsize hyields
    obtain ⟨hdrains', hfilter'⟩ := exists_drains hs hcan plan hkeep hsize
    have hall := (hdrains.unique hdrains').symm.trans (hfilter.unique hfilter')
    refine ⟨hcan, fun rid data hdata => ?_⟩
    have hmem := (mem_rows_iff hs).mpr ⟨rid, data, hdata, rfl⟩
    have hpass := List.of_mem_filter (hall ▸ hmem)
    rw [← hpass]
    exact hkeep _ hmem
  · rintro ⟨hcan, hall⟩
    obtain ⟨hdrains, hfilter⟩ := exists_drains hs hcan plan hkeep hsize
    refine ⟨_, hdrains, ?_⟩
    rwa [List.filter_eq_self.mpr] at hfilter
    intro row hrow
    obtain ⟨rid, data, hdata, rfl⟩ := (mem_rows_iff hs).mp hrow
    exact Except.ok.inj ((hkeep _ hrow).symm.trans (hall rid data hdata))

/-! ## One column of flags -/

/-- `SELECT * WHERE flag`, with the predicate in the scan. -/
def flagPlan : SeqScanPlanNode where
  tableOid := 0
  filterPredicate := some fun tuple => tuple.value [⟨"flag", .boolean, 1⟩] 0

theorem exists_flag (b : UInt8) : ∃ (s : HeapState Disk.PageMap) (store : _) (l : Pages),
    Reachable 0 s ∧ CanRead 0 s ∧ Holds 0 s store l ∧
      (PagedTable.entries l.contents).map SeqScanExecutor.entryRow =
        [(⟨[0, b], .invalid⟩, ⟨0, 0⟩)] := by
  have hfits : Page.SlottedPage.Fits [] [0, b].length := (by decide : Page.SlottedPage.Fits [] 2)
  obtain ⟨s₀, h₀⟩ := exists_led 0
  obtain ⟨s, h⟩ := Led.insert [] [0, b] [(0, [some [0, b]])] h₀ (Nat.succ_pos 1)
    (by decide : 2 ≤ 4064) (fun hno => absurd hfits hno) (.inl hfits) (if_pos hfits).symm trivial
  obtain ⟨store, l, hs, hl⟩ := h.holds
  obtain ⟨f, g, ho, _⟩ := h.two
  refine ⟨s, store, l, h.reachable, .inl (hs.sharing.pool.not_full_iff.mpr ⟨f, ho⟩), hs, ?_⟩
  rw [hl]
  rfl

theorem pushdown_iff_flag : ∃ s : HeapState Disk.PageMap, Reachable 0 s ∧ s.map ⟨0, 0⟩ ≠ none ∧
    ∃ out, flagPlan.Drains (stepBound 0 s) s.heap s.pool (fun _ => 1) out ∧
      flagPlan.DrainsFilter (stepBound 0 s) s.heap s.pool (fun _ => 1) out := by
  obtain ⟨s, store, l, hr, hcan, hs, hrows⟩ := exists_flag 1
  have hmap : ∀ rid data, s.map rid = some data ↔ data = [0, 1] ∧ rid = ⟨0, 0⟩ := by
    intro rid data
    have hmem : ((⟨data, .invalid⟩, rid) : Row) ∈ _ ↔ _ := mem_rows_iff hs
    rw [hrows, List.mem_singleton] at hmem
    simpa using hmem.symm
  have hpass : ∀ rid data, s.map rid = some data →
      FilterExecutor.passes flagPlan.filterPredicate ⟨data, .invalid⟩ = .ok true := by
    intro rid data hdata
    rw [((hmap rid data).mp hdata).1]
    rfl
  refine ⟨s, hr, ?_, (pushdown_iff 0 s hr flagPlan (fun rid data hdata =>
    ⟨true, hpass rid data hdata⟩) _ fun _ => Nat.le_refl 1).mpr ⟨hcan, hpass⟩⟩
  rw [(hmap _ _).mpr ⟨rfl, rfl⟩]
  exact Option.some_ne_none _

/-- The flag of the only tuple is false. The scan gives the tuple, and the filter does not. -/
theorem not_pushdown_flag : ∃ s : HeapState Disk.PageMap, Reachable 0 s ∧ CanRead 0 s ∧
    flagPlan.Drains (stepBound 0 s) s.heap s.pool (fun _ => 1) [(⟨[0, 0], .invalid⟩, ⟨0, 0⟩)] ∧
    flagPlan.DrainsFilter (stepBound 0 s) s.heap s.pool (fun _ => 1) [] ∧
    ¬ ∃ out, flagPlan.Drains (stepBound 0 s) s.heap s.pool (fun _ => 1) out ∧
      flagPlan.DrainsFilter (stepBound 0 s) s.heap s.pool (fun _ => 1) out := by
  obtain ⟨s, store, l, hr, hcan, hs, hrows⟩ := exists_flag 0
  have hkeep : ∀ row ∈ (PagedTable.entries l.contents).map SeqScanExecutor.entryRow,
      FilterExecutor.passes flagPlan.filterPredicate row.1 = .ok ((fun _ => false) row) := by
    intro row hrow
    rw [hrows, List.mem_singleton] at hrow
    rw [hrow]
    rfl
  obtain ⟨hdrains, hfilter⟩ := exists_drains hs hcan flagPlan hkeep fun _ => Nat.le_refl 1
  rw [hrows] at hdrains hfilter
  refine ⟨s, hr, hcan, hdrains, hfilter, ?_⟩
  rintro ⟨out, hdrains', hfilter'⟩
  cases (hdrains.unique hdrains').trans (hfilter'.unique hfilter)

end SeqScanPlanNode

end TurtleDb.Execution
