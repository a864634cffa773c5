import TurtleDb.Execution.AbstractExecutor
import TurtleDb.Table.Lemmas.Led
import TurtleDb.Table.Room
import TurtleDb.Table.ScanRuns

/-!
# Sequential scans

`execution/executors/seq_scan_executor.{hpp,cpp}`. What the catalog answers for the table OID of the
plan is an argument of `init`. The pool belongs to the state of the executor.
-/

namespace TurtleDb.Execution

open TurtleDb.Lib TurtleDb.Buffer TurtleDb.Buffer.BufferPoolManager TurtleDb.Page TurtleDb.Table
open TurtleDb.Table.HeapState

structure SeqScanExecutor where
  tableHeap : TableHeap
  iter : TableIterator

namespace SeqScanExecutor

variable {δ : Type} [PageDisk δ]

def init (fuel tableOid : Nat) (info : Option TableHeap) (b : BufferPoolManager δ) :
    Except Fault (SeqScanExecutor × BufferPoolManager δ) :=
  match info with
  | none => .error (.raised ("SeqScanExecutor: unknown table oid " ++ toString tableOid))
  | some tableHeap => do
      let (iter, b) ← tableHeap.start fuel b
      return ({ tableHeap, iter }, b)

/-- The loop of `next`, with what is left of the batch size. -/
def fill (fuel : Nat) (h : TableHeap) : Nat → BufferPoolManager δ → TableIterator →
    Except Fault (List Row × TableIterator × BufferPoolManager δ)
  | 0, b, it => .ok ([], it, b)
  | left + 1, b, it =>
      if it.currentId = TableHeap.finish then .ok ([], it, b)
      else do
        let (it', b) ← it.increment fuel h b
        let (rows, it', b) ← fill fuel h left b it'
        return ((it.currentTuple, it.currentId) :: rows, it', b)

def next (fuel : Nat) : AbstractExecutor (BufferPoolManager δ × SeqScanExecutor) :=
  fun (b, e) batchSize => do
    let (batch, iter, b) ← fill fuel e.tableHeap batchSize b e.iter
    return (if batch.isEmpty then none else some batch, (b, { e with iter }))

variable [LawfulPageDisk δ]

/-- The runs of the executor, with the rows it has given, in which it never asks for a page that
cannot be read. -/
inductive Draining (file : FileId) (s : HeapState δ) (fuel : Nat) :
    Shared δ → SeqScanExecutor → List Row → Prop where
  | init {tableOid e b} (hserved : Served s.pool file 1 ⟨s.heap.firstPageId, 0⟩)
      (hr : init fuel tableOid (some s.heap) s.pool = .ok (e, b)) :
      Draining file s fuel { s.toShared with pool := b } e []
  | others {t t' e rows} (h : Draining file s fuel t e rows) (ho : Others file t t') :
      Draining file s fuel t' e rows
  | next {t e rows batchSize batch e' b} (h : Draining file s fuel t e rows)
      (hserved : Served t.pool file batchSize
        ⟨e.iter.currentId.pageId, add32 e.iter.currentId.slotNum 1⟩)
      (hr : next fuel (t.pool, e) batchSize = .ok (some batch, (b, e'))) :
      Draining file s fuel { t with pool := b } e' (rows ++ batch)

omit [LawfulPageDisk δ] in
/-- What was given is live. A call gives more, or answers `false` when this is everything. -/
def GoesOn (file : FileId) (s : HeapState δ) (fuel : Nat) (t : Shared δ) (e : SeqScanExecutor)
    (given : List Row) : Prop :=
  s.Genuine (given.map Prod.swap) ∧ given.length ≤ s.slotCount file ∧
    ∀ batchSize, 1 ≤ batchSize → Served t.pool file batchSize
        ⟨e.iter.currentId.pageId, add32 e.iter.currentId.slotNum 1⟩ →
      ∃ batch b e', next fuel (t.pool, e) batchSize = .ok (batch, (b, e')) ∧
        match batch with
        | some batch => batch ≠ [] ∧ batch.length ≤ batchSize
        | none => ∀ rid, s.map rid ≠ none → rid ∈ given.map Prod.snd

variable {file : FileId} {s : HeapState δ} {store : PageKey → Option PageData}
  {l : Pages} {h : TableHeap} {t t' : Shared δ} {b : BufferPoolManager δ} {it : TableIterator}
  {e : SeqScanExecutor} {rows rest : List Entry} {fuel n k : Nat}

/-! ## One call -/

def entryRow (e : Entry) : Row := (e.tuple, e.rid)

theorem swap_entryRow (rows : List Entry) :
    (rows.map entryRow).map Prod.swap = rows.map Entry.row := by
  rw [List.map_map]
  rfl

/-- The loop takes the entries ahead, until the batch is full or there are no more. -/
theorem fill_stands (hs : Stands file h l t it rows rest store) (hfuel : l.length < fuel)
    (hserved : Served t.pool file k ⟨it.currentId.pageId, add32 it.currentId.slotNum 1⟩)
    (hk : min n rest.length ≤ k) :
    ∃ it' b, fill fuel h n t.pool it = .ok ((rest.take n).map entryRow, it', b) ∧
      Stands file h l { t with pool := b } it' (rows ++ rest.take n) (rest.drop n) store ∧
      Served b file (k - min n rest.length)
        ⟨it'.currentId.pageId, add32 it'.currentId.slotNum 1⟩ := by
  induction n generalizing t it rows rest k with
  | zero =>
      refine ⟨it, t.pool, rfl, ?_, ?_⟩
      · rw [List.take_zero, List.append_nil]
        exact hs
      · rwa [Nat.zero_min]
  | succ n ih =>
      cases rest with
      | nil =>
          refine ⟨it, t.pool, by rw [fill, if_pos (hs.reads.finished rfl)]; rfl, ?_, hserved⟩
          rw [List.take_nil, List.append_nil]
          exact hs
      | cons entry rest =>
          rw [List.length_cons, Nat.succ_min_succ] at hk ⊢
          obtain ⟨k, rfl⟩ := Nat.exists_eq_add_of_lt (Nat.lt_of_lt_of_le (Nat.succ_pos _) hk)
          rw [Nat.zero_add] at hserved hk ⊢
          obtain ⟨hid, htuple⟩ := hs.reads.current entry rest rfl
          obtain ⟨it₁, b₁, he₁, hs₁, hserved₁⟩ := hs.increment hfuel hserved
          obtain ⟨it', b, he, hs', hserved'⟩ := ih hs₁ hserved₁ (Nat.le_of_succ_le_succ hk)
          refine ⟨it', b, ?_, ?_, ?_⟩
          · rw [fill, if_neg hs.ne_finish, he₁, ok_bind]
            simp only [he, ok_bind, hid, htuple]
            rfl
          · rw [List.append_assoc] at hs'
            exact hs'
          · rwa [Nat.succ_sub_succ]

theorem next_stands (hs : Stands file e.tableHeap l t e.iter rows rest store)
    (hfuel : l.length < fuel)
    (hserved : Served t.pool file k ⟨e.iter.currentId.pageId, add32 e.iter.currentId.slotNum 1⟩)
    (hk : min n rest.length ≤ k) :
    ∃ it' b, next fuel (t.pool, e) n =
        .ok (if (rest.take n).isEmpty then none else some ((rest.take n).map entryRow),
          (b, { e with iter := it' })) ∧
      Stands file e.tableHeap l { t with pool := b } it' (rows ++ rest.take n) (rest.drop n) store ∧
      Served b file (k - min n rest.length)
        ⟨it'.currentId.pageId, add32 it'.currentId.slotNum 1⟩ := by
  obtain ⟨it', b, he, hs', hserved'⟩ := fill_stands hs hfuel hserved hk
  refine ⟨it', b, ?_, hs', hserved'⟩
  simp only [next, he, ok_bind, List.isEmpty_map]
  rfl

theorem init_begins (tableOid : Nat) (hs : Holds file s store l) (hfuel : l.length < fuel)
    (hserved : Served s.pool file (n + 1) ⟨s.heap.firstPageId, 0⟩) :
    ∃ it b, init fuel tableOid (some s.heap) s.pool = .ok (⟨s.heap, it⟩, b) ∧
      Stands file s.heap l { s.toShared with pool := b } it [] (PagedTable.entries l.contents)
        store ∧
      Served b file n ⟨it.currentId.pageId, add32 it.currentId.slotNum 1⟩ := by
  obtain ⟨it, b, he, hs', hserved', _⟩ := hs.begins hfuel hserved
  refine ⟨it, b, ?_, hs', hserved'⟩
  simp only [init, he, ok_bind]
  rfl

/-! ## Whole runs -/

theorem Draining.stands (hs : Holds file s store l) (hfuel : l.length < fuel) {given : List Row}
    (hr : Draining file s fuel t e given) :
    e.tableHeap = s.heap ∧ ∃ rows rest store', given = rows.map entryRow ∧
      Stands file s.heap l t e.iter rows rest store' := by
  induction hr with
  | @init tableOid e b hserved hr =>
      obtain ⟨it, b, he, hstands, _⟩ := init_begins tableOid hs hfuel hserved
      cases he.symm.trans hr
      exact ⟨rfl, [], _, _, rfl, hstands⟩
  | others _ ho ih =>
      obtain ⟨hheap, rows, rest, store', hrows, hstands⟩ := ih
      obtain ⟨store'', hstands'⟩ := hstands.others ho
      exact ⟨hheap, rows, rest, store'', hrows, hstands'⟩
  | next _ hserved hr ih =>
      obtain ⟨hheap, rows, rest, store', hrows, hstands⟩ := ih
      rw [← hheap] at hstands ⊢
      obtain ⟨it', b, he, hstands', _⟩ :=
        next_stands hstands hfuel hserved (Nat.min_le_left _ _)
      rw [hr] at he
      split at he
      · cases he
      · cases he
        refine ⟨rfl, rows ++ rest.take _, _, store', ?_, hstands'⟩
        rw [hrows, List.map_append]

theorem Draining.goesOn (hr : Reachable file s) (hfuel : s.pageCount file < fuel)
    {given : List Row} (h : Draining file s fuel t e given) : GoesOn file s fuel t e given := by
  obtain ⟨store, l, hs⟩ := hr.holds
  rw [hs.pageCount_eq] at hfuel
  obtain ⟨hheap, rows, rest, store', rfl, hstands⟩ := h.stands hs hfuel
  have hlen := hs.entries_le
  rw [hstands.entries, List.length_append] at hlen
  refine ⟨?_, ?_, fun batchSize hpos hserved => ?_⟩
  · rw [swap_entryRow]
    exact hs.genuine hstands.entries
  · rw [List.length_map]
    omega
  · have hstands' := hstands
    rw [← hheap] at hstands'
    obtain ⟨it', b, he, _⟩ := next_stands hstands' hfuel hserved (Nat.min_le_left _ _)
    cases rest with
    | nil =>
        rw [List.take_nil] at he
        refine ⟨none, b, _, he, fun rid hlive => ?_⟩
        have hmem := hs.mem_rids_iff.mpr hlive
        rw [hstands.entries, List.append_nil] at hmem
        rw [List.map_map]
        exact hmem
    | cons entry rest =>
        obtain ⟨m, rfl⟩ := Nat.exists_eq_add_of_lt hpos
        refine ⟨some _, b, _, he, by simp, ?_⟩
        rw [List.length_map, List.length_take]
        exact Nat.min_le_left _ _

/-! ## A scan with no one else in the pool -/

/-- The executor stands in front of the entries of `out`, and can read them all. -/
def Leaves (file : FileId) (l : Pages) (st : BufferPoolManager δ × SeqScanExecutor)
    (out : List Row) : Prop :=
  ∃ t rows rest store, t.pool = st.1 ∧
    Stands file st.2.tableHeap l t st.2.iter rows rest store ∧
    Served t.pool file rest.length
      ⟨st.2.iter.currentId.pageId, add32 st.2.iter.currentId.slotNum 1⟩ ∧
    out = rest.map entryRow

/-- The scan keeps the contract of batches. -/
theorem serves (hfuel : l.length < fuel) : Serves (next (δ := δ) fuel) (Leaves file l) := by
  rintro ⟨_, e⟩ _ n ⟨t, rows, rest, store, rfl, hs, hserved, rfl⟩ hn
  obtain ⟨it', b, he, hs', hserved'⟩ := next_stands hs hfuel hserved (Nat.min_le_right n _)
  have hcount : rest.length - min n rest.length = (rest.drop n).length := by
    rw [List.length_drop]
    omega
  rw [hcount] at hserved'
  refine ⟨_, _, (rest.drop n).map entryRow, he,
    ⟨{ t with pool := b }, _, _, store, rfl, hs', hserved', rfl⟩, ?_⟩
  cases rest with
  | nil =>
      rw [List.take_nil, List.drop_nil]
      exact ⟨rfl, rfl⟩
  | cons entry rest =>
      have hne : (entry :: rest).take n ≠ [] := by
        intro h0
        have hlen := congrArg List.length h0
        rw [List.length_take, List.length_cons, List.length_nil] at hlen
        omega
      rw [if_neg (by simpa using hne)]
      refine ⟨by simpa using hne, ?_, ?_⟩
      · rw [List.length_map, List.length_take]
        exact Nat.min_le_left _ _
      · rw [← List.map_append, List.take_append_drop]

theorem init_leaves (tableOid : Nat) (hs : Holds file s store l) (hcan : CanRead file s)
    (hfuel : l.length < fuel) :
    ∃ e b, init fuel tableOid (some s.heap) s.pool = .ok (e, b) ∧
      Leaves file l (b, e) ((PagedTable.entries l.contents).map entryRow) := by
  obtain ⟨it, b, he, hstands, hserved⟩ := init_begins tableOid hs hfuel (hs.served hcan _)
  exact ⟨_, b, he, { s.toShared with pool := b }, [], _, store, rfl, hstands, hserved, rfl⟩

section
variable {held : PageKey → Nat} {pending : PageKey → Prop} {pre post : Pages} {j : PageId}
  {p : PageData}

/-- In front of a page that cannot be read the loop fills every batch, and gets nowhere. -/
theorem fill_blocked (hp : Pool b held pending store)
    (hc : Chain h store (pre ++ (j, p) :: post)) (hheld : ∀ k, held k ≠ 2147483647)
    (hfull : Full b) (hnone : b.pageTable ⟨h.fileId, j⟩ = none)
    (hit : it.currentId.pageId ∈ (pre ++ [(j, p)]).map Prod.fst) {given : List Row}
    {it' : TableIterator} {b' : BufferPoolManager δ}
    (he : fill fuel h n b it = .ok (given, it', b')) :
    Kept b b' held pending store ∧ it'.currentId.pageId ∈ (pre ++ [(j, p)]).map Prod.fst ∧
      given.length = n := by
  induction n generalizing b it given it' b' with
  | zero =>
      cases he
      exact ⟨⟨hp, .refl _ _, rfl⟩, hit, rfl⟩
  | succ n ih =>
      rw [fill, if_neg (hc.ne_finish hit)] at he
      cases hr : it.increment fuel h b with
      | error fault =>
          rw [hr] at he
          cases he
      | ok step =>
          obtain ⟨it₁, b₁⟩ := step
          obtain ⟨hit₁, h₁⟩ := hc.increment_blocked hp hheld hfull hnone hit hr
          obtain ⟨hfull₁, hnone₁⟩ := hp.blocked_kept h₁ hfull hnone
          rw [hr, ok_bind] at he
          cases hf : fill fuel h n b₁ it₁ with
          | error fault =>
              simp only [hf] at he
              cases he
          | ok filled =>
              obtain ⟨given', it₂, b₂⟩ := filled
              obtain ⟨hkept, hit', hlen⟩ := ih h₁.pool hfull₁ hnone₁ hit₁ hf
              simp only [hf] at he
              cases he
              exact ⟨h₁.trans hkept, hit', congrArg Nat.succ hlen⟩

/-- So the executor never answers `false`. -/
theorem not_yields (hp : Pool b held pending store)
    (hc : Chain e.tableHeap store (pre ++ (j, p) :: post)) (hheld : ∀ k, held k ≠ 2147483647)
    (hfull : Full b) (hnone : b.pageTable ⟨e.tableHeap.fileId, j⟩ = none)
    (hit : e.iter.currentId.pageId ∈ (pre ++ [(j, p)]).map Prod.fst)
    {size : Nat → Nat} (hsize : ∀ i, 1 ≤ size i) {out : List Row} :
    ¬ Yields (next fuel) size (b, e) out := by
  intro hy
  generalize hst : (b, e) = st at hy
  induction hy generalizing b e with
  | @stop size st st' hr =>
      subst hst
      cases hf : fill fuel e.tableHeap (size 0) b e.iter with
      | error fault =>
          simp only [next, hf] at hr
          cases hr
      | ok filled =>
          obtain ⟨given, it', b'⟩ := filled
          obtain ⟨_, _, hlen⟩ := fill_blocked hp hc hheld hfull hnone hit hf
          have hne : given ≠ [] := by
            rintro rfl
            have := hsize 0
            rw [← hlen] at this
            exact absurd this (by decide)
          simp only [next, hf, ok_bind, List.isEmpty_iff, hne, if_false] at hr
          cases hr
  | @batch size st st' given out hr _ _ ih =>
      subst hst
      cases hf : fill fuel e.tableHeap (size 0) b e.iter with
      | error fault =>
          simp only [next, hf] at hr
          cases hr
      | ok filled =>
          obtain ⟨given', it', b'⟩ := filled
          obtain ⟨hkept, hit', _⟩ := fill_blocked hp hc hheld hfull hnone hit hf
          obtain ⟨hfull', hnone'⟩ := hp.blocked_kept hkept hfull hnone
          simp only [next, hf, ok_bind] at hr
          split at hr
          · cases hr
          · cases hr
            exact ih (e := ⟨e.tableHeap, it'⟩) hkept.pool hc hfull' hnone' hit'
              (fun i => hsize (i + 1)) rfl

end

theorem init_blocked {pre post : Pages} {j : PageId} {p : PageData} {tableOid : Nat}
    (hs : Holds file s store (pre ++ (j, p) :: post)) (hfull : Full s.pool)
    (hnone : s.pool.pageTable ⟨s.heap.fileId, j⟩ = none)
    (he : init fuel tableOid (some s.heap) s.pool = .ok (e, b)) {size : Nat → Nat}
    (hsize : ∀ i, 1 ≤ size i) {out : List Row} : ¬ Yields (next fuel) size (b, e) out := by
  cases hb : s.heap.start fuel s.pool with
  | error fault =>
      simp only [init, hb] at he
      cases he
  | ok begun =>
      obtain ⟨it, b'⟩ := begun
      obtain ⟨hit, hkept⟩ := hs.chain.start_blocked hs.sharing.pool hs.stored.pins hfull hnone hb
      obtain ⟨hfull', hnone'⟩ := hs.sharing.pool.blocked_kept hkept hfull hnone
      simp only [init, hb] at he
      cases he
      exact not_yields (e := ⟨s.heap, it⟩) hkept.pool hs.chain hs.stored.pins hfull' hnone' hit
        hsize

theorem drain_iff (tableOid : Nat) (hr : Reachable file s) {size : Nat → Nat}
    (hsize : ∀ i, 1 ≤ size i) :
    (∃ e b out, init (stepBound file s) tableOid (some s.heap) s.pool = .ok (e, b) ∧
      Yields (next (stepBound file s)) size (b, e) out ∧ s.Genuine (out.map Prod.swap) ∧
      out.length < stepBound file s) ↔ CanRead file s := by
  obtain ⟨store, l, hs⟩ := hr.holds
  have hlen := hs.entries_le
  have hpages := hs.pageCount_eq
  have hfuel : l.length < stepBound file s := by
    rw [stepBound]
    omega
  constructor
  · rintro ⟨e, b, out, he, hyields, _⟩
    by_contra hcan
    obtain ⟨hfull, pre, j, p, post, rfl, hnone⟩ := hs.exists_blocked hcan
    exact init_blocked hs hfull hnone he hsize hyields
  · intro hcan
    obtain ⟨e, b, he, hleaves⟩ := init_leaves tableOid hs hcan hfuel
    refine ⟨e, b, _, he, (serves hfuel).yields hleaves hsize, ?_, ?_⟩
    · rw [swap_entryRow]
      exact hs.genuine (List.append_nil _).symm
    · rw [List.length_map, stepBound]
      omega

/-! ## Main results -/

/-- With no one else in the pool, iterating and draining the executor end, within the bound and with
the live tuples, exactly if a frame has no pin or the whole table is in the pool. When other clients
take frames meanwhile, they go on well as long as each step can read its pages. -/
theorem scan_ends (file : FileId) (s : HeapState δ) (hr : Reachable file s) :
    ((∃ rows b, s.heap.scan (stepBound file s) s.pool = .ok (rows, b) ∧ s.Genuine rows) ↔
        CanRead file s) ∧
      (∀ tableOid (size : Nat → Nat), (∀ i, 1 ≤ size i) →
        ((∃ e b out, init (stepBound file s) tableOid (some s.heap) s.pool = .ok (e, b) ∧
          Yields (next (stepBound file s)) size (b, e) out ∧ s.Genuine (out.map Prod.swap) ∧
          out.length < stepBound file s) ↔ CanRead file s)) ∧
      (Served s.pool file 1 ⟨s.heap.firstPageId, 0⟩ →
        ∃ it b, s.heap.start (stepBound file s) s.pool = .ok (it, b)) ∧
      (∀ t it visited, Scanning file s (stepBound file s) t it visited →
        HeapState.GoesOn file s (stepBound file s) t it visited) ∧
      ∀ t e given, Draining file s (stepBound file s) t e given →
        GoesOn file s (stepBound file s) t e given := by
  obtain ⟨store, l, hs⟩ := hr.holds
  have hfuel : s.pageCount file < stepBound file s := by
    rw [stepBound]
    omega
  refine ⟨scan_iff hr, fun tableOid _ hsize => drain_iff tableOid hr hsize, fun hserved => ?_,
    fun _ _ _ h => h.goesOn hr hfuel, fun _ _ _ h => h.goesOn hr hfuel⟩
  obtain ⟨it, b, he, _⟩ := hs.begins (hs.pageCount_eq ▸ hfuel) hserved
  exact ⟨it, b, he⟩

/-- A scan of live and deleted tuples on two pages has begun. Another client holds a pin from the
start, and takes one on the last page after `begin`. -/
theorem exists_begun : ∃ (s : HeapState Disk.PageMap) (long : List UInt8)
    (t : Shared Disk.PageMap) (it : TableIterator) (b : BufferPoolManager Disk.PageMap) (l : Pages)
    (store : PageKey → Option PageData), LedTo 0 (fun _ => True) s (used 1 long) 3 ∧
      0 < s.held ⟨1, 0⟩ ∧ ¬ Full s.pool ∧ l.length < stepBound 0 s ∧
      s.heap.start (stepBound 0 s) s.pool = .ok (it, b) ∧
      Others 0 { s.toShared with pool := b } t ∧ 0 < t.held ⟨0, 2⟩ ∧ ¬ Full t.pool ∧
      Stands 0 s.heap l t it [] [((1, 1), [2]), ((1, 2), [3]), ((2, 0), long), ((2, 2), [5])]
        store := by
  obtain ⟨s, long, _, hs, _, hheld⟩ := exists_used
  obtain ⟨store, l, hholds, hl⟩ := hs.holds
  have hrows : PagedTable.entries l.contents =
      [((1, 1), [2]), ((1, 2), [3]), ((2, 0), long), ((2, 2), [5])] := by
    rw [hl]
    rfl
  have hfuel : l.length < stepBound 0 s := by
    have hpages := hholds.pageCount_eq
    rw [stepBound]
    omega
  have hno : ¬ Full s.pool := by
    obtain ⟨f, _, hf, _⟩ := hs.two
    exact hholds.sharing.pool.not_full_iff.mpr ⟨f, hf⟩
  obtain ⟨it, b, he, hstands, _, hst⟩ := hholds.begins (n := 0) hfuel (.frame hno)
  have hmem : ⟨0, 2⟩ ∈ s.handed := by
    rw [hholds.mem_handed_iff, ← Pages.map_fst_contents, hl]
    exact List.mem_cons_of_mem _ List.mem_cons_self
  have hzero : s.held ⟨0, 2⟩ = 0 := by
    rw [hheld]
    rfl
  obtain ⟨t, hother, htheld, hno'⟩ := hstands.pinned (i := 2) hmem (by rw [hzero]; decide)
    (hholds.stored.twoObtainable hst hs.two)
  obtain ⟨store', hstands'⟩ := hstands.others hother
  rw [hrows] at hstands'
  refine ⟨s, long, t, it, b, l, store', hs, ?_, hno, hfuel, he, hother, ?_, hno', hstands'⟩
  · rw [hheld, Function.update_self]
    exact Nat.one_pos
  · rw [htheld, Function.update_self]
    exact Nat.succ_pos _

/-- The iterator and the executor each take a step with the pins of the other client. -/
theorem scan_ends_used : ∃ (s : HeapState Disk.PageMap) (long : List UInt8)
    (t t' : Shared Disk.PageMap) (it : TableIterator) (e : SeqScanExecutor),
    Reachable 0 s ∧ s.map = mapOf (used 1 long) ∧ 0 < s.held ⟨1, 0⟩ ∧
    (∃ rows b, s.heap.scan (stepBound 0 s) s.pool = .ok (rows, b) ∧ s.Genuine rows) ∧
    (∃ e b out, init (stepBound 0 s) 0 (some s.heap) s.pool = .ok (e, b) ∧
      Yields (next (stepBound 0 s)) (fun _ => 3) (b, e) out ∧ s.Genuine (out.map Prod.swap) ∧
      out.length < stepBound 0 s) ∧
    (0 < t.held ⟨0, 2⟩ ∧
      Scanning 0 s (stepBound 0 s) t it [(⟨1, 1⟩, ⟨[2], .invalid⟩)] ∧
      HeapState.GoesOn 0 s (stepBound 0 s) t it [(⟨1, 1⟩, ⟨[2], .invalid⟩)]) ∧
    0 < t'.held ⟨0, 2⟩ ∧
      Draining 0 s (stepBound 0 s) t' e
        [(⟨[2], .invalid⟩, ⟨1, 1⟩), (⟨[3], .invalid⟩, ⟨1, 2⟩), (⟨long, .invalid⟩, ⟨2, 0⟩)] ∧
      GoesOn 0 s (stepBound 0 s) t' e
        [(⟨[2], .invalid⟩, ⟨1, 1⟩), (⟨[3], .invalid⟩, ⟨1, 2⟩), (⟨long, .invalid⟩, ⟨2, 0⟩)] := by
  obtain ⟨s, long, t, it, b, l, store, hs, hheld, hno, hfuel, he, hother, hpin, hno', hstands⟩ :=
    exists_begun
  have hinit : init (stepBound 0 s) 0 (some s.heap) s.pool = .ok (⟨s.heap, it⟩, b) := by
    simp only [init, he, ok_bind]
    rfl
  obtain ⟨hid, htuple⟩ := hstands.reads.current _ _ rfl
  obtain ⟨it₁, b₁, hinc, _⟩ := hstands.increment (n := 0) hfuel (.frame hno')
  have hscan := Scanning.increment (.others (.start (.frame hno) he) hother) hstands.ne_finish
    (.frame hno') hinc
  rw [hid, htuple] at hscan
  obtain ⟨it₂, b₂, hnext, _⟩ := next_stands (e := ⟨s.heap, it⟩) (n := 3) hstands hfuel
    (.frame hno') (Nat.min_le_left _ _)
  have hdrain := Draining.next (.others (.init (.frame hno) hinit) hother) (.frame hno') hnext
  obtain ⟨hscanned, hdrained, _, hgoes, hgoes'⟩ := scan_ends 0 s hs.reachable
  exact ⟨s, long, { t with pool := b₁ }, { t with pool := b₂ }, it₁, ⟨s.heap, it₂⟩, hs.reachable,
    hs.map, hheld, hscanned.mpr (.inl hno),
    (hdrained 0 (fun _ => 3) fun _ => by decide).mpr (.inl hno), ⟨hpin, hscan, hgoes _ _ _ hscan⟩,
    hpin, hdrain, hgoes' _ _ _ hdrain⟩

/-- In a pool of one frame, another client takes the frame. The table has no tuple, but `begin` is
not the end, and from there the iteration does not end. -/
theorem scan_never_ends : ∃ s : HeapState Disk.PageMap, Reachable 0 s ∧ (∀ rid, s.map rid = none) ∧
    (∀ fuel r, s.heap.scan fuel s.pool ≠ .ok r) ∧
    ∀ fuel, s.heap.start (fuel + 1) s.pool = .ok (⟨⟨0, 0⟩, .empty⟩, s.pool) := by
  obtain ⟨s, hr, hmap, hfile, hfirst, hfull, _, hnone⟩ := exists_evicted (δ := Disk.PageMap) .zero
    (by decide : 1 ≠ 0) trivial fun _ => trivial
  obtain ⟨store, l, hs⟩ := hr.holds
  have hcan : ¬ CanRead 0 s := by
    rintro (hno | hres)
    · exact hno hfull
    · obtain ⟨pre, p, rfl⟩ := hs.chain.exists_last
      exact hres s.heap.lastPageId (hs.mem_handed_iff.mpr (by simp)) (hnone _)
  refine ⟨s, hr, hmap, fun fuel r => hs.scan_blocked hcan fuel r, fun fuel => ?_⟩
  have hread : s.pool.readPage 0 0 = .ok (none, s.pool) :=
    (hs.sharing.pool.backs.structural.fetchPage_none_iff 0 0).mpr ⟨rfl, hnone 0, hfull⟩
  rw [TableHeap.start, TableIterator.make, hfirst, if_pos (by decide),
    TableIterator.advanceToValid, if_neg (by decide), hfile, hread]
  rfl

end SeqScanExecutor

end TurtleDb.Execution
