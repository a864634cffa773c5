import TurtleDb.Execution.Filter
import TurtleDb.Execution.SeqScan
import TurtleDb.Execution.Updates
import TurtleDb.Table.LiveInserts

/-!
# Children that find the matching rows

The child of an `UPDATE` or `DELETE` is a scan of the table that the statement changes, or a filter
over one. It looks at each live tuple once, also while the tuples that it has yielded are deleted.
-/

namespace TurtleDb.Execution

open TurtleDb.Lib TurtleDb.Buffer TurtleDb.Buffer.BufferPoolManager TurtleDb.Page TurtleDb.Table
  TurtleDb.Table.HeapState TurtleDb.Datatype

variable {δ : Type} [PageDisk δ]

namespace SeqScanExecutor

/-- `init` and `next` on the heap of the state, to which `table_heap_` points. -/
def initOn (fuel tableOid : Nat) (s : HeapState δ) :
    Except Fault (HeapState δ × SeqScanExecutor) := do
  let (e, b) ← init fuel tableOid (some s.heap) s.pool
  return ({ s with pool := b }, e)

def nextOn (fuel : Nat) : AbstractExecutor (HeapState δ × SeqScanExecutor) :=
  fun (s, e) batchSize => do
    let (batch, (b, e)) ← next fuel (s.pool, { e with tableHeap := s.heap }) batchSize
    return (batch, ({ s with pool := b }, e))

end SeqScanExecutor

namespace FilterExecutor

/-- `next` over a child that works on a state `τ`, which is kept apart. -/
def nextOn {τ σ : Type} (filterExpr : Option (Tuple → Except Fault Value))
    (child : AbstractExecutor (τ × σ)) (fuel : Nat) : AbstractExecutor (τ × State σ) :=
  fun (w, s) batchSize => do
    let (batch, s') ← next filterExpr child fuel { s with child := (w, s.child) } batchSize
    return (batch, (s'.child.1, { s' with child := s'.child.2 }))

end FilterExecutor

variable [LawfulPageDisk δ] {file : FileId} {σ : Type}

/-- The child has the rows `rest` to look at, and yields those that match. When a tuple is deleted
that it has not to look at, this succeeds, and the child goes on as before. -/
structure Yielding (file : FileId) (matching : Row → Bool)
    (child : AbstractExecutor (HeapState δ × σ)) (R : HeapState δ × σ → List Row → Prop) : Prop where
  reachable : ∀ w rest, R w rest → Reachable file w.1
  pending : ∀ w rest, R w rest → UpdateExecutor.Pending w.1 rest
  next : ∀ w rest n, R w rest → 1 ≤ n → ∃ batch w' seen rest', child w n = .ok (batch, w') ∧
    R w' rest' ∧ w'.1.map = w.1.map ∧ rest = seen ++ rest' ∧
      match batch with
      | none => rest.filter matching = []
      | some rows => rows ≠ [] ∧ rows = seen.filter matching
  deleted : ∀ s c rest rid, R (s, c) rest → s.map rid ≠ none → rid ∉ rest.map Prod.snd →
    ∃ b h, s.heap.markDelete s.pool rid = .ok (.ok true, b, h) ∧
      R (s.deleted rid (.ok true) b h, c) rest

/-! ## The scan -/

namespace SeqScanExecutor

/-- The scan stands in front of `rest`, and can read it. -/
structure Ahead (file : FileId) (fuel : Nat) (w : HeapState δ × SeqScanExecutor)
    (rest : List Row) : Prop where
  reachable : Reachable file w.1
  canRead : CanRead file w.1
  fuel : w.1.pageCount file < fuel
  reads : ∃ store l entries, Holds file w.1 store l ∧ Table.Reads l.contents w.2.iter entries ∧
    rest = entries.map entryRow

variable {s : HeapState δ} {store : PageKey → Option PageData} {l : Pages} {e : SeqScanExecutor}
  {it it' : TableIterator} {b : BufferPoolManager δ} {rows : List Row} {rest : List Row}
  {entries : List Entry} {fuel n : Nat}

/-- The loop of a batch is steps of a run. -/
theorem fill_reachable (hr : Reachable file s) (hit : OnTable file s it)
    (he : fill fuel s.heap n s.pool it = .ok (rows, it', b)) :
    Reachable file { s with pool := b } ∧ Steady s.pool b s.held ∧
      b.nextPageId = s.pool.nextPageId ∧ OnTable file s it' := by
  induction n generalizing s it rows with
  | zero =>
      cases he
      exact ⟨hr, .refl _ _, rfl, hit⟩
  | succ n ih =>
      rw [fill] at he
      split at he
      · cases he
        exact ⟨hr, .refl _ _, rfl, hit⟩
      · obtain ⟨⟨it₁, b₁⟩, hinc, he⟩ := bind_eq_ok.mp he
        obtain ⟨⟨rows', it₂, b₂⟩, hfill, he⟩ := bind_eq_ok.mp he
        cases he
        have hbehind : OnTable file s { it with
          currentId := { it.currentId with slotNum := add32 it.currentId.slotNum 1 } } := hit
        obtain ⟨hr₁, hst₁, hid₁, hit₁⟩ := hr.advanceToValid hbehind hinc
        obtain ⟨hr₂, hst₂, hid₂, hit₂⟩ := ih (s := { s with pool := b₁ }) hr₁ hit₁ hfill
        exact ⟨hr₂, hst₁.trans hst₂, hid₂.trans hid₁, hit₂⟩

theorem onTable (hs : Holds file s store l) (hr : Table.Reads l.contents it entries) :
    OnTable file s it := by
  cases entries with
  | nil => exact .inl (congrArg RecordId.pageId (hr.finished rfl))
  | cons e entries =>
      obtain ⟨hid, _⟩ := hr.current e entries rfl
      obtain ⟨t, ht, _⟩ := PagedTable.mem_entries.mp hr.mem_entries
      refine .inr ?_
      rw [hid, hs.mem_handed_iff, ← Pages.map_fst_contents]
      exact List.mem_map.mpr ⟨_, ht, rfl⟩

theorem Ahead.pending {w : HeapState δ × SeqScanExecutor} (h : Ahead file fuel w rest) :
    UpdateExecutor.Pending w.1 rest := by
  obtain ⟨store, l, entries, hs, hreads, rfl⟩ := h.reads
  obtain ⟨passed, hpassed⟩ := PagedTable.ahead_suffix l.contents w.2.iter.currentId.pageId
    w.2.iter.currentId.slotNum
  rw [hreads.ahead] at hpassed
  refine ⟨fun row hrow => ?_, ?_⟩
  · obtain ⟨e, he, rfl⟩ := List.mem_map.mp hrow
    rw [hs.map]
    refine (PagedTable.mem_entries_iff hs.nodup).mp ?_
    rw [← hpassed]
    exact List.mem_append_right _ he
  · have hnodup := nodup_rids hs.nodup
    rw [← hpassed, List.map_append] at hnodup
    rw [List.map_map]
    exact (List.nodup_append'.mp hnodup).2.1

theorem stands (hs : Holds file s store l) (hr : Table.Reads l.contents it entries) :
    ∃ passed, Stands file s.heap l s.toShared it passed entries store := by
  obtain ⟨passed, hpassed⟩ := PagedTable.ahead_suffix l.contents it.currentId.pageId
    it.currentId.slotNum
  rw [hr.ahead] at hpassed
  exact ⟨passed, hs.sharing, hs.chain, hs.fileId, hr, hpassed.symm⟩

/-- With every page to be had, so is any number of tuples from the iterator on. -/
theorem served (hs : Holds file s store l) (hcan : CanRead file s)
    (hr : Table.Reads l.contents it entries) (n slot : Nat) :
    Served s.pool file n ⟨it.currentId.pageId, slot⟩ := by
  rcases onTable hs hr with hend | hmem
  · rw [hend]
    exact .finish
  · rcases hs.canRead_iff.mp hcan with hno | hres
    · exact .frame hno
    · obtain ⟨⟨i, p⟩, hx, hxi⟩ := List.mem_map.mp (hs.mem_pages hmem)
      obtain ⟨pre, post, rfl⟩ := List.append_of_mem hx
      rw [← hxi, ← hs.fileId]
      exact hs.chain.served hs.sharing.pool (fun x hx => hres x (List.mem_append_right _ hx)) n slot

/-- A call yields the next rows. -/
theorem Ahead.next (h : Ahead file fuel (s, e) rest) (n : Nat) :
    ∃ w', nextOn fuel (s, e) n =
        .ok (if (rest.take n).isEmpty then none else some (rest.take n), w') ∧
      Ahead file fuel w' (rest.drop n) ∧ Browsed file s w'.1 := by
  obtain ⟨store, l, entries, hs, hreads, rfl⟩ := h.reads
  obtain ⟨passed, hstands⟩ := stands hs hreads
  obtain ⟨it', b, he, hstands', _⟩ :=
    next_stands (e := { e with tableHeap := s.heap }) (n := n) hstands
      (by rw [← hs.pageCount_eq]; exact h.fuel) (served hs h.canRead hreads n _) (Nat.min_le_left _ _)
  have hfill := he
  rw [SeqScanExecutor.next] at hfill
  obtain ⟨⟨batch, it₁, b₁⟩, hfill, heq⟩ := bind_eq_ok.mp hfill
  have hstate := congrArg Prod.snd (Except.ok.inj heq)
  cases hstate
  obtain ⟨hr', hst, hid, _⟩ := fill_reachable h.reachable (onTable hs hreads) hfill
  have hholds : Holds file { s with pool := b } store l :=
    ⟨hstands'.sharing, hs.chain, hs.recorded, hs.fileId, hs.complete, hs.map, hs.issued⟩
  have hcan : CanRead file { s with pool := b } :=
    hs.canRead_steady hholds rfl rfl rfl hst h.canRead
  refine ⟨({ s with pool := b }, { tableHeap := s.heap, iter := it' }), ?_,
    ⟨hr', hcan, h.fuel, store, l, _, hholds, hstands'.reads, ?_⟩,
    ⟨rfl, hr', ⟨store, store, l, hs, hholds⟩, hst, hid⟩⟩
  · rw [nextOn]
    simp only [he, ok_bind, ← List.map_take, List.isEmpty_map]
    rfl
  · exact (List.map_drop ..).symm

/-- A delete of a tuple that is not ahead leaves the scan where it is. -/
theorem Ahead.deleted (h : Ahead file fuel (s, e) rest) {rid : RecordId} (hlive : s.map rid ≠ none)
    (hrid : rid ∉ rest.map Prod.snd) :
    ∃ b h', s.heap.markDelete s.pool rid = .ok (.ok true, b, h') ∧
      Ahead file fuel (s.deleted rid (.ok true) b h', e) rest := by
  obtain ⟨store, l, entries, hs, hreads, rfl⟩ := h.reads
  obtain ⟨b, h', store', l', he, hst, hs', hl'⟩ := hs.markDelete_live h.canRead hlive
  have hnot : (rid.pageId, rid.slotNum) ∉ entries.map Prod.fst := by
    intro hmem
    obtain ⟨x, hx, hxe⟩ := List.mem_map.mp hmem
    refine hrid (List.mem_map.mpr ⟨entryRow x, List.mem_map.mpr ⟨x, hx, rfl⟩, ?_⟩)
    rw [entryRow, Entry.rid, hxe]
  have hreads' := hreads.erase hnot
  rw [← hl'] at hreads'
  exact ⟨b, h', he, h.reachable.deleted (h.reachable.mem_handed hlive) he,
    hs.canRead_steady hs' rfl rfl rfl hst h.canRead, h.fuel, store', l', _, hs', hreads', rfl⟩

theorem yielding (fuel : Nat) :
    Yielding file (fun _ => true) (nextOn (δ := δ) fuel) (Ahead file fuel) where
  reachable _ _ h := h.reachable
  pending _ _ h := h.pending
  next := by
    rintro ⟨s, e⟩ rest n h hn
    obtain ⟨w', he, h', hb⟩ := h.next n
    refine ⟨_, w', rest.take n, rest.drop n, he, h', hb.map, (List.take_append_drop n rest).symm, ?_⟩
    rw [List.filter_true, List.filter_true]
    cases rest with
    | nil => simp
    | cons row rest =>
        obtain ⟨n, rfl⟩ := Nat.exists_eq_add_of_lt hn
        simp
  deleted _ _ _ _ h hlive hrid := h.deleted hlive hrid

/-- The live tuples, in the order of the pages. -/
def liveRows (l : Pages) : List Row := (PagedTable.entries l.contents).map entryRow

theorem mem_liveRows (hs : Holds file s store l) (row : Row) :
    row ∈ liveRows l ↔ s.map row.2 = some row.1.data ∧ row.1.recordId = .invalid := by
  obtain ⟨⟨bytes, recordId⟩, rid⟩ := row
  rw [hs.map, liveRows, List.mem_map]
  constructor
  · rintro ⟨x, hx, hxe⟩
    cases hxe
    exact ⟨(PagedTable.mem_entries_iff hs.nodup).mp hx, rfl⟩
  · rintro ⟨hget, rfl⟩
    exact ⟨((rid.pageId, rid.slotNum), bytes), (PagedTable.mem_entries_iff hs.nodup).mpr hget, rfl⟩

/-- After `init` the live tuples are ahead, in the order of the pages. -/
theorem initOn_liveRows (tableOid : Nat) (hr : Reachable file s) (hs : Holds file s store l)
    (hcan : CanRead file s) (hfuel : s.pageCount file < fuel) :
    ∃ w, initOn fuel tableOid s = .ok w ∧ Ahead file fuel w (liveRows l) ∧ Browsed file s w.1 := by
  obtain ⟨it, b, he, hstands, _⟩ := hs.begins (n := 0) (hs.pageCount_eq ▸ hfuel) (hs.served hcan _)
  obtain ⟨hr', hst, hid, _⟩ := hr.start he
  have hholds : Holds file { s with pool := b } store l :=
    ⟨hstands.sharing, hs.chain, hs.recorded, hs.fileId, hs.complete, hs.map, hs.issued⟩
  have hcan' : CanRead file { s with pool := b } := hs.canRead_steady hholds rfl rfl rfl hst hcan
  refine ⟨({ s with pool := b }, ⟨s.heap, it⟩), ?_,
    ⟨hr', hcan', hfuel, store, l, _, hholds, hstands.reads, rfl⟩,
    ⟨rfl, hr', ⟨store, store, l, hs, hholds⟩, hst, hid⟩⟩
  simp only [initOn, init, he, ok_bind]
  rfl

theorem initOn_ahead (tableOid : Nat) (hr : Reachable file s) (hcan : CanRead file s)
    (hfuel : s.pageCount file < fuel) :
    ∃ w rest, initOn fuel tableOid s = .ok w ∧ Ahead file fuel w rest ∧ w.1.map = s.map ∧
      ∀ row, row ∈ rest ↔ s.map row.2 = some row.1.data ∧ row.1.recordId = .invalid := by
  obtain ⟨store, l, hs⟩ := hr.holds
  obtain ⟨w, hinit, hahead, hbrowsed⟩ := initOn_liveRows tableOid hr hs hcan hfuel
  exact ⟨w, _, hinit, hahead, hbrowsed.map, mem_liveRows hs⟩

end SeqScanExecutor

/-! ## A filter over it -/

namespace FilterExecutor

/-- The filter has the rows that wait and those of its child to look at, and its predicate decides
them all. -/
structure Facing (R : HeapState δ × σ → List Row → Prop)
    (filterExpr : Option (Tuple → Except Fault Value)) (keep : Row → Bool) (fuel : Nat)
    (w : HeapState δ × State σ) (rest : List Row) : Prop where
  pending : UpdateExecutor.Pending w.1 rest
  decides : Decides filterExpr keep rest
  child : ∃ left, R (w.1, w.2.child) left ∧ rest = waiting w.2 ++ left ∧ left.length < fuel

variable {child : AbstractExecutor (HeapState δ × σ)} {R : HeapState δ × σ → List Row → Prop}
  {filterExpr : Option (Tuple → Except Fault Value)} {keep : Row → Bool} {fuel : Nat}

/-- Asked call after call, such a child gives its rows and keeps the table as it is. -/
theorem flows_yielding (h : Yielding file (fun _ => true) child R)
    (map : RecordId → Option (List UInt8)) :
    Flows (1 ≤ ·) (fun _ _ => True) child fun w rest => R w rest ∧ w.1.map = map := by
  rintro w rest n ⟨hw, hmap⟩ hn
  obtain ⟨batch, w', seen, rest', he, hw', hmap', rfl, hbatch⟩ := h.next w rest n hw hn
  cases batch with
  | none =>
      rw [List.filter_true] at hbatch
      obtain ⟨rfl, rfl⟩ := List.append_eq_nil_iff.mp hbatch
      exact ⟨none, w', [], he, ⟨hw', hmap'.trans hmap⟩, rfl, rfl⟩
  | some rows =>
      obtain ⟨hne, hrows⟩ := hbatch
      rw [List.filter_true] at hrows
      subst hrows
      exact ⟨some rows, w', rest', he, ⟨hw', hmap'.trans hmap⟩, hne, trivial, rfl⟩

omit [PageDisk δ] [LawfulPageDisk δ] in
theorem pending_append {s t : HeapState δ} {seen rest : List Row}
    (h : UpdateExecutor.Pending s (seen ++ rest)) (hmap : t.map = s.map) :
    UpdateExecutor.Pending t rest := by
  refine ⟨fun row hrow => ?_, ?_⟩
  · rw [hmap]
    exact h.stored row (List.mem_append_right _ hrow)
  · have hnodup := h.nodup
    rw [List.map_append] at hnodup
    exact (List.nodup_append'.mp hnodup).2.1

theorem Facing.next (h : Yielding file (fun _ => true) child R) {w : HeapState δ × State σ}
    {rest : List Row} (hw : Facing R filterExpr keep fuel w rest) {n : Nat} (hn : 1 ≤ n) :
    ∃ batch w' seen rest', nextOn filterExpr child fuel w n = .ok (batch, w') ∧
      Facing R filterExpr keep fuel w' rest' ∧ w'.1.map = w.1.map ∧ rest = seen ++ rest' ∧
        match batch with
        | none => rest.filter keep = []
        | some rows => rows ≠ [] ∧ rows = seen.filter keep := by
  obtain ⟨s, fs⟩ := w
  obtain ⟨left, hleft, rfl, hfuel⟩ := hw.child
  have hdecides := hw.decides
  have htakes : Takes (emit keep) (fun row => passes filterExpr row.1 = .ok (keep row))
      (fun _ _ => True) (fun w rest => (R w rest ∧ w.1.map = s.map) ∧ rest.length < fuel) n
      (loop filterExpr child n fuel) := takes_loop (flows_yielding h s.map) hn
  obtain ⟨s', seen, left', rfl, ⟨⟨hleft', hmap⟩, hfuel'⟩, hrun, hnil, -⟩ :=
    htakes (s, fs.child) left ((waiting fs).filterMap (emit keep)) ⟨⟨hleft, rfl⟩, hfuel⟩
      fun row hrow => hdecides row (List.mem_append_right _ hrow)
  have hcall := (next_eq (s := { fs with child := (s, fs.child) }) hdecides.left n).trans hrun
  have hsplit : waiting fs ++ (seen ++ (waiting s' ++ left')) =
      (waiting fs ++ seen) ++ (waiting s' ++ left') := (List.append_assoc ..).symm
  have hseen : (waiting fs).filterMap (emit keep) ++ seen.filterMap (emit keep) =
      (waiting fs ++ seen).filter keep := by
    rw [← List.filterMap_append, filterMap_emit]
  rw [hseen] at hcall hnil
  refine ⟨if ((waiting fs ++ seen).filter keep).isEmpty then none
      else some ((waiting fs ++ seen).filter keep),
    (s'.child.1, { s' with child := s'.child.2 }), waiting fs ++ seen, waiting s' ++ left',
    ?_, ⟨?_, ?_, left', hleft', rfl, hfuel'⟩, hmap, hsplit, ?_⟩
  · rw [nextOn]
    simp only [hcall, ok_bind]
    rfl
  · exact pending_append (hsplit ▸ hw.pending) hmap
  · exact (hsplit ▸ hdecides).right
  · by_cases hempty : (waiting fs ++ seen).filter keep = []
    · rw [if_pos (List.isEmpty_iff.mpr hempty), hsplit, List.filter_append, hempty, hnil hempty]
      rfl
    · rw [if_neg (mt List.isEmpty_iff.mp hempty)]
      exact ⟨hempty, rfl⟩

/-- A filter over a child that looks at all rows yields those that pass. -/
theorem yielding (h : Yielding file (fun _ => true) child R) :
    Yielding file keep (nextOn filterExpr child fuel) (Facing R filterExpr keep fuel) where
  reachable := by
    rintro w rest hw
    obtain ⟨left, hleft, _⟩ := hw.child
    exact h.reachable _ _ hleft
  pending _ _ hw := hw.pending
  next _ _ _ hw hn := hw.next h hn
  deleted := by
    rintro s fs rest rid hw hlive hrid
    obtain ⟨left, hleft, rfl, hfuel⟩ := hw.child
    have hnot : rid ∉ left.map Prod.snd := fun hmem => hrid (by simp [List.mem_map.mp hmem])
    obtain ⟨b, h', he, hleft'⟩ := h.deleted s fs.child left rid hleft hlive hnot
    refine ⟨b, h', he, ⟨fun row hrow => ?_, hw.pending.nodup⟩, hw.decides, left, hleft', rfl, hfuel⟩
    have hne : row.2 ≠ rid := fun heq => hrid (heq ▸ List.mem_map.mpr ⟨row, hrow, rfl⟩)
    exact (Function.update_of_ne hne _ _).trans (hw.pending.stored row hrow)

theorem facing_start {s : HeapState δ} {c : σ} {rest : List Row}
    (h : Yielding file (fun _ => true) child R) (hc : R (s, c) rest)
    (hdecides : Decides filterExpr keep rest) (hfuel : rest.length < fuel) :
    Facing R filterExpr keep fuel (s, start c) rest :=
  ⟨h.pending _ _ hc, hdecides, rest, hc, rfl, hfuel⟩

end FilterExecutor

end TurtleDb.Execution
