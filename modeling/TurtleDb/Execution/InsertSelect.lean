import TurtleDb.Execution.Effects
import TurtleDb.Execution.OwnScan

/-!
# INSERT … SELECT over one table

`INSERT` whose child scans the table that gets the rows. The scan does not meet the new rows if, when
they come, it has ended or has passed the holes of the last page that they fill. Otherwise it gives
them to the statement, which inserts them again.
-/

namespace TurtleDb.Execution

open TurtleDb.Lib TurtleDb.Buffer TurtleDb.Buffer.BufferPoolManager TurtleDb.Page TurtleDb.Table
  TurtleDb.Table.HeapState TurtleDb.Datatype

/-- The rows fill holes below the slot, one after the other, and the page has the space. -/
inductive Fills (slot : Nat) :
    SlotTable (List UInt8) → List Row → SlotTable (List UInt8) → Prop where
  | nil (t : SlotTable (List UInt8)) : Fills slot t [] t
  | cons {t t' : SlotTable (List UInt8)} {row : Row} {rows : List Row}
      (hfits : SlottedPage.Fits t row.1.data.length) (hlt : t.free < slot)
      (h : Fills slot (t.insert row.1.data) rows t') : Fills slot t (row :: rows) t'

/-- The first of the rows fits into the last page, or finds a tuple there. -/
def Placeable (t : SlotTable (List UInt8)) (rows : List Row) : Prop :=
  ∀ row ∈ rows.head?, SlottedPage.Fits t row.1.data.length ∨ ∃ k, t.get k ≠ none

/-- Over a list, `source` keeps apart from what is inserted into the last page: after each batch it
has nothing left to read, or it is on the last page and the batch goes to holes that it has passed. -/
inductive Apart {τ : Type} (source : AbstractExecutor τ) (left : τ → List Row) (n : Nat)
    (last : PageId) : τ → SlotTable (List UInt8) → Prop where
  | stop {a a' : τ} {t : SlotTable (List UInt8)} (h : source a n = .ok (none, a')) :
      Apart source left n last a t
  | ended {a a' : τ} {rows : List Row} {t : SlotTable (List UInt8)}
      (h : source a n = .ok (some rows, a')) (hleft : left a' = []) : Apart source left n last a t
  | behind {a a' : τ} {rows rest : List Row} {row : Row} {t t' : SlotTable (List UInt8)}
      (h : source a n = .ok (some rows, a')) (hleft : left a' = row :: rest)
      (hlast : row.2.pageId = last) (hfills : Fills row.2.slotNum t rows t')
      (hrest : Apart source left n last a' t') : Apart source left n last a t

theorem Fills.live {slot : Nat} {t t' : SlotTable (List UInt8)} {rows : List Row}
    (h : Fills slot t rows t') (hlive : rows ≠ [] ∨ ∃ k, t.get k ≠ none) : ∃ k, t'.get k ≠ none := by
  induction h with
  | nil t => exact hlive.resolve_left fun hne => hne rfl
  | @cons t t' row rows _ _ _ ih => exact ih (.inr ⟨t.free, by simp [SlotTable.get_insert]⟩)

/-- The statement ends. It has read the matched rows and no others, it has appended each of them
once, it reports their number, and then it is at its end. -/
def InsertExecutor.Appends {δ σ : Type} [PageDisk δ] (file : FileId)
    (child : Nat → AbstractExecutor (HeapState δ × σ)) (n : Nat) (w : HeapState δ × σ)
    (matched : List Row) : Prop :=
  ∃ k, ∀ fuel, k ≤ fuel → ∃ batch s' log,
    InsertExecutor.next (heapCalls σ file) countSchema (child fuel) fuel (CountingExecutor.start w) n =
        .ok (some batch, s') ∧
      (∀ m, InsertExecutor.next (heapCalls σ file) countSchema (child fuel) fuel s' m =
        .ok (none, s')) ∧
      CountingExecutor.Drained (heapCalls σ file).insertRow (child fuel) n w log s'.world ∧
      log.map Call.row = matched ∧ Replaced w.1 s'.world.1 [] (matched.map Prod.fst) ∧
      Emits batch matched.length

variable {δ σ τ : Type} [PageDisk δ] [LawfulPageDisk δ] {file : FileId} {good : Tuple → Prop}
  {keep : Tuple → Bool} {left todo : τ → List Row} {child : AbstractExecutor (HeapState δ × σ)}
  {source : AbstractExecutor τ} {n m fuel : Nat} {R : HeapState δ × σ → τ → Prop}
  {s : HeapState δ} {c : σ} {w w' : HeapState δ × σ} {a : τ} {row : Row} {rows : List Row}
  {pre pages : PagedTable PageId (List UInt8)} {i : PageId} {t : SlotTable (List UInt8)}
  {log : List (Call (HeapState δ × σ))}

namespace InsertExecutor

/-- What one insert does to the table and to the child. -/
structure Inserts (file : FileId) (left todo : τ → List Row) (R : HeapState δ × σ → τ → Prop)
    (fuel m : Nat) (s s' : HeapState δ) (c : σ) (a : τ) (row : Row) (pages : PagedTable PageId (List UInt8))
    (rid : RecordId) (pages' : PagedTable PageId (List UInt8)) : Prop where
  call : (heapCalls σ file).insertRow (s, c) row = .ok (true, (s', c))
  spacious : Spacious file s' pages' m
  adds : PagedTable.Adds row.1.data pages (rid.pageId, rid.slotNum) pages'
  length : pages'.length ≤ pages.length + 1
  replaced : Replaced s s' [] [row.1]
  passed : Passed (left a) rid → R (s', c) a
  comes : ¬ Passed (left a) rid → (left a).length + 1 < fuel →
    ∃ a', R (s', c) a' ∧ (left a').length = (left a).length + 1 ∧
      (todo a').Perm ((row.1, rid) :: todo a)

theorem replaced_inserted (hr : Reachable file s) {tuple : Tuple}
    (hcan : s.CanInsert tuple) {rid : RecordId} {b : BufferPoolManager δ} {h : TableHeap}
    (he : s.heap.insertTuple s.pool tuple = .ok (some rid, b, h)) :
    Replaced s (s.inserted file tuple (some rid) b h) [] [tuple] := by
  refine ⟨fun bytes => ?_, fun rid' bytes hrid _ => ?_⟩
  · rw [hr.copies_inserted hcan he bytes]
    simp only [List.map_cons, List.map_nil, List.count_singleton, List.count_nil, beq_iff_eq]
    omega
  · have hne : rid' ≠ rid := by
      rintro rfl
      rw [hr.insertTuple_some hcan he] at hrid
      cases hrid
    exact (Function.update_of_ne hne _ _).trans hrid

theorem insertRow_cases (h : Mirrors file good keep left todo child source n fuel R)
    (hR : R (s, c) a) (hgood : good row.1) (hs : Spacious file s (pre ++ [(i, t)]) (m + 1))
    (hfuel : (pre ++ [(i, t)]).length + 1 < fuel) :
    ((∃ fault, (heapCalls σ file).insertRow (s, c) row = .error fault) ∧
        ¬ SlottedPage.Fits t row.1.data.length ∧ ∀ k, t.get k = none) ∨
      ∃ s' rid pages', Inserts file left todo R fuel m s s' c a row (pre ++ [(i, t)]) rid pages' ∧
        (SlottedPage.Fits t row.1.data.length ∧ rid.pageId = i ∨
          (¬ SlottedPage.Fits t row.1.data.length ∧ ∃ k, t.get k ≠ none) ∧
            rid.pageId ∉ (pre ++ [(i, t)]).map Prod.fst) := by
  have hscanned := h.scanned _ hgood
  rcases hs.insertTuple hscanned.pos hscanned.le with
    ⟨⟨message, he⟩, hno, hempty⟩ | ⟨rid, b, h', pages', he, hcan, hs', hadds, hcase⟩
  · refine .inl ⟨⟨.terminated message, ?_⟩, hno, hempty⟩
    simp only [HeapCalls.insertRow, heapCalls, he]
    rfl
  · have hlength : pages'.length ≤ (pre ++ [(i, t)]).length + 1 := hadds.length_le
    obtain ⟨hpassed, hcomes⟩ := h.inserted s _ c a _ pages' row.1 rid _ m hR hgood hs hs' hadds
      (Nat.lt_of_le_of_lt hlength hfuel)
    exact .inr ⟨_, rid, pages', ⟨insertRow_ok row c he, hs', hadds, hlength,
      replaced_inserted hs.reachable hcan he, hpassed, hcomes⟩, hcase⟩

/-! ### What a run says of the table -/

theorem map_row {ω : Type} {call : ω → Row → Except Fault (Bool × ω)} {w w' : ω}
    {log : List (Call ω)} (h : CountingExecutor.CalledRows call w rows log w') :
    log.map Call.row = rows := by
  induction h with
  | nil w => rfl
  | cons _ _ ih => exact congrArg _ ih

/-- The state after a batch of inserts. -/
structure Inserted (file : FileId) (left todo : τ → List Row) (R : HeapState δ × σ → τ → Prop)
    (m k : Nat) (w : HeapState δ × σ) (a : τ) (pages pages' : PagedTable PageId (List UInt8)) (a₀ : τ) :
    Prop where
  state : R w a
  spacious : Spacious file w.1 pages' m
  length : pages'.length ≤ pages.length + k
  left : (left a).length ≤ (left a₀).length + k

theorem calledRows_cases (h : Mirrors file good keep left todo child source n fuel R)
    (hc : CountingExecutor.CalledRows (heapCalls σ file).insertRow w rows log w') (hR : R w a)
    (hgood : ∀ row ∈ rows, good row.1) (hkeep : ∀ row ∈ rows, keep row.1 = true)
    (hs : Spacious file w.1 (pre ++ [(i, t)]) (m + rows.length))
    (hfuel : (pre ++ [(i, t)]).length + rows.length < fuel)
    (hleft : (left a).length + rows.length < fuel) :
    ∃ a' pages', Inserted file left todo R m rows.length w' a'
        (pre ++ [(i, t)]) pages' a ∧
      (due keep (todo a)).length ≤ (due keep (todo a')).length ∧
      ((due keep (todo a')).length = (due keep (todo a)).length →
        a' = a ∧ ∀ row ∈ (left a).head?, (rows ≠ [] → row.2.pageId = i) ∧
          ∃ t', Fills row.2.slotNum t rows t' ∧ pages' = pre ++ [(i, t')]) := by
  induction hc generalizing a pre i t with
  | nil w =>
      exact ⟨a, _, ⟨hR, hs, Nat.le_refl _, Nat.le_refl _⟩, Nat.le_refl _, fun _ => ⟨rfl,
        fun row _ => ⟨fun hne => absurd rfl hne, t, .nil t, rfl⟩⟩⟩
  | @cons w w₁ w' row rows done log hcall hrest ih =>
      obtain ⟨s, c⟩ := w
      rw [List.length_cons] at hs hfuel hleft ⊢
      have hgood' : ∀ r ∈ rows, good r.1 := fun r hr => hgood r (List.mem_cons_of_mem _ hr)
      have hkeep' : ∀ r ∈ rows, keep r.1 = true := fun r hr => hkeep r (List.mem_cons_of_mem _ hr)
      rcases insertRow_cases h hR (hgood row List.mem_cons_self) hs (by omega) with
        ⟨⟨fault, he⟩, _⟩ | ⟨s', rid, pages', hins, hcase⟩
      · cases he.symm.trans hcall
      cases hins.call.symm.trans hcall
      have hlength := hins.length
      obtain ⟨pre', i', t', rfl⟩ := hins.spacious.exists_last
      by_cases hp : Passed (left a) rid
      · obtain ⟨a', pages'', hafter, hdue, heq⟩ := ih (hins.passed hp) hgood' hkeep'
          hins.spacious (by omega) (by omega)
        refine ⟨a', pages'', ⟨hafter.state, hafter.spacious, ?_, ?_⟩, hdue,
          fun hsame => ⟨(heq hsame).1, fun next hnext => ?_⟩⟩
        · have := hafter.length
          omega
        · have := hafter.left
          omega
        · -- The place was passed, so the row has gone to the page where the scan is.
          obtain ⟨hpage, hslot⟩ := hp next hnext
          have hlive := h.live _ _ hR next (List.mem_of_mem_head? hnext)
          have hmem := hs.mem_pages hlive
          rw [← hpage] at hmem
          obtain ⟨hfits, hi⟩ := hcase.resolve_right fun hno => hno.2 hmem
          obtain ⟨hplace, hl⟩ := hins.adds.of_mem hmem
          obtain ⟨rfl, hlast⟩ := List.append_inj' hl rfl
          cases hlast
          obtain ⟨_, t'', hfills, rfl⟩ := (heq hsame).2 next hnext
          have hfree : rid.slotNum = t.free := congrArg Prod.snd hplace
          exact ⟨fun _ => hpage.symm.trans hi, t'', .cons hfits (hfree ▸ hslot) hfills, rfl⟩
      · obtain ⟨a₁, hR₁, hlength₁, hperm⟩ := hins.comes hp (by omega)
        obtain ⟨a', pages'', hafter, hdue, _⟩ := ih hR₁ hgood' hkeep' hins.spacious (by omega)
          (by omega)
        have hmore : (due keep (todo a₁)).length = (due keep (todo a)).length + 1 := by
          have hrow := hkeep row List.mem_cons_self
          simpa [due, hrow] using (hperm.filter fun r => keep r.1).length_eq
        refine ⟨a', pages'', ⟨hafter.state, hafter.spacious, ?_, ?_⟩,
          by omega, fun hsame => by omega⟩
        · have := hafter.length
          omega
        · have := hafter.left
          omega

/-- The rows of a batch are those the child has looked at, if they match. -/
theorem batch_good (h : Mirrors file good keep left todo child source n fuel R) (hR : R w a)
    {seen rest : List Row} (hsplit : todo a = seen ++ rest) :
    (∀ row ∈ due keep seen, good row.1) ∧ ∀ row ∈ due keep seen, keep row.1 = true := by
  refine ⟨fun row hrow => h.rows _ _ hR row ?_, fun row hrow => (List.mem_filter.mp hrow).2⟩
  rw [hsplit]
  exact List.mem_append_left _ (List.mem_of_mem_filter hrow)

theorem length_seen_pos {seen : List Row} (h : rows ≠ [] ∧ rows = due keep seen) : 0 < seen.length :=
  List.length_pos_of_ne_nil fun hnil => h.1 (by rw [h.2, hnil]; rfl)

/-- A statement that ends has inserted all that was due, at least. -/
theorem length_due_le (h : Mirrors file good keep left todo child source n fuel R)
    (hd : CountingExecutor.Drained (heapCalls σ file).insertRow child n w log w') (hR : R w a)
    (hs : Spacious file w.1 pages (m + log.length)) (hfuel : pages.length + log.length < fuel)
    (hleft : (left a).length + log.length < fuel) : (due keep (todo a)).length ≤ log.length := by
  induction hd generalizing a pages with
  | stop hchild =>
      obtain ⟨batch, _, _, _, he, _, _, _, _, _, hbatch⟩ := h.next _ _ hR
      cases he.symm.trans hchild
      rw [show due keep (todo _) = [] from hbatch]
      exact Nat.le_refl 0
  | @batch w w₁ w₂ w' rows log log' hchild hrows hrest ih =>
      obtain ⟨batch, _, a₁, seen, he, _, hR₁, hb, hsplit, hsuffix, hbatch⟩ := h.next _ _ hR
      cases he.symm.trans hchild
      obtain ⟨hgood, hkeep⟩ := batch_good h hR hsplit
      have hlen := congrArg List.length (map_row hrows)
      rw [List.length_map] at hlen
      have hle := hsuffix.length_le
      rw [List.length_append] at hs hfuel hleft ⊢
      rw [← hbatch.2] at hgood hkeep
      obtain ⟨pre, i, t, rfl⟩ := hs.exists_last
      rw [Nat.add_comm log.length, ← Nat.add_assoc, hlen] at hs
      obtain ⟨a₂, pages₂, hafter, hdue, _⟩ := calledRows_cases h hrows hR₁ hgood hkeep
        (hs.browsed hb) (by omega) (by omega)
      have hlength := hafter.length
      have hlengthLeft := hafter.left
      have hrestDue := ih hafter.state hafter.spacious (by omega) (by omega)
      rw [hsplit, due_append, List.length_append, ← hbatch.2]
      omega

/-- If it has inserted no more than that, its scan kept apart from what it inserted. -/
theorem apart_of_drained (h : Mirrors file good keep left todo child source n fuel R)
    (hd : CountingExecutor.Drained (heapCalls σ file).insertRow child n w log w') (hR : R w a)
    (hs : Spacious file w.1 (pre ++ [(i, t)]) (m + log.length))
    (hfuel : (pre ++ [(i, t)]).length + log.length < fuel)
    (hleft : (left a).length + log.length < fuel)
    (hlog : log.length = (due keep (todo a)).length) : Apart source left n i a t := by
  induction hd generalizing a pre t with
  | stop hchild =>
      obtain ⟨batch, _, a₁, _, he, hsource, _⟩ := h.next _ _ hR
      cases he.symm.trans hchild
      exact .stop hsource
  | @batch w w₁ w₂ w' rows log log' hchild hrows hrest ih =>
      obtain ⟨batch, _, a₁, seen, he, hsource, hR₁, hb, hsplit, hsuffix, hbatch⟩ := h.next _ _ hR
      cases he.symm.trans hchild
      obtain ⟨hgood, hkeep⟩ := batch_good h hR hsplit
      have hlen := congrArg List.length (map_row hrows)
      rw [List.length_map] at hlen
      have hle := hsuffix.length_le
      have hsum : (log ++ log').length = log.length + log'.length := List.length_append
      rw [hsum] at hs hfuel hleft hlog
      rw [← hbatch.2] at hgood hkeep
      rw [Nat.add_comm log.length, ← Nat.add_assoc, hlen] at hs
      obtain ⟨a₂, pages₂, hafter, hdue, heq⟩ := calledRows_cases h hrows hR₁ hgood hkeep
        (hs.browsed hb) (by omega) (by omega)
      have hlength := hafter.length
      have hlengthLeft := hafter.left
      have hrestDue := length_due_le h hrest hafter.state hafter.spacious (by omega) (by omega)
      rw [hsplit, due_append, List.length_append, ← hbatch.2] at hlog
      obtain ⟨rfl, hhead⟩ := heq (by omega)
      cases hnext : left a₂ with
      | nil => exact .ended hsource hnext
      | cons row rest =>
          obtain ⟨hpage, t', hfills, rfl⟩ := hhead row (by rw [hnext]; rfl)
          exact .behind hsource hnext (hpage hbatch.1) hfills
            (ih hafter.state hafter.spacious (by omega) (by omega) (by omega))

/-- Its first row found its place. -/
theorem placeable_of_drained (h : Mirrors file good keep left todo child source n fuel R)
    (hd : CountingExecutor.Drained (heapCalls σ file).insertRow child n w log w') (hR : R w a)
    (hs : Spacious file w.1 (pre ++ [(i, t)]) (m + 1)) (hfuel : (pre ++ [(i, t)]).length + 1 < fuel)
    (hlog : log.map Call.row = due keep (todo a)) : Placeable t (due keep (todo a)) := by
  intro row hrow
  rw [← hlog] at hrow
  cases hd with
  | stop _ => cases hrow
  | batch hchild hrows hrest =>
      obtain ⟨batch, _, a₁, seen, he, _, hR₁, hb, hsplit, _, hbatch⟩ := h.next _ _ hR
      cases he.symm.trans hchild
      obtain ⟨hgood, _⟩ := batch_good h hR hsplit
      rw [← hbatch.2] at hgood
      cases hrows with
      | nil => exact absurd rfl hbatch.1
      | @cons _ w₂ _ row' rows done log' hcall hrest' =>
          cases hrow
          rcases insertRow_cases h hR₁ (hgood _ List.mem_cons_self) (hs.browsed hb) hfuel with
            ⟨⟨fault, he'⟩, _⟩ | ⟨_, _, _, _, hcase⟩
          · cases he'.symm.trans hcall
          · exact hcase.imp And.left fun hno => hno.1.2

/-! ### A run that keeps apart -/

/-- The loop over a batch, with its log. All the rows are in the table then. -/
structure Inserting (file : FileId) (R : HeapState δ × σ → τ → Prop) (m : Nat)
    (w w' : HeapState δ × σ) (a : τ) (rows : List Row) (total : BitVec 64)
    (pages' : PagedTable PageId (List UInt8)) (log : List (Call (HeapState δ × σ))) : Prop where
  run : CountingExecutor.callRows (heapCalls σ file).insertRow rows w total =
    .ok (w', total + BitVec.ofNat 64 rows.length)
  called : CountingExecutor.CalledRows (heapCalls σ file).insertRow w rows log w'
  state : R w' a
  spacious : Spacious file w'.1 pages' m
  replaced : Replaced w.1 w'.1 [] (rows.map Prod.fst)

theorem Inserting.nil (hR : R w a) (hs : Spacious file w.1 pages m)
    (total : BitVec 64) : Inserting file R m w w a [] total pages [] :=
  ⟨by rw [List.length_nil, BitVec.add_zero]; rfl, .nil w, hR, hs, .of_map rfl⟩

theorem Inserting.cons {s s' : HeapState δ} {pages' pages'' : PagedTable PageId (List UInt8)}
    {rid : RecordId} {total : BitVec 64} {k : Nat}
    (hi : Inserts file left todo R fuel k s s' c a row pages rid pages')
    (h : Inserting file R m (s', c) w' a rows (total + 1) pages'' log) :
    Inserting file R m (s, c) w' a (row :: rows) total pages'' (⟨(s, c), row, true⟩ :: log) := by
  refine ⟨?_, .cons hi.call h.called, h.state, h.spacious, hi.replaced.trans h.replaced⟩
  rw [CountingExecutor.callRows, hi.call, ok_bind]
  dsimp only
  rw [h.run, List.length_cons, Nat.add_comm rows.length 1, BitVec.ofNat_add, ← BitVec.add_assoc]
  rfl

/-- A scan at its end does not meet what is inserted, wherever this goes. -/
theorem inserting_ended (h : Mirrors file good keep left todo child source n fuel R) (hR : R w a)
    (hgood : ∀ row ∈ rows, good row.1) (hleft : left a = [])
    (hs : Spacious file w.1 (pre ++ [(i, t)]) (m + rows.length))
    (hfuel : (pre ++ [(i, t)]).length + rows.length < fuel) (hplace : Placeable t rows)
    (total : BitVec 64) :
    ∃ w' pre' i' t' log, Inserting file R m w w' a rows total (pre' ++ [(i', t')]) log ∧
      (pre' ++ [(i', t')]).length ≤ (pre ++ [(i, t)]).length + rows.length ∧
      ((∃ k, t.get k ≠ none) ∨ rows ≠ [] → ∃ k, t'.get k ≠ none) := by
  induction rows generalizing w pre i t total with
  | nil => exact ⟨w, pre, i, t, [], .nil hR hs total, Nat.le_refl _,
      fun hlive => hlive.resolve_right fun hne => hne rfl⟩
  | cons row rows ih =>
      obtain ⟨s, c⟩ := w
      rw [List.length_cons] at hs hfuel ⊢
      rcases insertRow_cases h hR (hgood row List.mem_cons_self) hs (by omega) with
        ⟨_, hno, hempty⟩ | ⟨s', rid, pages', hins, hcase⟩
      · obtain ⟨k, hk⟩ := (hplace row rfl).resolve_left hno
        exact absurd (hempty k) hk
      have hlength := hins.length
      have hpassed : Passed (left a) rid := by
        intro next hnext
        rw [hleft] at hnext
        cases hnext
      obtain ⟨pre₁, i₁, t₁, rfl⟩ := hins.spacious.exists_last
      have hlive : ∃ k, t₁.get k ≠ none := hins.adds.last_live
      obtain ⟨w', pre', i', t', log, hrest, hlength', hlive'⟩ := ih (hins.passed hpassed)
        (fun r hr => hgood r (List.mem_cons_of_mem _ hr)) hins.spacious (by omega)
        (fun _ _ => .inr hlive) (total + 1)
      exact ⟨w', pre', i', t', _, .cons hins hrest, by omega, fun _ => hlive' (.inl hlive)⟩

/-- A scan on the last page does not meet what fills the holes behind it. -/
theorem inserting_fills (h : Mirrors file good keep left todo child source n fuel R) (hR : R w a)
    (hgood : ∀ row ∈ rows, good row.1) {next : Row} {rest : List Row} (hleft : left a = next :: rest)
    (hpage : next.2.pageId = i) {t' : SlotTable (List UInt8)} (hfills : Fills next.2.slotNum t rows t')
    (hs : Spacious file w.1 (pre ++ [(i, t)]) (m + rows.length))
    (hfuel : (pre ++ [(i, t)]).length + rows.length < fuel) (total : BitVec 64) :
    ∃ w' log, Inserting file R m w w' a rows total (pre ++ [(i, t')]) log := by
  induction hfills generalizing w total with
  | nil t => exact ⟨w, [], .nil hR hs total⟩
  | @cons t t' row rows hfits hlt _ ih =>
      obtain ⟨s, c⟩ := w
      rw [List.length_cons] at hs hfuel
      rcases insertRow_cases h hR (hgood row List.mem_cons_self) hs (by omega) with
        ⟨_, hno, _⟩ | ⟨s', rid, pages', hins, hcase⟩
      · exact absurd hfits hno
      have hi : rid.pageId = i := (hcase.resolve_right fun hno => hno.1.1 hfits).2
      obtain ⟨hplace, rfl⟩ := hins.adds.of_mem (by simp [hi])
      have hfree : rid.slotNum = t.free := congrArg Prod.snd hplace
      have hpassed : Passed (left a) rid := by
        intro next' hnext
        rw [hleft] at hnext
        cases hnext
        exact ⟨hi.trans hpage.symm, hfree ▸ hlt⟩
      obtain ⟨w', log, hrest⟩ := ih (hins.passed hpassed)
        (fun r hr => hgood r (List.mem_cons_of_mem _ hr)) hins.spacious
        (by rw [List.length_append] at hfuel ⊢; exact Nat.lt_of_succ_lt hfuel) (total + 1)
      exact ⟨w', _, .cons hins hrest⟩

/-- The child is drained, and the matched rows are in the table. -/
def Completes (file : FileId) (child : AbstractExecutor (HeapState δ × σ)) (n steps : Nat)
    (w : HeapState δ × σ) (matched : List Row) (total : BitVec 64) : Prop :=
  ∃ w' log, CountingExecutor.drain (heapCalls σ file).insertRow child n steps w total =
      .ok (w', total + BitVec.ofNat 64 matched.length) ∧
    CountingExecutor.Drained (heapCalls σ file).insertRow child n w log w' ∧
    log.map Call.row = matched ∧ Replaced w.1 w'.1 [] (matched.map Prod.fst)

variable {w₁ : HeapState δ × σ} {steps : Nat} {total : BitVec 64}

theorem Completes.stop (he : child w n = .ok (none, w₁)) (hb : Browsed file w.1 w₁.1) :
    Completes file child n (steps + 1) w [] total := by
  refine ⟨w₁, [], ?_, .stop he, rfl, .of_map hb.map⟩
  rw [CountingExecutor.drain, he, ok_bind, List.length_nil, BitVec.add_zero]
  rfl

theorem Completes.batch {pages' : PagedTable PageId (List UInt8)} {matched : List Row}
    (he : child w n = .ok (some rows, w₁)) (hb : Browsed file w.1 w₁.1)
    (hi : Inserting file R m w₁ w' a rows total pages' log)
    (h : Completes file child n steps w' matched (total + BitVec.ofNat 64 rows.length)) :
    Completes file child n (steps + 1) w (rows ++ matched) total := by
  obtain ⟨w₂, log', hdrain, hdrained, hlog, hreplaced⟩ := h
  refine ⟨w₂, log ++ log', ?_, .batch he hi.called hdrained, ?_, ?_⟩
  · rw [CountingExecutor.drain, he, ok_bind]
    simp only [hi.run, ok_bind, hdrain]
    rw [List.length_append, BitVec.ofNat_add, BitVec.add_assoc]
  · rw [List.map_append, map_row hi.called, hlog]
  · rw [List.map_append]
    exact ((Replaced.of_map hb.map).trans hi.replaced).trans hreplaced

/-- The rest of the statement, after a batch that left the scan at its end. -/
theorem completes_batch_ended {a₁ : τ} {matched : List Row}
    (h : Mirrors file good keep left todo child source n fuel R)
    (he : child w n = .ok (some rows, w₁)) (hb : Browsed file w.1 w₁.1) (hR₁ : R w₁ a₁)
    (hgood : ∀ row ∈ rows, good row.1) (hne : rows ≠ []) (hleft : left a₁ = [])
    (hs : Spacious file w.1 (pre ++ [(i, t)]) (rows ++ matched).length)
    (hfuel : (pre ++ [(i, t)]).length + (rows ++ matched).length < fuel)
    (hplace : Placeable t (rows ++ matched))
    (hrest : ∀ w₂ pre' i' t', R w₂ a₁ → Spacious file w₂.1 (pre' ++ [(i', t')]) matched.length →
      (pre' ++ [(i', t')]).length + matched.length < fuel → Placeable t' matched →
        Completes file child n steps w₂ matched (total + BitVec.ofNat 64 rows.length)) :
    Completes file child n (steps + 1) w (rows ++ matched) total := by
  have hsum : (rows ++ matched).length = matched.length + rows.length := by
    rw [List.length_append, Nat.add_comm]
  rw [hsum] at hs hfuel
  have hplace' : Placeable t rows := fun row hrow => hplace row (by
    rw [List.head?_append, Option.mem_def.mp hrow]
    rfl)
  obtain ⟨w₂, pre', i', t', log, hi, hlength, hlive⟩ :=
    inserting_ended h hR₁ hgood hleft (hs.browsed hb) (by omega) hplace' total
  exact .batch he hb hi (hrest w₂ pre' i' t' hi.state hi.spacious (by omega)
    fun _ _ => .inr (hlive (.inr hne)))

theorem completes_ended (h : Mirrors file good keep left todo child source n fuel R) (hR : R w a)
    (hleft : left a = []) (hs : Spacious file w.1 (pre ++ [(i, t)]) (due keep (todo a)).length)
    (hfuel : (pre ++ [(i, t)]).length + (due keep (todo a)).length < fuel)
    (hsteps : (todo a).length < steps) (hplace : Placeable t (due keep (todo a))) :
    Completes file child n steps w (due keep (todo a)) total := by
  induction steps generalizing w a pre i t total with
  | zero => exact absurd hsteps (Nat.not_lt_zero _)
  | succ steps ih =>
      obtain ⟨batch, w₁, a₁, seen, he, _, hR₁, hb, hsplit, hsuffix, hbatch⟩ := h.next _ _ hR
      cases batch with
      | none =>
          rw [show due keep (todo a) = [] from hbatch]
          exact .stop he hb
      | some rows =>
          obtain ⟨hgood, _⟩ := batch_good h hR hsplit
          have hsome := length_seen_pos hbatch
          have hleft₁ : left a₁ = [] := List.suffix_nil.mp (hleft ▸ hsuffix)
          rw [hsplit, List.length_append] at hsteps
          rw [hsplit, due_append, ← hbatch.2] at hs hfuel hplace ⊢
          exact completes_batch_ended h he hb hR₁ (hbatch.2 ▸ hgood) hbatch.1 hleft₁ hs hfuel hplace
            fun w₂ pre' i' t' hR₂ hs₂ hfuel₂ hplace₂ =>
              ih hR₂ hleft₁ hs₂ hfuel₂ (by omega) hplace₂

/-- A statement whose scan keeps apart ends, with the matched rows in the table. -/
theorem completes_apart (h : Mirrors file good keep left todo child source n fuel R)
    (ha : Apart source left n i a t) (hR : R w a)
    (hs : Spacious file w.1 (pre ++ [(i, t)]) (due keep (todo a)).length)
    (hfuel : (pre ++ [(i, t)]).length + (due keep (todo a)).length < fuel)
    (hsteps : (todo a).length < steps) (hplace : Placeable t (due keep (todo a))) :
    Completes file child n steps w (due keep (todo a)) total := by
  induction ha generalizing w steps total with
  | @stop a _ t hsource =>
      obtain ⟨_, w₁, _, _, he, hsame, _, hb, _, _, hbatch⟩ := h.next _ _ hR
      cases hsame.symm.trans hsource
      obtain ⟨steps, rfl⟩ := Nat.exists_eq_add_of_lt hsteps
      rw [show due keep (todo a) = [] from hbatch]
      exact .stop he hb
  | @ended a a₁ rows t hsource hleft =>
      obtain ⟨_, w₁, _, seen, he, hsame, hR₁, hb, hsplit, _, hbatch⟩ := h.next _ _ hR
      cases hsame.symm.trans hsource
      obtain ⟨hgood, _⟩ := batch_good h hR hsplit
      have hsome := length_seen_pos hbatch
      cases steps with
      | zero => exact absurd hsteps (Nat.not_lt_zero _)
      | succ steps =>
          rw [hsplit, List.length_append] at hsteps
          rw [hsplit, due_append, ← hbatch.2] at hs hfuel hplace ⊢
          exact completes_batch_ended h he hb hR₁ (hbatch.2 ▸ hgood) hbatch.1 hleft hs hfuel hplace
            fun w₂ pre' i' t' hR₂ hs₂ hfuel₂ hplace₂ =>
              completes_ended h hR₂ hleft hs₂ hfuel₂ (by omega) hplace₂
  | @behind a a₁ rows rest row t t' hsource hleft hlast hfills _ ih =>
      obtain ⟨_, w₁, _, seen, he, hsame, hR₁, hb, hsplit, _, hbatch⟩ := h.next _ _ hR
      cases hsame.symm.trans hsource
      obtain ⟨hgood, _⟩ := batch_good h hR hsplit
      have hsome := length_seen_pos hbatch
      have hsum : (rows ++ due keep (todo a₁)).length =
          (due keep (todo a₁)).length + rows.length := by
        rw [List.length_append, Nat.add_comm]
      cases steps with
      | zero => exact absurd hsteps (Nat.not_lt_zero _)
      | succ steps =>
          rw [hsplit, List.length_append] at hsteps
          rw [hsplit, due_append, ← hbatch.2] at hs hfuel ⊢
          rw [hsum] at hs hfuel
          obtain ⟨w₂, log, hi⟩ := inserting_fills h hR₁ (hbatch.2 ▸ hgood) hleft hlast hfills
            (hs.browsed hb) (by rw [List.length_append] at hfuel ⊢; omega) total
          refine .batch he hb hi (ih hi.state hi.spacious ?_ (by omega)
            fun _ _ => .inr (hfills.live (.inl hbatch.1)))
          rw [List.length_append, List.length_singleton] at hfuel ⊢
          omega

/-! ### The condition -/

variable {childs : Nat → AbstractExecutor (HeapState δ × σ)} {sources : Nat → AbstractExecutor τ}
  {Rs : Nat → HeapState δ × σ → τ → Prop} {k : Nat}

omit [LawfulPageDisk δ] in
theorem appends_of_completes (h : ∀ fuel, k ≤ fuel → Completes file (childs fuel) n fuel w rows 0)
    (hlength : rows.length < 2 ^ 31) : Appends file childs n w rows := by
  refine ⟨k, fun fuel hfuel => ?_⟩
  obtain ⟨w', log, hdrain, hdrained, hlog, hreplaced⟩ := h fuel hfuel
  obtain ⟨batch, hbatch⟩ := exists_countTuple (BitVec.ofNat 64 rows.length)
  rw [show (0 : BitVec 64) + BitVec.ofNat 64 rows.length = BitVec.ofNat 64 rows.length from
    BitVec.zero_add _] at hdrain
  refine ⟨[(batch, .invalid)], ⟨w', BitVec.ofNat 64 rows.length, true⟩, log, ?_, fun m => rfl,
    hdrained, hlog, hreplaced, (emits_count_iff (by decide) hbatch).mpr hlength⟩
  rw [InsertExecutor.next, CountingExecutor.next, CountingExecutor.start,
    if_neg Bool.false_ne_true]
  simp only [hdrain, hbatch, ok_bind]
  rfl

theorem appends_iff_apart
    (h : ∀ fuel, k ≤ fuel →
      Mirrors file good keep left todo (childs fuel) (sources fuel) n fuel (Rs fuel))
    (hR : ∀ fuel, k ≤ fuel → Rs fuel w a)
    (hsame : ∀ fuel, k ≤ fuel → (Apart (sources fuel) left n i a t ↔ Apart (sources k) left n i a t))
    (hs : Spacious file w.1 (pre ++ [(i, t)]) (due keep (todo a)).length) :
    Appends file childs n w (due keep (todo a)) ↔ Apart (sources k) left n i a t ∧
      Placeable t (due keep (todo a)) ∧ (due keep (todo a)).length < 2 ^ 31 := by
  constructor
  · rintro ⟨k', hk'⟩
    obtain ⟨fuel, hle, hle', hfuel⟩ : ∃ fuel, k ≤ fuel ∧ k' ≤ fuel ∧ (pre ++ [(i, t)]).length +
        (due keep (todo a)).length + (left a).length < fuel :=
      ⟨_, Nat.le_trans (Nat.le_max_left _ _) (Nat.le_max_left _ _),
        Nat.le_trans (Nat.le_max_right k k') (Nat.le_max_left _ _),
        Nat.lt_of_lt_of_le (Nat.lt_succ_self _) (Nat.le_max_right _ _)⟩
    obtain ⟨batch, s', log, hnext, _, hdrained, hlog, _, hemits⟩ := hk' fuel hle'
    have hlength : log.length = (due keep (todo a)).length := by rw [← hlog, List.length_map]
    have hs' : Spacious file w.1 (pre ++ [(i, t)]) (0 + log.length) := by
      rw [hlength, Nat.zero_add]
      exact hs
    obtain ⟨t', ht', rfl⟩ := CountingExecutor.next_start hnext hdrained
    rw [hlength] at ht'
    refine ⟨(hsame fuel hle).mp (apart_of_drained (h fuel hle) hdrained (hR fuel hle) hs' (by omega)
      (by omega) hlength), fun row hrow => ?_, (emits_count_iff (by decide) ht').mp hemits⟩
    have hpos : 0 < (due keep (todo a)).length :=
      List.length_pos_of_mem (List.mem_of_mem_head? hrow)
    exact placeable_of_drained (h fuel hle) hdrained (hR fuel hle)
      (m := 0) (hs.mono hpos) (by omega) hlog row hrow
  · rintro ⟨hapart, hplace, hlength⟩
    refine appends_of_completes (k := max k ((pre ++ [(i, t)]).length +
      (due keep (todo a)).length + (todo a).length + 1)) (fun fuel hfuel => ?_) hlength
    have hle : k ≤ fuel := by omega
    exact completes_apart (h fuel hle) ((hsame fuel hle).mpr hapart) (hR fuel hle) hs (by omega)
      (by omega) hplace

end InsertExecutor

/-! ## The fuel of a filter over a list -/

namespace FilterExecutor

variable {filterExpr : Option (Tuple → Except Fault Value)} {fuel' : Nat}

theorem loop_listSource (hn : 1 ≤ n) {batch : List Row} {r : Option (List Row) × State (List Row)}
    (he : loop filterExpr listSource n fuel rows batch = .ok r) (hlt : rows.length < fuel') :
    loop filterExpr listSource n fuel' rows batch = .ok r ∧ r.2.child.length ≤ rows.length := by
  induction fuel generalizing fuel' rows batch with
  | zero => cases he
  | succ fuel ih =>
      cases fuel' with
      | zero => exact absurd hlt (Nat.not_lt_zero _)
      | succ fuel' =>
          rw [loop, listSource_eq rows hn, ok_bind] at he ⊢
          by_cases hnil : (rows.take n).isEmpty
          · rw [if_pos hnil] at he ⊢
            cases he
            exact ⟨rfl, (List.drop_suffix n rows).length_le⟩
          · rw [if_neg hnil] at he ⊢
            obtain ⟨⟨batch', full⟩, hfill, he⟩ := bind_eq_ok.mp he
            dsimp only
            rw [hfill, ok_bind]
            cases full with
            | none =>
                have hpos : 0 < rows.length := List.length_pos_of_ne_nil fun h => hnil (by simp [h])
                have hdrop : (rows.drop n).length = rows.length - n := List.length_drop
                have hlt' : (rows.drop n).length < fuel' := by omega
                obtain ⟨hrun, hle⟩ := ih he hlt'
                exact ⟨hrun, by omega⟩
            | some i =>
                cases he
                exact ⟨rfl, (List.drop_suffix n rows).length_le⟩

theorem next_listSource (hn : 1 ≤ n) {a : State (List Row)}
    {r : Option (List Row) × State (List Row)}
    (he : FilterExecutor.next filterExpr listSource fuel a n = .ok r)
    (hlt : a.child.length < fuel') :
    FilterExecutor.next filterExpr listSource fuel' a n = .ok r ∧
      r.2.child.length ≤ a.child.length := by
  rw [FilterExecutor.next] at he ⊢
  by_cases ho : a.childOffset ≠ 0
  · rw [if_pos ho] at he ⊢
    obtain ⟨batch, hbatch, he⟩ := bind_eq_ok.mp he
    rw [hbatch]
    exact loop_listSource hn he hlt
  · rw [if_neg ho] at he ⊢
    exact loop_listSource hn he hlt

theorem apart_fuel (hn : 1 ≤ n) {a : State (List Row)}
    (h : Apart (FilterExecutor.next filterExpr listSource fuel) State.child n i a t)
    (hlt : a.child.length < fuel') :
    Apart (FilterExecutor.next filterExpr listSource fuel') State.child n i a t := by
  induction h with
  | stop h => exact .stop (next_listSource hn h hlt).1
  | ended h hleft => exact .ended (next_listSource hn h hlt).1 hleft
  | behind h hleft hlast hfills _ ih =>
      obtain ⟨hrun, hle⟩ := next_listSource hn h hlt
      exact .behind hrun hleft hlast hfills (ih (Nat.lt_of_le_of_lt hle hlt))

end FilterExecutor

/-! ## Main results -/

open SeqScanExecutor in
/-- With two frames to be had, and room for as many pages as rows match, `INSERT … SELECT` over its
own table appends the rows that match before it, each once, exactly if over the list of these rows
its child keeps apart from what goes to the last page, the first row finds a place, and `int32_t` has
their number. -/
theorem insert_select_iff (file : FileId) (s : HeapState δ) (tableOid k n : Nat)
    (hr : Reachable file s) (htwo : TwoUnpinned s.pool) (hn : 1 ≤ n) (hk : s.pageCount file < k) :
    ∃ s' e store l p, initOn k tableOid s = .ok (s', e) ∧ Holds file s store l ∧
      s.pool.stored ⟨file, s.heap.lastPageId⟩ = some p ∧
      (s.pool.HasRoomFor (liveRows l).length →
        (InsertExecutor.Appends file (fun fuel => nextOn fuel) n (s', e) (liveRows l) ↔
          Apart listSource id n s.heap.lastPageId (liveRows l) (SlottedPage.slots p) ∧
            Placeable (SlottedPage.slots p) (liveRows l) ∧ (liveRows l).length < 2 ^ 31)) ∧
      ∀ filterExpr keep, (∀ row ∈ liveRows l,
          FilterExecutor.passes filterExpr row.1 = .ok (keep row.1)) →
        s.pool.HasRoomFor (due keep (liveRows l)).length →
        (InsertExecutor.Appends file
            (fun fuel => FilterExecutor.nextOn filterExpr (nextOn fuel) fuel) n
            (s', FilterExecutor.start e) (due keep (liveRows l)) ↔
          Apart (FilterExecutor.next filterExpr listSource ((liveRows l).length + 1))
              FilterExecutor.State.child n s.heap.lastPageId (FilterExecutor.start (liveRows l))
              (SlottedPage.slots p) ∧
            Placeable (SlottedPage.slots p) (due keep (liveRows l)) ∧
              (due keep (liveRows l)).length < 2 ^ 31) := by
  obtain ⟨store, l, hs⟩ := hr.holds
  obtain ⟨pre, p, hl, hp⟩ := hs.exists_last
  have htwo' := hs.twoObtainable_iff.mp htwo
  have hcan : CanRead file s := by
    obtain ⟨f, _, hf, _⟩ := htwo'
    exact .inl (hs.sharing.pool.not_full_iff.mpr ⟨f, hf⟩)
  obtain ⟨⟨s', e⟩, hinit, hahead, hbrowsed⟩ := initOn_liveRows tableOid hr hs hcan hk
  have hahead' : ∀ fuel, s'.pageCount file + 1 ≤ fuel → Ahead file fuel (s', e) (liveRows l) :=
    fun fuel hfuel => ⟨hahead.reachable, hahead.canRead, hfuel, hahead.reads⟩
  have hspacious : ∀ m, s.pool.HasRoomFor m →
      Spacious file s' (Pages.contents pre ++ [(s.heap.lastPageId, SlottedPage.slots p)]) m := by
    intro m hm
    refine Spacious.browsed ⟨hr, ⟨store, l, hs, ?_⟩, htwo', hm⟩ hbrowsed
    rw [hl]
    exact Chain.contents_middle pre s.heap.lastPageId p []
  refine ⟨s', e, store, l, p, hinit, hs, hp, fun hroom => ?_, fun filterExpr keep hkeep hroom => ?_⟩
  · have hall : due (fun _ => true) (liveRows l) = liveRows l := List.filter_true _
    have hiff := InsertExecutor.appends_iff_apart (t := SlottedPage.slots p)
      (fun fuel _ => mirrors hn fuel) hahead' (fun _ _ => Iff.rfl)
      (hspacious (due (fun _ => true) (liveRows l)).length (by rw [hall]; exact hroom))
    rw [show due (fun _ => true) (id (liveRows l)) = liveRows l from hall] at hiff
    exact hiff
  · have hstart : ∀ fuel, max (s'.pageCount file) (liveRows l).length + 1 ≤ fuel →
        FilterExecutor.Mirrored (Ahead file fuel) (FilterExecutor.Decided filterExpr keep) fuel
          (s', FilterExecutor.start e) (FilterExecutor.start (liveRows l)) := by
      intro fuel hfuel
      have h := hahead' fuel (by omega)
      refine ⟨h, rfl, rfl, fun row hrow => ⟨h.scanned row hrow, hkeep row hrow⟩, ?_⟩
      show (liveRows l).length < fuel
      omega
    have hfuel : ∀ k', (liveRows l).length < k' → ∀ k'', (liveRows l).length < k'' →
        Apart (FilterExecutor.next filterExpr listSource k') FilterExecutor.State.child n
            s.heap.lastPageId (FilterExecutor.start (liveRows l)) (SlottedPage.slots p) →
          Apart (FilterExecutor.next filterExpr listSource k'') FilterExecutor.State.child n
            s.heap.lastPageId (FilterExecutor.start (liveRows l)) (SlottedPage.slots p) :=
      fun k' _ k'' hk'' h => FilterExecutor.apart_fuel hn h hk''
    have hiff := InsertExecutor.appends_iff_apart (t := SlottedPage.slots p)
      (fun fuel _ => FilterExecutor.mirrors (mirrors hn fuel) hn) hstart
      (fun fuel hle => ⟨hfuel fuel (by omega) _ (by omega), hfuel _ (by omega) fuel (by omega)⟩)
      (hspacious (due keep (liveRows l)).length hroom)
    exact hiff.trans (and_congr_left fun _ =>
      ⟨hfuel _ (by omega) _ (by omega), hfuel _ (by omega) _ (by omega)⟩)

open SeqScanExecutor in
/-- Two rows on one page. A batch of two takes both before the first insert. In batches of one the
scan meets what it inserts. -/
theorem insert_select_iff_two_rows : ∃ (s s' : HeapState Disk.PageMap) (e : SeqScanExecutor)
    (rows : List Row), Reachable 0 s ∧ initOn (s.pageCount 0 + 1) 0 s = .ok (s', e) ∧
      rows.length = 2 ∧ InsertExecutor.Appends 0 (fun fuel => nextOn fuel) 2 (s', e) rows ∧
        ¬ InsertExecutor.Appends 0 (fun fuel => nextOn fuel) 1 (s', e) rows := by
  obtain ⟨s₀, h₀⟩ := exists_led 0
  obtain ⟨s₁, h₁⟩ := Led.insert [] [1] [(0, [some [1]])] h₀ (by decide) (by decide)
    (fun _ => by decide) (.inl (by decide)) (by decide) trivial
  obtain ⟨s, h⟩ := Led.insert [] [2] [(0, [some [1], some [2]])] h₁ (by decide) (by decide)
    (fun _ => by decide) (.inl (by decide)) (by decide) trivial
  obtain ⟨s', e, store, l, p, hinit, hs, hp, htwo, _⟩ := insert_select_iff 0 s 0
    (s.pageCount 0 + 1) 2 h.reachable h.twoUnpinned (by decide) (Nat.lt_succ_self _)
  obtain ⟨s₂, e₂, store₂, l₂, p₂, hinit₂, hs₂, hp₂, hone, _⟩ := insert_select_iff 0 s 0
    (s.pageCount 0 + 1) 1 h.reachable h.twoUnpinned (by decide) (Nat.lt_succ_self _)
  cases hinit.symm.trans hinit₂
  cases hp.symm.trans hp₂
  obtain rfl := hs.unique hs₂
  have hl : l.contents = [(0, [some [1], some [2]])] := by
    obtain ⟨store', l', hs', hl'⟩ := h.holds
    rw [hs.unique hs', hl']
  have hrows : liveRows l = [(⟨[1], .invalid⟩, ⟨0, 0⟩), (⟨[2], .invalid⟩, ⟨0, 1⟩)] := by
    rw [liveRows, hl]
    rfl
  have hp' : SlottedPage.slots p = [some [1], some [2]] := by
    obtain ⟨pre, p', hlast, hp'⟩ := hs.exists_last
    cases hp.symm.trans hp'
    have hlast' : Pages.contents pre ++ [(s.heap.lastPageId, SlottedPage.slots p)] =
        [] ++ [(0, [some [1], some [2]])] := by
      rw [List.nil_append, ← hl, hlast]
      exact (Chain.contents_middle pre s.heap.lastPageId p []).symm
    exact congrArg Prod.snd (List.head_eq_of_cons_eq (List.append_inj' hlast' rfl).2)
  rw [hrows, hp'] at htwo hone
  have hroom : s.pool.HasRoomFor 2 := ⟨by rw [h.next]; decide, .inl h.small⟩
  refine ⟨s, s', e, _, h.reachable, hinit, rfl, (htwo hroom).mpr ⟨.ended rfl rfl, ?_, by decide⟩, ?_⟩
  · rintro _ ⟨⟩
    exact .inl (by decide)
  · intro happends
    obtain ⟨hapart, _⟩ := (hone hroom).mp happends
    cases hapart with
    | stop h => cases h
    | ended h hleft =>
        cases h
        cases hleft
    | behind h hleft _ hfills _ =>
        cases h
        cases hleft
        cases hfills with
        | cons _ hlt _ => exact absurd hlt (by decide)

end TurtleDb.Execution
