import TurtleDb.Execution.StatementRuns

/-!
# UPDATE and DELETE over scans

Over a scan or a filter the effects are those on the matching tuples of the table. A table can have
more of them than are counted.
-/

namespace TurtleDb.Execution

open TurtleDb.Lib TurtleDb.Buffer TurtleDb.Buffer.BufferPoolManager TurtleDb.Page TurtleDb.Table
  TurtleDb.Table.HeapState TurtleDb.Datatype

variable {δ : Type} [PageDisk δ] [LawfulPageDisk δ] {file : FileId}

theorem length_rows {P : (RecordId → Option (List UInt8)) → Prop} {s : HeapState Disk.PageMap}
    {c : PagedTable PageId (List UInt8)} {rows : List Row} (h : Led file P s c)
    (hnodup : (rows.map Prod.snd).Nodup)
    (hrows : ∀ row, row ∈ rows ↔ s.map row.2 = some row.1.data ∧ row.1.recordId = .invalid) :
    rows.length = (PagedTable.entries c).length := by
  obtain ⟨store, l, hs, rfl⟩ := h.holds
  have hperm : (rows.map Prod.snd).Perm ((PagedTable.entries l.contents).map Entry.rid) := by
    rw [List.perm_ext_iff_of_nodup hnodup (nodup_rids hs.nodup)]
    intro rid
    rw [hs.mem_rids_iff, List.mem_map]
    constructor
    · rintro ⟨row, hrow, rfl⟩
      rw [((hrows row).mp hrow).1]
      exact Option.some_ne_none _
    · intro hlive
      obtain ⟨bytes, hb⟩ := Option.ne_none_iff_exists'.mp hlive
      exact ⟨(⟨bytes, .invalid⟩, rid), (hrows _).mpr ⟨hb, rfl⟩, rfl⟩
  have hlength := hperm.length_eq
  rwa [List.length_map, List.length_map] at hlength

/-! ## Main results -/

/-- Both statements do this over every child that yields the matching rows once. A sequential scan
of a heap that can be read yields the live tuples, and a filter over it those that its predicate
selects. -/
theorem effects_iff (file : FileId) {n : Nat} (hn : 1 ≤ n) :
    (∀ {σ : Type} {child : AbstractExecutor (HeapState δ × σ)}
        {R : HeapState δ × σ → List Row → Prop} {matching : Row → Bool},
      Yielding file matching child R → ∀ w rest fuel, R w rest → rest.length < fuel →
        UpdateExecutor.Changes file child fuel n w (rest.filter matching) ∧
          DeleteExecutor.Changes file child fuel n w (rest.filter matching)) ∧
      ∀ (s : HeapState δ) (tableOid k : Nat), Reachable file s → CanRead file s →
        s.pageCount file < k →
        ∃ s' e rest, SeqScanExecutor.initOn k tableOid s = .ok (s', e) ∧ s'.map = s.map ∧
          (rest.map Prod.snd).Nodup ∧
          (∀ row, row ∈ rest ↔ s.map row.2 = some row.1.data ∧ row.1.recordId = .invalid) ∧
          ∀ fuel, rest.length < fuel →
            (UpdateExecutor.Changes file (SeqScanExecutor.nextOn k) fuel n (s', e) rest ∧
              DeleteExecutor.Changes file (SeqScanExecutor.nextOn k) fuel n (s', e) rest) ∧
            ∀ filterExpr keep, FilterExecutor.Selects filterExpr keep rest →
              UpdateExecutor.Changes file
                  (FilterExecutor.nextOn filterExpr (SeqScanExecutor.nextOn k) fuel) fuel n
                  (s', FilterExecutor.start e) (rest.filter keep) ∧
                DeleteExecutor.Changes file
                  (FilterExecutor.nextOn filterExpr (SeqScanExecutor.nextOn k) fuel) fuel n
                  (s', FilterExecutor.start e) (rest.filter keep) := by
  refine ⟨fun hchild w rest fuel hw hfuel => ⟨UpdateExecutor.changes hchild hw hn hfuel,
    DeleteExecutor.changes hchild hw hn hfuel⟩, fun s tableOid k hr hcan hk => ?_⟩
  obtain ⟨⟨s', e⟩, rest, hinit, hahead, hmap, hrows⟩ :=
    SeqScanExecutor.initOn_ahead tableOid hr hcan hk
  have hscan : Yielding file _ (SeqScanExecutor.nextOn k) _ := SeqScanExecutor.yielding (δ := δ) k
  refine ⟨s', e, rest, hinit, hmap, hahead.pending.nodup, hrows, fun fuel hfuel => ?_⟩
  refine ⟨?_, fun filterExpr keep hselects => ?_⟩
  · have hupdate := UpdateExecutor.changes hscan hahead hn hfuel
    have hdelete := DeleteExecutor.changes hscan hahead hn hfuel
    rw [List.filter_true] at hupdate hdelete
    exact ⟨hupdate, hdelete⟩
  · have hfilter : Yielding file keep (FilterExecutor.nextOn filterExpr _ fuel) _ :=
      FilterExecutor.yielding hscan
    have hstart := FilterExecutor.facing_start hscan hahead hselects.decides hfuel
    exact ⟨UpdateExecutor.changes hfilter hstart hn hfuel,
      DeleteExecutor.changes hfilter hstart hn hfuel⟩

/-! ## Two numbers -/

def numbers : ColumnSchema := [⟨"n", .integer, 4⟩]

/-- The tuple of a small number. -/
def number (n : UInt8) : List UInt8 := [0, n, 0, 0, 0]

def numberRow (n : UInt8) (rid : RecordId) : Row := (⟨number n, .invalid⟩, rid)

/-- `n > 5`. -/
def aboveFive (tuple : Tuple) : Except Fault Value :=
  Expression.evaluate numbers tuple (.comparison (.columnValue 0 0 .integer)
    (.constantValue (Value.ofInt32 .integer 5)) .greaterThan)

/-- `SET n = n + 1`. -/
def increment : UpdatePlanNode where
  outputSchema := countSchema
  schema := numbers
  targetExpressions := [fun tuple => do
    let n ← tuple.value numbers 0
    n.addValue (Value.ofInt32 .integer 1)]

theorem builds_increment : Builds increment.schema increment.targetExpressions
    ⟨number 6, .invalid⟩ ⟨number 7, .invalid⟩ :=
  ⟨[Value.ofInt32 .integer 7], rfl, rfl⟩

theorem selects_aboveFive : FilterExecutor.Selects (some aboveFive)
    (fun row => row.1.data == number 6) [numberRow 5 ⟨0, 0⟩, numberRow 6 ⟨0, 2⟩] := by
  intro row hrow
  rcases List.mem_pair.mp hrow with rfl | rfl
  · exact ⟨Value.ofInt8 .boolean 0, rfl, by decide⟩
  · exact ⟨Value.ofInt8 .boolean 1, rfl, by decide⟩

/-- Five and six, with a deleted tuple between them. -/
theorem exists_numbers : ∃ s : HeapState Disk.PageMap,
    Led 0 (Sized 1 456) s [(0, [some (number 5), none, some (number 6)])] := by
  obtain ⟨s₀, h₀⟩ := Led.create (P := Sized 1 456) 2 Disk.PageMap.zero trivial (by decide)
    (by decide) (by rintro _ _ ⟨⟩)
  obtain ⟨s₁, h₁⟩ := Led.insert [] (number 5) [(0, [some (number 5)])] h₀ (by decide) (by decide)
    (fun _ => by decide) (.inl (by decide)) (by decide) (sized_mapOf (by decide))
  obtain ⟨s₂, h₂⟩ := Led.insert [] (number 4) [(0, [some (number 5), some (number 4)])] h₁
    (by decide) (by decide) (fun _ => by decide) (.inl (by decide)) (by decide)
    (sized_mapOf (by decide))
  obtain ⟨s₃, h₃⟩ := Led.insert [] (number 6)
    [(0, [some (number 5), some (number 4), some (number 6)])] h₂ (by decide) (by decide)
    (fun _ => by decide) (.inl (by decide)) (by decide) (sized_mapOf (by decide))
  exact h₃.delete ⟨0, 1⟩ _ ⟨_, List.mem_singleton.mpr rfl, by decide⟩ (by decide)
    (sized_mapOf (by decide))

/-- `UPDATE … SET n = n + 1 WHERE n > 5` makes a seven of the six, and `DELETE … WHERE n > 5`
removes it. -/
theorem effects_iff_numbers : ∃ (s s' : HeapState Disk.PageMap) (e : SeqScanExecutor) (fuel : Nat),
    Reachable 0 s ∧ s.map = mapOf [(0, [some (number 5), none, some (number 6)])] ∧
      SeqScanExecutor.initOn fuel 0 s = .ok (s', e) ∧
      (∃ w' batch, UpdateExecutor.next increment (heapCalls _ 0)
          (FilterExecutor.nextOn (some aboveFive) (SeqScanExecutor.nextOn fuel) fuel) fuel
          (UpdateExecutor.start (s', FilterExecutor.start e)) 1 = .ok (some batch, ⟨w', true⟩) ∧
        Changed s' w'.1 [numberRow 6 ⟨0, 2⟩] [⟨number 7, .invalid⟩] batch) ∧
      ∃ batch w', DeleteExecutor.next (heapCalls _ 0) countSchema
          (FilterExecutor.nextOn (some aboveFive) (SeqScanExecutor.nextOn fuel) fuel) fuel
          (CountingExecutor.start (s', FilterExecutor.start e)) 1 = .ok (some batch, w') ∧
        Changed s' w'.world.1 [numberRow 6 ⟨0, 2⟩] [] batch := by
  obtain ⟨s, hled⟩ := exists_numbers
  have hready : Ready 0 1 456 s 1 := hled.ready (by decide)
  obtain ⟨store, l, hs, hl⟩ := hled.holds
  have hlive : SeqScanExecutor.liveRows l = [numberRow 5 ⟨0, 0⟩, numberRow 6 ⟨0, 2⟩] := by
    rw [SeqScanExecutor.liveRows, hl]
    rfl
  obtain ⟨s', e, rest, hinit, _, hnodup, hrows, hdo⟩ :=
    (effects_iff (δ := Disk.PageMap) 0 (n := 1) (Nat.le_refl 1)).2 s 0 (s.pageCount 0 + 3)
      hready.within.reachable hready.canRead (by omega)
  have hlength : rest.length = 2 := length_rows hled hnodup hrows
  have hselects : FilterExecutor.Selects (some aboveFive) (fun row => row.1.data == number 6)
      (SeqScanExecutor.liveRows l) := hlive ▸ selects_aboveFive
  obtain ⟨⟨w₁, hcollect, hupdate⟩, batch', st, hdelete, _, hdeleted⟩ :=
    (hdo (s.pageCount 0 + 3) (by omega)).2 (some aboveFive) (fun row => row.1.data == number 6)
      fun row hrow => hselects row
        ((SeqScanExecutor.mem_liveRows hs row).mpr ((hrows row).mp hrow))
  obtain ⟨w, w₁', hinit', _, _, hcollect', hpending, hready₁⟩ :=
    Target.collect_ready (.filter (some aboveFive)) 0 hready hs hselects.decides (Nat.le_refl 1)
      (by omega : s.pageCount 0 < s.pageCount 0 + 3) (by rw [hlive]; simp)
  cases hinit'.symm.trans (bind_eq_ok.mpr ⟨_, hinit, rfl⟩)
  have hsame := hcollect.symm.trans hcollect'
  have hmatched : (SeqScanExecutor.liveRows l).filter (fun row => row.1.data == number 6) =
      [numberRow 6 ⟨0, 2⟩] := by
    rw [hlive]
    rfl
  rw [hmatched] at hsame hpending
  obtain ⟨hfilter, rfl⟩ := Prod.mk.inj (Except.ok.inj hsame)
  rw [hfilter] at hupdate hdeleted
  obtain ⟨log, w', hlog, hlogged, htuples, hdone, _⟩ :=
    UpdateExecutor.updatedRows_ready hready₁
      (show headerSize + slotSize * capacity 1 + 456 ≤ pageSize by decide) (by decide) (by decide)
      hpending (.cons builds_increment .nil) (by decide)
  obtain ⟨batch, hnext, _, _, hchanged⟩ := hupdate increment log w' rfl hlog hlogged hdone
  have hreplaced := (congrArg (Changed s' w'.1 [numberRow 6 ⟨0, 2⟩] · batch) htuples).mp
    (hchanged.mpr (by decide))
  refine ⟨s, s', e, s.pageCount 0 + 3, hready.within.reachable, ?_, hinit,
    ⟨w', batch, hnext, hreplaced⟩, batch', st, hdelete, hdeleted.mpr (by decide)⟩
  rw [← hl]
  exact funext hs.map

/-! ## Tables of any size -/

section
variable {n : Nat}

/-- There is a heap with `n` tuples of one byte. -/
theorem exists_filled (file : FileId) (n : Nat) (hn : n < invalidPageId) :
    ∃ (s : HeapState Disk.PageMap) (pre : PagedTable PageId (List UInt8)) (i : PageId)
      (t : SlotTable (List UInt8)), Led file (fun _ => True) s (pre ++ [(i, t)]) ∧
        (PagedTable.entries (pre ++ [(i, t)])).length = n ∧ (pre ++ [(i, t)]).length ≤ n + 1 ∧
        (t = [] ∨ ∃ k, t.get k ≠ none) := by
  induction n with
  | zero =>
      obtain ⟨s, hs⟩ := exists_led file
      exact ⟨s, [], 0, [], hs, rfl, Nat.le_refl 1, .inl rfl⟩
  | succ n ih =>
      obtain ⟨s, pre, i, t, hs, hcount, hlength, hlast⟩ := ih (Nat.lt_of_succ_lt hn)
      have hids : (pre ++ [(i, t)]).length < invalidPageId := Nat.lt_of_le_of_lt hlength hn
      have hok : SlottedPage.Fits t 1 ∨ ∃ k, t.get k ≠ none := by
        refine hlast.imp_left fun hnil => ?_
        rw [hnil]
        decide
      by_cases hfits : SlottedPage.Fits t 1
      · obtain ⟨s', hs'⟩ := Led.insert pre [1] (pre ++ [(i, t.insert [1])]) hs (by decide)
          (by decide) (fun _ => hids) hok (by rw [List.length_singleton, if_pos hfits]) trivial
        refine ⟨s', pre, i, _, hs', ?_, ?_, .inr ⟨t.free, by simp [SlotTable.get_insert]⟩⟩
        · rw [(PagedTable.Adds.fill pre i t).entries_perm.length_eq, List.length_cons, hcount]
        · simpa using Nat.le_succ_of_le hlength
      · obtain ⟨s', hs'⟩ := Led.insert pre [1] ((pre ++ [(i, t)]) ++
          [((pre ++ [(i, t)]).length, [some [1]])]) hs (by decide) (by decide) (fun _ => hids) hok
          (by rw [List.length_singleton, if_neg hfits, List.append_assoc]; rfl) trivial
        refine ⟨s', pre ++ [(i, t)], _, _, hs', ?_, ?_, .inr ⟨0, by simp [SlotTable.get]⟩⟩
        · rw [PagedTable.entries_append, List.length_append, hcount]
          rfl
        · rw [List.length_append]
          exact Nat.succ_le_succ hlength

end

/-- A table with as many tuples as an `int32_t` cannot count. -/
theorem effects_not_reported : ∃ (s s' : HeapState Disk.PageMap) (e : SeqScanExecutor)
    (rest : List Row), Reachable 0 s ∧
      SeqScanExecutor.initOn (s.pageCount 0 + 1) 0 s = .ok (s', e) ∧ rest.length = 2 ^ 31 ∧
      (rest.map Prod.snd).Nodup ∧
      (∀ row, row ∈ rest ↔ s.map row.2 = some row.1.data ∧ row.1.recordId = .invalid) ∧
      ∃ batch s'', DeleteExecutor.next (heapCalls SeqScanExecutor 0) countSchema
          (SeqScanExecutor.nextOn (s.pageCount 0 + 1)) (rest.length + 1)
            (CountingExecutor.start (s', e)) 256 = .ok (some batch, s'') ∧
          ¬ Changed s' s''.world.1 rest [] batch := by
  obtain ⟨s, pre, i, t, hs, hcount, _⟩ := exists_filled 0 (2 ^ 31) (by decide)
  have hcan : CanRead 0 s := by
    obtain ⟨store, l, hholds, _⟩ := hs.holds
    obtain ⟨f, g, ho, _⟩ := hs.two
    exact .inl (hholds.sharing.pool.not_full_iff.mpr ⟨f, ho⟩)
  obtain ⟨⟨s', e⟩, rest, hinit, hahead, _, hrows⟩ :=
    SeqScanExecutor.initOn_ahead 0 hs.reachable hcan (Nat.lt_succ_self _)
  have hlength := (length_rows hs hahead.pending.nodup hrows).trans hcount
  have hdelete := DeleteExecutor.changes (SeqScanExecutor.yielding _) hahead
    (by decide : 1 ≤ 256) (Nat.lt_succ_self _)
  rw [List.filter_true] at hdelete
  obtain ⟨batch, s'', hnext, _, hiff⟩ := hdelete
  refine ⟨s, s', e, rest, hs.reachable, hinit, hlength, hahead.pending.nodup, hrows, batch, s'',
    hnext, ?_⟩
  rw [hiff, hlength]
  decide

end TurtleDb.Execution
