import TurtleDb.Execution.MatchingRows

/-!
# What UPDATE and DELETE do to a table

The matching rows leave the table and the new versions come into it, and no other tuple moves. An
`UPDATE` has all its rows before it changes the first; a `DELETE` changes the table under its child.
-/

namespace TurtleDb.Execution

open TurtleDb.Lib TurtleDb.Buffer TurtleDb.Buffer.BufferPoolManager TurtleDb.Page TurtleDb.Table
  TurtleDb.Table.HeapState TurtleDb.Datatype

variable {δ σ : Type}

/-- The table has lost the old rows and got the new tuples. Every other tuple is where it was. -/
structure Replaced (s s' : HeapState δ) (old : List Row) (new : List Tuple) : Prop where
  tuples : ∀ bytes, s'.copies bytes + (old.map fun row => row.1.data).count bytes =
    s.copies bytes + (new.map Tuple.data).count bytes
  unmatched : ∀ rid bytes, s.map rid = some bytes → rid ∉ old.map Prod.snd →
    s'.map rid = some bytes

/-- So has it, and the number of the old rows was reported. -/
def Changed (s s' : HeapState δ) (old : List Row) (new : List Tuple) (batch : List Row) : Prop :=
  Replaced s s' old new ∧ Emits batch old.length

namespace Replaced

variable {s s₁ s' : HeapState δ} {old old' : List Row} {new new' : List Tuple}

theorem of_map (h : s'.map = s.map) : Replaced s s' [] [] := by
  refine ⟨fun bytes => ?_, fun rid bytes hrid _ => h ▸ hrid⟩
  unfold HeapState.copies
  rw [h]
  rfl

theorem trans (h : Replaced s s₁ old new) (h' : Replaced s₁ s' old' new') :
    Replaced s s' (old ++ old') (new ++ new') := by
  refine ⟨fun bytes => ?_, fun rid bytes hrid hnot => ?_⟩
  · have h₁ := h.tuples bytes
    have h₂ := h'.tuples bytes
    rw [List.map_append, List.map_append, List.count_append, List.count_append]
    omega
  · rw [List.map_append, List.mem_append, not_or] at hnot
    exact h'.unmatched rid bytes (h.unmatched rid bytes hrid hnot.1) hnot.2

end Replaced

theorem exists_countTuple {w : Nat} (count : BitVec w) :
    ∃ t, countTuple countSchema count = .ok t := by
  obtain ⟨t, ht, _⟩ := roundTrips_integer (count.setWidth 32)
  exact ⟨t, ht⟩

/-- Where all calls succeed, the count is right up to the range of `int32_t`. -/
theorem emits_count_iff {w n : Nat} {t : Tuple} (hw : 32 ≤ w)
    (h : countTuple countSchema (BitVec.ofNat w n) = .ok t) :
    Emits [(t, .invalid)] n ↔ n < 2 ^ 31 := by
  rw [emits_ofNat_iff hw (Nat.add_zero n).symm h]
  exact and_iff_right (Nat.dvd_zero _)

variable [PageDisk δ] [LawfulPageDisk δ] {file : FileId} {matching : Row → Bool}
  {child : AbstractExecutor (HeapState δ × σ)} {R : HeapState δ × σ → List Row → Prop}
  {w w' : HeapState δ × σ} {rest rows : List Row} {n fuel : Nat}

/-! ## Update -/

namespace UpdateExecutor

/-- The old version was deleted and the new one inserted. -/
def Succeeds (c : RowUpdate (HeapState δ × σ)) : Prop :=
  c.deleted = true ∧ c.newRid.isSome ∧ c.world.1.CanInsert c.tuple

variable {plan : UpdatePlanNode} {c : RowUpdate (HeapState δ × σ)}
  {log : List (RowUpdate (HeapState δ × σ))}

/-- The rows are collected, and the table is as it was. -/
theorem collect_yielding (hchild : Yielding file matching child R) (hw : R w rest) (hn : 1 ≤ n)
    (hfuel : rest.length < fuel) (all : List Row) :
    ∃ w', collect child n fuel w all = .ok (all ++ rest.filter matching, w') ∧
      Reachable file w'.1 ∧ w'.1.map = w.1.map := by
  induction fuel generalizing w rest all with
  | zero => exact absurd hfuel (Nat.not_lt_zero _)
  | succ fuel ih =>
      obtain ⟨batch, w₁, seen, rest', he, hw₁, hmap, rfl, hbatch⟩ := hchild.next w rest n hw hn
      cases batch with
      | none =>
          refine ⟨w₁, ?_, hchild.reachable _ _ hw₁, hmap⟩
          rw [collect, he, ok_bind, hbatch, List.append_nil]
          rfl
      | some rows =>
          obtain ⟨hne, rfl⟩ := hbatch
          have hseen : 0 < seen.length := List.length_pos_of_ne_nil fun hnil => hne (by simp [hnil])
          rw [List.length_append] at hfuel
          obtain ⟨w', hcollect, hr, hmap'⟩ := ih hw₁ (by omega) (all ++ seen.filter matching)
          refine ⟨w', ?_, hr, hmap'.trans hmap⟩
          rw [collect, he, ok_bind, List.filter_append, ← List.append_assoc]
          exact hcollect

theorem UpdatedRow.replaced (h : UpdatedRow plan (heapCalls σ file) w c w')
    (hr : Reachable file w.1) (hold : w.1.map c.row.2 = some c.row.1.data) (hc : Succeeds c) :
    Replaced w.1 w'.1 [c.row] [c.tuple] := by
  have hstep := h.step hr hold fun _ => hc.2.2
  refine ⟨fun bytes => ?_, fun rid bytes hrid hnot => ?_⟩
  · have hlive : c.row.2 ∈ w.1.live := fun hnone => nomatch hold.symm.trans hnone
    have hpage := hr.mem_handed hlive
    obtain ⟨s, u⟩ := w
    cases h with
    | kept _ _ => exact absurd hc.1 Bool.false_ne_true
    | @deleted w₁ _ row tuple newRid ht hd hi =>
        obtain ⟨b, h', he, rfl⟩ := markDelete_heapCalls hd
        obtain ⟨b', h'', he', rfl⟩ := insertTuple_heapCalls hi
        obtain ⟨rid, rfl⟩ := Option.isSome_iff_exists.mp hc.2.1
        have hdeleted := hr.copies_deleted hold b h' bytes
        have hinserted := (hr.deleted hpage he).copies_inserted hc.2.2 he' bytes
        show (HeapState.inserted _ file tuple (some rid) b' h'').copies bytes + _ = s.copies bytes + _
        rw [hinserted, hdeleted]
        simp only [List.map_cons, List.map_nil, List.count_singleton, beq_iff_eq]
        omega
  · exact (hstep.frame rid bytes hrid fun heq => hnot (by simp [heq])).1

theorem UpdatedRows.replaced (h : UpdatedRows plan (heapCalls σ file) w log w')
    (hr : Reachable file w.1) (hp : Pending w.1 (log.map RowUpdate.row))
    (hdone : ∀ c ∈ log, Succeeds c) :
    Replaced w.1 w'.1 (log.map RowUpdate.row) (log.map RowUpdate.tuple) := by
  induction h with
  | nil w => exact .of_map rfl
  | @cons w w₁ w' c log hc hrest ih =>
      have hold := hp.stored _ List.mem_cons_self
      have hself := hdone c List.mem_cons_self
      have hstep := hc.step hr hold fun _ => hself.2.2
      exact (hc.replaced hr hold hself).trans (ih hstep.reachable (hp.step hstep).1
        fun c hmem => hdone c (List.mem_cons_of_mem _ hmem))

/-- The loop makes the calls of the log, and counts those that inserted. -/
theorem UpdatedRows.updateRows {ω : Type} {heap : HeapCalls ω} {w w' : ω} {log : List (RowUpdate ω)}
    (h : UpdatedRows plan heap w log w') (hdone : ∀ c ∈ log, c.newRid.isSome) (count : BitVec 32) :
    updateRows plan heap (log.map RowUpdate.row) w count =
      .ok (w', count + BitVec.ofNat 32 log.length) := by
  induction h generalizing count with
  | nil w =>
      rw [List.length_nil, BitVec.add_zero]
      rfl
  | @cons w w₁ w' c log hc _ ih =>
      have hsome := hdone c List.mem_cons_self
      have hrun := ih (fun c hmem => hdone c (List.mem_cons_of_mem _ hmem)) (count + 1)
      cases hc with
      | kept _ _ => exact absurd hsome Bool.false_ne_true
      | @deleted _ w₂ row tuple newRid ht hd hi =>
          obtain ⟨oldTuple, oldRid⟩ := row
          have hnew : newRid.isSome = true := hsome
          rw [List.map_cons, UpdateExecutor.updateRows, ht, ok_bind]
          simp only [hd, hi, hnew, ok_bind, if_true]
          rw [hrun, List.length_cons, Nat.add_comm log.length 1, BitVec.ofNat_add, ← BitVec.add_assoc]
          rfl

theorem updatedTuple_eq_ok {oldTuple tuple : Tuple} : updatedTuple plan oldTuple = .ok tuple ↔
    Builds plan.schema plan.targetExpressions oldTuple tuple := bind_eq_ok

theorem UpdatedRows.builds {ω : Type} {heap : HeapCalls ω} {w w' : ω} {log : List (RowUpdate ω)}
    (h : UpdatedRows plan heap w log w') :
    ∀ c ∈ log, Builds plan.schema plan.targetExpressions c.row.1 c.tuple := by
  induction h with
  | nil w => exact fun _ hc => absurd hc List.not_mem_nil
  | cons hc _ ih =>
      refine List.forall_mem_cons.mpr ⟨?_, ih⟩
      cases hc with
      | kept ht _ => exact updatedTuple_eq_ok.mp ht
      | deleted ht _ _ => exact updatedTuple_eq_ok.mp ht

/-- Such an update, with its calls in the log, replaces the matched rows by what the expressions make
of them, each once. It reports their number up to the range of `int32_t`, and then it is at its
end. -/
def Changes (file : FileId) (child : AbstractExecutor (HeapState δ × σ)) (fuel n : Nat)
    (w : HeapState δ × σ) (matched : List Row) : Prop :=
  ∃ w₁, collect child n fuel w [] = .ok (matched, w₁) ∧
    ∀ plan log w', plan.outputSchema = countSchema →
      UpdatedRows plan (heapCalls σ file) w₁ log w' → log.map RowUpdate.row = matched →
      (∀ c ∈ log, Succeeds c) →
      ∃ batch, next plan (heapCalls σ file) child fuel (start w) n = .ok (some batch, ⟨w', true⟩) ∧
        (∀ m, next plan (heapCalls σ file) child fuel ⟨w', true⟩ m = .ok (none, ⟨w', true⟩)) ∧
        (∀ c ∈ log, Builds plan.schema plan.targetExpressions c.row.1 c.tuple) ∧
        (Changed w.1 w'.1 matched (log.map RowUpdate.tuple) batch ↔ matched.length < 2 ^ 31)

theorem changes (hchild : Yielding file matching child R) (hw : R w rest) (hn : 1 ≤ n)
    (hfuel : rest.length < fuel) : Changes file child fuel n w (rest.filter matching) := by
  obtain ⟨w₁, hcollect, hr₁, hmap⟩ := collect_yielding hchild hw hn hfuel []
  rw [List.nil_append] at hcollect
  refine ⟨w₁, hcollect, fun plan log w' hout hlog hrows hdone => ?_⟩
  have hpending : Pending w₁.1 (log.map RowUpdate.row) := by
    have hp := hchild.pending w rest hw
    rw [hrows]
    refine ⟨fun row hrow => ?_, ?_⟩
    · rw [hmap]
      exact hp.stored row (List.mem_of_mem_filter hrow)
    · exact hp.nodup.sublist (List.filter_sublist.map _)
  have hreplaced := (Replaced.of_map hmap).trans (hlog.replaced hr₁ hpending hdone)
  have hrun := hlog.updateRows (fun c hmem => (hdone c hmem).2.1) 0
  obtain ⟨t, ht⟩ := exists_countTuple (BitVec.ofNat 32 log.length)
  have hlength : log.length = (rest.filter matching).length := by
    rw [← hrows, List.length_map]
  rw [List.nil_append, List.nil_append, hrows] at hreplaced
  rw [hrows] at hrun
  refine ⟨[(t, .invalid)], ?_, fun m => rfl, hlog.builds, ?_⟩
  · rw [next, start, if_neg Bool.false_ne_true]
    simp only [hcollect, hrun, ok_bind, hout]
    rw [show (0 : BitVec 32) + BitVec.ofNat 32 log.length = BitVec.ofNat 32 log.length from
      BitVec.zero_add _, ht]
    rfl
  · rw [← emits_count_iff (Nat.le_refl 32) (hlength ▸ ht)]
    exact and_iff_right hreplaced

end UpdateExecutor

/-! ## Delete -/

namespace DeleteExecutor

/-- The rows of a batch are deleted. None of them is one that the child has still to look at. -/
theorem callRows_yielding (hchild : Yielding file matching child R) (hw : R w rest)
    (hp : UpdateExecutor.Pending w.1 rows) (hnot : ∀ row ∈ rows, row.2 ∉ rest.map Prod.snd)
    (total : BitVec 64) :
    ∃ w', CountingExecutor.callRows (heapCalls σ file).deleteRow rows w total =
        .ok (w', total + BitVec.ofNat 64 rows.length) ∧ R w' rest ∧ Replaced w.1 w'.1 rows [] := by
  induction rows generalizing w total with
  | nil => exact ⟨w, by rw [List.length_nil, BitVec.add_zero]; rfl, hw, .of_map rfl⟩
  | cons row rows ih =>
      obtain ⟨s, c⟩ := w
      have hold := hp.stored row List.mem_cons_self
      obtain ⟨b, h, he, hw₁⟩ := hchild.deleted s c rest row.2 hw (by rw [hold]; simp)
        (hnot row List.mem_cons_self)
      obtain ⟨hfirst, hnodup⟩ := List.nodup_cons.mp hp.nodup
      have hp₁ : UpdateExecutor.Pending (s.deleted row.2 (.ok true) b h) rows := by
        refine ⟨fun row' hrow => ?_, hnodup⟩
        have hne : row'.2 ≠ row.2 := fun heq => hfirst (heq ▸ List.mem_map.mpr ⟨row', hrow, rfl⟩)
        exact (Function.update_of_ne hne _ _).trans (hp.stored row' (List.mem_cons_of_mem _ hrow))
      have hone : Replaced s (s.deleted row.2 (.ok true) b h) [row] [] := by
        refine ⟨fun bytes => ?_, fun rid bytes hrid hne => ?_⟩
        · rw [(hchild.reachable _ _ hw).copies_deleted hold b h bytes]
          simp only [List.map_cons, List.map_nil, List.count_singleton, List.count_nil, beq_iff_eq]
          omega
        · exact (Function.update_of_ne (fun heq => hne (by simp [heq])) _ _).trans hrid
      obtain ⟨w', hrun, hw', hrest⟩ := ih hw₁ hp₁
        (fun row' hrow => hnot row' (List.mem_cons_of_mem _ hrow)) (total + 1)
      refine ⟨w', ?_, hw', hone.trans hrest⟩
      rw [CountingExecutor.callRows, deleteRow_ok row c he, ok_bind]
      dsimp only
      rw [hrun, List.length_cons, Nat.add_comm rows.length 1, BitVec.ofNat_add, ← BitVec.add_assoc]
      rfl

/-- The child is drained, although each batch changes the table under it. -/
theorem drain_yielding (hchild : Yielding file matching child R) (hw : R w rest) (hn : 1 ≤ n)
    (hfuel : rest.length < fuel) (total : BitVec 64) :
    ∃ w', CountingExecutor.drain (heapCalls σ file).deleteRow child n fuel w total =
        .ok (w', total + BitVec.ofNat 64 (rest.filter matching).length) ∧
      Replaced w.1 w'.1 (rest.filter matching) [] := by
  induction fuel generalizing w rest total with
  | zero => exact absurd hfuel (Nat.not_lt_zero _)
  | succ fuel ih =>
      have hp := hchild.pending w rest hw
      obtain ⟨batch, w₁, seen, rest', he, hw₁, hmap, rfl, hbatch⟩ := hchild.next w rest n hw hn
      cases batch with
      | none =>
          refine ⟨w₁, ?_, ?_⟩
          · rw [CountingExecutor.drain, he, ok_bind, hbatch, List.length_nil, BitVec.add_zero]
            rfl
          · rw [hbatch]
            exact .of_map hmap
      | some rows =>
          obtain ⟨hne, rfl⟩ := hbatch
          have hseen : 0 < seen.length := List.length_pos_of_ne_nil fun hnil => hne (by simp [hnil])
          rw [List.length_append] at hfuel
          have hnodup := hp.nodup
          rw [List.map_append] at hnodup
          obtain ⟨hnodup, _, hdisjoint⟩ := List.nodup_append'.mp hnodup
          have hp₁ : UpdateExecutor.Pending w₁.1 (seen.filter matching) := by
            refine ⟨fun row hrow => ?_, hnodup.sublist (List.filter_sublist.map _)⟩
            rw [hmap]
            exact hp.stored row (List.mem_append_left _ (List.mem_of_mem_filter hrow))
          obtain ⟨w₂, hrows, hw₂, hreplaced⟩ := callRows_yielding hchild hw₁ hp₁ (fun row hrow =>
            hdisjoint (List.mem_map.mpr ⟨row, List.mem_of_mem_filter hrow, rfl⟩)) total
          obtain ⟨w', hdrain, hreplaced'⟩ := ih hw₂ (by omega)
            (total + BitVec.ofNat 64 (seen.filter matching).length)
          refine ⟨w', ?_, ?_⟩
          · rw [CountingExecutor.drain, he, ok_bind]
            simp only [hrows, ok_bind, hdrain]
            rw [List.filter_append, List.length_append, BitVec.ofNat_add, BitVec.add_assoc]
          · rw [List.filter_append]
            exact ((Replaced.of_map hmap).trans hreplaced).trans hreplaced'

/-- The executor removes the matched rows. It reports their number up to the range of `int32_t`, and
then it is at its end. -/
def Changes (file : FileId) (child : AbstractExecutor (HeapState δ × σ)) (fuel n : Nat)
    (w : HeapState δ × σ) (matched : List Row) : Prop :=
  ∃ batch s', DeleteExecutor.next (heapCalls σ file) countSchema child fuel
      (CountingExecutor.start w) n = .ok (some batch, s') ∧
    (∀ m, DeleteExecutor.next (heapCalls σ file) countSchema child fuel s' m = .ok (none, s')) ∧
    (Changed w.1 s'.world.1 matched [] batch ↔ matched.length < 2 ^ 31)

theorem changes (hchild : Yielding file matching child R) (hw : R w rest) (hn : 1 ≤ n)
    (hfuel : rest.length < fuel) : Changes file child fuel n w (rest.filter matching) := by
  obtain ⟨w', hdrain, hreplaced⟩ := drain_yielding hchild hw hn hfuel 0
  obtain ⟨t, ht⟩ := exists_countTuple (BitVec.ofNat 64 (rest.filter matching).length)
  rw [show (0 : BitVec 64) + BitVec.ofNat 64 (rest.filter matching).length =
    BitVec.ofNat 64 (rest.filter matching).length from BitVec.zero_add _] at hdrain
  refine ⟨[(t, .invalid)], ⟨w', BitVec.ofNat 64 (rest.filter matching).length, true⟩, ?_,
    fun m => rfl, ?_⟩
  · rw [DeleteExecutor.next, CountingExecutor.next, CountingExecutor.start,
      if_neg Bool.false_ne_true]
    simp only [hdrain, ht, ok_bind]
    rfl
  · rw [← emits_count_iff (by decide) ht]
    exact and_iff_right hreplaced

end DeleteExecutor

end TurtleDb.Execution
