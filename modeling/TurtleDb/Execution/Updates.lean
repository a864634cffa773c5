import TurtleDb.Execution.Counts

/-!
# No row is lost by UPDATE

The old version of a row is deleted first. If the new one cannot be inserted then, the row is lost.
-/

namespace TurtleDb.Execution

open TurtleDb.Lib TurtleDb.Buffer TurtleDb.Buffer.BufferPoolManager TurtleDb.Page TurtleDb.Table
  TurtleDb.Table.HeapState TurtleDb.Datatype

/-- A row that was to be updated: the state after `mark_delete`, the new version, whether the old one
was deleted, and where the new one was inserted. -/
structure RowUpdate (ω : Type) where
  world : ω
  row : Row
  tuple : Tuple
  deleted : Bool
  newRid : Option RecordId

namespace RowUpdate

variable {ω : Type}

/-- Where the row is then. -/
def place (c : RowUpdate ω) : RecordId := c.newRid.getD c.row.2

/-- What is there. -/
def version (c : RowUpdate ω) : Tuple := if c.newRid.isSome then c.tuple else c.row.1

end RowUpdate

namespace UpdateExecutor

section
variable {ω : Type}

inductive UpdatedRow (plan : UpdatePlanNode) (heap : HeapCalls ω) : ω → RowUpdate ω → ω → Prop where
  | kept {w w₁ row tuple} (ht : updatedTuple plan row.1 = .ok tuple)
      (hd : heap.markDelete w row.2 = .ok (false, w₁)) :
      UpdatedRow plan heap w ⟨w₁, row, tuple, false, none⟩ w₁
  | deleted {w w₁ w₂ row tuple newRid} (ht : updatedTuple plan row.1 = .ok tuple)
      (hd : heap.markDelete w row.2 = .ok (true, w₁))
      (hi : heap.insertTuple w₁ tuple = .ok (newRid, w₂)) :
      UpdatedRow plan heap w ⟨w₁, row, tuple, true, newRid⟩ w₂

inductive UpdatedRows (plan : UpdatePlanNode) (heap : HeapCalls ω) :
    ω → List (RowUpdate ω) → ω → Prop where
  | nil (w : ω) : UpdatedRows plan heap w [] w
  | cons {w w₁ w' c log} (h : UpdatedRow plan heap w c w₁)
      (hrest : UpdatedRows plan heap w₁ log w') : UpdatedRows plan heap w (c :: log) w'

variable {plan : UpdatePlanNode} {heap : HeapCalls ω} {rows : List Row} {w w' : ω}
  {log : List (RowUpdate ω)} {count count' : BitVec 32}

theorem updateRows_ok (h : updateRows plan heap rows w count = .ok (w', count')) :
    ∃ log, UpdatedRows plan heap w log w' ∧ log.map RowUpdate.row = rows ∧
      count' = count + BitVec.ofNat 32 (log.countP fun c => c.newRid.isSome) := by
  induction rows generalizing w count with
  | nil =>
      cases h
      exact ⟨[], .nil _, rfl, (BitVec.add_zero _).symm⟩
  | cons row rows ih =>
      obtain ⟨oldTuple, oldRid⟩ := row
      rw [updateRows] at h
      obtain ⟨tuple, ht, h⟩ := bind_eq_ok.mp h
      obtain ⟨⟨deleted, w₁⟩, hd, h⟩ := bind_eq_ok.mp h
      cases deleted with
      | false =>
          obtain ⟨log, hlog, hrows, hcount⟩ := ih h
          exact ⟨_, .cons (.kept ht hd) hlog, congrArg (_ :: ·) hrows, hcount⟩
      | true =>
          obtain ⟨⟨newRid, w₂⟩, hi, h⟩ := bind_eq_ok.mp h
          obtain ⟨log, hlog, hrows, hcount⟩ := ih h
          refine ⟨_, .cons (.deleted ht hd hi) hlog, congrArg (_ :: ·) hrows, ?_⟩
          rw [hcount, List.countP_cons]
          cases newRid with
          | none => rfl
          | some rid =>
              simp only [Option.isSome_some, if_true]
              rw [BitVec.ofNat_add, BitVec.add_assoc]
              exact congrArg (count + ·) (BitVec.add_comm _ _)

theorem UpdatedRow.unique {c c₁ : RowUpdate ω} {w₁ : ω} (h : UpdatedRow plan heap w c w')
    (h₁ : UpdatedRow plan heap w c₁ w₁) (hrow : c.row = c₁.row) : c = c₁ ∧ w' = w₁ := by
  cases h with
  | kept ht hd =>
      cases h₁ with
      | kept ht₁ hd₁ =>
          cases hrow
          cases ht.symm.trans ht₁
          cases hd.symm.trans hd₁
          exact ⟨rfl, rfl⟩
      | deleted _ hd₁ _ =>
          cases hrow
          cases hd.symm.trans hd₁
  | deleted ht hd hi =>
      cases h₁ with
      | kept _ hd₁ =>
          cases hrow
          cases hd.symm.trans hd₁
      | deleted ht₁ hd₁ hi₁ =>
          cases hrow
          cases ht.symm.trans ht₁
          cases hd.symm.trans hd₁
          cases hi.symm.trans hi₁
          exact ⟨rfl, rfl⟩

theorem UpdatedRows.unique (h : UpdatedRows plan heap w log w') {log₁ : List (RowUpdate ω)}
    {w₁ : ω} (h₁ : UpdatedRows plan heap w log₁ w₁)
    (hrows : log.map RowUpdate.row = log₁.map RowUpdate.row) : log = log₁ ∧ w' = w₁ := by
  induction h generalizing log₁ with
  | nil w =>
      cases h₁ with
      | nil _ => exact ⟨rfl, rfl⟩
      | cons _ _ => cases hrows
  | cons hc _ ih =>
      cases h₁ with
      | nil _ => cases hrows
      | cons hc₁ hrest₁ =>
          obtain ⟨hrow, htail⟩ := List.cons.inj hrows
          obtain ⟨rfl, rfl⟩ := hc.unique hc₁ hrow
          obtain ⟨rfl, rfl⟩ := ih hrest₁ htail
          exact ⟨rfl, rfl⟩

/-- The first call counts the rows whose new version it inserted. -/
theorem next_start {child : AbstractExecutor ω} {fuel batchSize : Nat} {batch : List Row}
    {s' : State ω} {w₁ : ω} (hcollect : collect child batchSize fuel w [] = .ok (rows, w₁))
    (h : next plan heap child fuel (start w) batchSize = .ok (some batch, s'))
    (hlog : UpdatedRows plan heap w₁ log s'.world) (hrows : log.map RowUpdate.row = rows) :
    ∃ t, countTuple plan.outputSchema
        (BitVec.ofNat 32 (log.countP fun c => c.newRid.isSome)) = .ok t ∧
      batch = [(t, .invalid)] := by
  rw [next, start, if_neg Bool.false_ne_true] at h
  simp only [hcollect, ok_bind] at h
  obtain ⟨⟨w₂, count⟩, hupdate, h⟩ := bind_eq_ok.mp h
  obtain ⟨t, ht, h⟩ := bind_eq_ok.mp h
  cases h
  obtain ⟨log₁, hlog₁, hrows₁, rfl⟩ := updateRows_ok hupdate
  obtain ⟨rfl, -⟩ := hlog.unique hlog₁ (hrows.trans hrows₁.symm)
  have hzero := BitVec.zero_add (BitVec.ofNat 32 (log.countP fun c => c.newRid.isSome))
  exact ⟨t, hzero ▸ ht, rfl⟩

end

/-! ## What is in the table -/

section
variable {δ σ : Type}

/-- The rows are in the table, each at a place of its own. -/
structure Pending (s : HeapState δ) (rows : List Row) : Prop where
  stored : ∀ row ∈ rows, s.map row.2 = some row.1.data
  nodup : (rows.map Prod.snd).Nodup

variable [PageDisk δ] [LawfulPageDisk δ]

/-- What the update of a row does to the table. -/
structure RowStep (file : FileId) (s t : HeapState δ) (c : RowUpdate (HeapState δ × σ)) : Prop where
  reachable : Reachable file t
  frame : ∀ rid bytes, s.map rid = some bytes → rid ≠ c.row.2 →
    t.map rid = some bytes ∧ c.newRid ≠ some rid
  own : (c.deleted = true → c.newRid.isSome) → t.map c.place = some c.version.data
  liveCount : t.liveCount + (if c.deleted && c.newRid.isNone then 1 else 0) = s.liveCount

variable {file : FileId} {plan : UpdatePlanNode} {w w' : HeapState δ × σ}
  {c : RowUpdate (HeapState δ × σ)} {log : List (RowUpdate (HeapState δ × σ))} {rows : List Row}

theorem UpdatedRow.step (h : UpdatedRow plan (heapCalls σ file) w c w') (hr : Reachable file w.1)
    (hold : w.1.map c.row.2 = some c.row.1.data)
    (hcan : c.deleted = true → c.world.1.CanInsert c.tuple) : RowStep file w.1 w'.1 c := by
  have hlive : c.row.2 ∈ w.1.live := fun hnone => nomatch hold.symm.trans hnone
  have hpage := hr.mem_handed hlive
  obtain ⟨s, u⟩ := w
  cases h with
  | kept ht hd =>
      obtain ⟨b, h', he, rfl⟩ := markDelete_heapCalls hd
      exact ⟨hr.deleted hpage he, fun rid bytes hrid _ => ⟨hrid, nofun⟩, fun _ => hold, rfl⟩
  | @deleted w₁ _ row tuple newRid ht hd hi =>
      obtain ⟨b, h', he, rfl⟩ := markDelete_heapCalls hd
      obtain ⟨b', h'', he', rfl⟩ := insertTuple_heapCalls hi
      have hr₁ : Reachable file (s.deleted row.2 (.ok true) b h') := hr.deleted hpage he
      have hcan' : (s.deleted row.2 (.ok true) b h').CanInsert tuple := hcan rfl
      have hcount : s.liveCount = (s.deleted row.2 (.ok true) b h').liveCount + 1 := by
        rw [Reachable.liveCount_deleted hr true b h', show s.map row.2 = _ from hold]
        rfl
      have hcount' := hr₁.liveCount_inserted hcan' he'
      refine ⟨hr₁.inserted hcan' he', fun rid bytes hrid hne => ?_, fun hsome => ?_, ?_⟩
      · have hstays : (s.deleted row.2 (.ok true) b h').map rid = some bytes :=
          (Function.update_of_ne hne _ _).trans hrid
        cases newRid with
        | none => exact ⟨hstays, nofun⟩
        | some new =>
            -- The place of the new version is one that was empty.
            have hother : rid ≠ new := by
              rintro rfl
              cases hstays.symm.trans (hr₁.insertTuple_some hcan' he')
            exact ⟨(Function.update_of_ne hother _ _).trans hstays,
              fun heq => hother (Option.some.inj heq).symm⟩
      · obtain ⟨new, rfl⟩ := Option.isSome_iff_exists.mp (hsome rfl)
        exact Function.update_self _ _ _
      · show (HeapState.inserted _ file tuple newRid b' h'').liveCount + _ = s.liveCount
        rw [hcount, hcount']
        cases newRid <;> rfl

theorem Pending.step {s t : HeapState δ} (hp : Pending s (c.row :: rows))
    (h : RowStep file s t c) : Pending t rows ∧ c.place ∉ rows.map Prod.snd := by
  obtain ⟨hnot, hnodup⟩ := List.nodup_cons.mp hp.nodup
  have hne : ∀ row ∈ rows, row.2 ≠ c.row.2 := fun row hrow heq =>
    hnot (heq ▸ List.mem_map.mpr ⟨row, hrow, rfl⟩)
  have hkept := fun row hrow =>
    h.frame row.2 _ (hp.stored row (List.mem_cons_of_mem _ hrow)) (hne row hrow)
  refine ⟨⟨fun row hrow => (hkept row hrow).1, hnodup⟩, fun hmem => ?_⟩
  obtain ⟨row, hrow, hplace⟩ := List.mem_map.mp hmem
  cases hnew : c.newRid with
  | none =>
      rw [RowUpdate.place, hnew] at hplace
      exact hne row hrow hplace
  | some new =>
      rw [RowUpdate.place, hnew] at hplace
      exact (hkept row hrow).2 (hnew.trans (congrArg some hplace.symm))

/-- A tuple that is not to be updated stays, and no row gets its place. -/
theorem UpdatedRows.frame (h : UpdatedRows plan (heapCalls σ file) w log w')
    (hr : Reachable file w.1) (hp : Pending w.1 (log.map RowUpdate.row))
    (hcan : ∀ c ∈ log, c.deleted = true → c.world.1.CanInsert c.tuple) {rid : RecordId}
    {bytes : List UInt8} (hrid : w.1.map rid = some bytes)
    (hnot : rid ∉ (log.map RowUpdate.row).map Prod.snd) :
    w'.1.map rid = some bytes ∧ ∀ c ∈ log, c.place ≠ rid := by
  induction h with
  | nil w => exact ⟨hrid, fun _ hc => absurd hc List.not_mem_nil⟩
  | @cons w w₁ w' c log hc _ ih =>
      have hne : rid ≠ c.row.2 := fun heq => hnot (heq ▸ List.mem_cons_self)
      have hstep := hc.step hr (hp.stored _ List.mem_cons_self) (hcan c List.mem_cons_self)
      obtain ⟨hstays, hnew⟩ := hstep.frame rid bytes hrid hne
      obtain ⟨hend, hplaces⟩ := ih hstep.reachable (hp.step hstep).1
        (fun c hmem => hcan c (List.mem_cons_of_mem _ hmem)) hstays
        fun hmem => hnot (List.mem_cons_of_mem _ hmem)
      refine ⟨hend, fun c' hmem => ?_⟩
      rcases List.mem_cons.mp hmem with rfl | hmem
      · intro hplace
        unfold RowUpdate.place at hplace
        cases hn : c'.newRid with
        | none => exact hne (by rw [hn] at hplace; exact hplace.symm)
        | some new => exact hnew (hn.trans (by rw [hn] at hplace; exact congrArg some hplace))
      · exact hplaces c' hmem

/-- The rows are in the table at the end if no insert failed. -/
theorem UpdatedRows.own (h : UpdatedRows plan (heapCalls σ file) w log w')
    (hr : Reachable file w.1) (hp : Pending w.1 (log.map RowUpdate.row))
    (hcan : ∀ c ∈ log, c.deleted = true → c.world.1.CanInsert c.tuple)
    (hsafe : ∀ c ∈ log, c.deleted = true → c.newRid.isSome) :
    (∀ c ∈ log, w'.1.map c.place = some c.version.data) ∧ (log.map RowUpdate.place).Nodup := by
  induction h with
  | nil w => exact ⟨fun _ hc => absurd hc List.not_mem_nil, List.nodup_nil⟩
  | @cons w w₁ w' c log hc hrest ih =>
      have hstep := hc.step hr (hp.stored _ List.mem_cons_self) (hcan c List.mem_cons_self)
      obtain ⟨hp₁, hplace⟩ := hp.step hstep
      have hcan₁ := fun c hmem => hcan c (List.mem_cons_of_mem _ hmem)
      obtain ⟨hrows, hnodup⟩ := ih hstep.reachable hp₁ hcan₁
        fun c hmem => hsafe c (List.mem_cons_of_mem _ hmem)
      obtain ⟨hend, hother⟩ := hrest.frame hstep.reachable hp₁ hcan₁
        (hstep.own (hsafe c List.mem_cons_self)) hplace
      refine ⟨fun c' hmem => ?_, List.nodup_cons.mpr ⟨fun hmem => ?_, hnodup⟩⟩
      · rcases List.mem_cons.mp hmem with rfl | hmem
        · exact hend
        · exact hrows c' hmem
      · obtain ⟨c', hc', heq⟩ := List.mem_map.mp hmem
        exact hother c' hc' heq

/-- Each insert that failed has cost a tuple. -/
theorem UpdatedRows.liveCount (h : UpdatedRows plan (heapCalls σ file) w log w')
    (hr : Reachable file w.1) (hp : Pending w.1 (log.map RowUpdate.row))
    (hcan : ∀ c ∈ log, c.deleted = true → c.world.1.CanInsert c.tuple) :
    w'.1.liveCount + log.countP (fun c => c.deleted && c.newRid.isNone) = w.1.liveCount := by
  induction h with
  | nil w => rfl
  | @cons w w₁ w' c log hc hrest ih =>
      have hstep := hc.step hr (hp.stored _ List.mem_cons_self) (hcan c List.mem_cons_self)
      have hcount := ih hstep.reachable (hp.step hstep).1
        fun c hmem => hcan c (List.mem_cons_of_mem _ hmem)
      rw [List.countP_cons, ← Nat.add_assoc, hcount]
      exact hstep.liveCount

/-! ## The rows that are kept -/

/-- Each row is in the table, at a place of its own: its new version, which is counted, or the old
one where it was. There are as many tuples as before. -/
structure NoneLost (s s' : HeapState δ) (log : List (RowUpdate (HeapState δ × σ)))
    (batch : List Row) : Prop where
  rows : ∀ c ∈ log, (∃ rid, c.newRid = some rid ∧ s'.map rid = some c.tuple.data) ∨
    s'.map c.row.2 = some c.row.1.data
  places : (log.map RowUpdate.place).Nodup
  counted : Emits batch (log.countP fun c => c.newRid.isSome)
  liveCount : s'.liveCount = s.liveCount

theorem collect_reads {child : AbstractExecutor (HeapState δ × σ)} (hchild : Reads file child)
    {batchSize fuel : Nat} {all : List Row} (hr : Reachable file w.1)
    (h : collect child batchSize fuel w all = .ok (rows, w')) :
    Reachable file w'.1 ∧ w'.1.map = w.1.map := by
  induction fuel generalizing w all with
  | zero => cases h
  | succ fuel ih =>
      rw [collect] at h
      obtain ⟨⟨chunk, w₁⟩, hc, h⟩ := bind_eq_ok.mp h
      obtain ⟨hr₁, hmap₁⟩ := hchild w.1 w.2 _ chunk w₁.1 w₁.2 hr hc
      cases chunk with
      | none =>
          cases h
          exact ⟨hr₁, hmap₁⟩
      | some chunk =>
          obtain ⟨hr', hmap⟩ := ih hr₁ h
          exact ⟨hr', hmap.trans hmap₁⟩

/-- No row is lost, and the count is right, exactly if an insert succeeds whenever the delete before
it did, up to the range of `int32_t`. -/
theorem noneLost_iff {child : AbstractExecutor (HeapState δ × σ)} (hchild : Reads file child)
    (hr : Reachable file w.1) (hout : plan.outputSchema = countSchema) {fuel batchSize : Nat}
    {w₁ : HeapState δ × σ} (hcollect : collect child batchSize fuel w [] = .ok (rows, w₁))
    (hp : Pending w.1 rows) {batch : List Row} {s' : State (HeapState δ × σ)}
    (h : next plan (heapCalls σ file) child fuel (start w) batchSize = .ok (some batch, s'))
    (hlog : UpdatedRows plan (heapCalls σ file) w₁ log s'.world)
    (hrows : log.map RowUpdate.row = rows)
    (hcan : ∀ c ∈ log, c.deleted = true → c.world.1.CanInsert c.tuple) :
    NoneLost w.1 s'.world.1 log batch ↔
      (∀ c ∈ log, c.deleted = true → c.newRid.isSome) ∧
        log.countP (fun c => c.newRid.isSome) < 2 ^ 31 := by
  obtain ⟨hr₁, hmap⟩ := collect_reads hchild hr hcollect
  have hp₁ : Pending w₁.1 (log.map RowUpdate.row) := by
    rw [hrows]
    exact ⟨hmap ▸ hp.stored, hp.nodup⟩
  obtain ⟨t, ht, rfl⟩ := next_start hcollect h hlog hrows
  rw [hout] at ht
  have hemits := emits_ofNat_iff (Nat.le_refl 32) (Nat.add_zero _).symm ht
  have hcount := hlog.liveCount hr₁ hp₁ hcan
  have hsame : w₁.1.liveCount = w.1.liveCount := by
    unfold HeapState.liveCount live
    rw [hmap]
  constructor
  · intro hnone
    refine ⟨fun c hc hdeleted => ?_, (hemits.mp hnone.counted).2⟩
    have hzero : log.countP (fun c => c.deleted && c.newRid.isNone) = 0 := by
      have := hnone.liveCount
      omega
    have hc := List.countP_eq_zero.mp hzero c hc
    rw [hdeleted] at hc
    simpa [Option.isSome_iff_ne_none] using hc
  · rintro ⟨hsafe, hlt⟩
    obtain ⟨hown, hnodup⟩ := hlog.own hr₁ hp₁ hcan hsafe
    refine ⟨fun c hc => ?_, hnodup, hemits.mpr ⟨Nat.dvd_zero _, hlt⟩, ?_⟩
    · have hplace := hown c hc
      unfold RowUpdate.place RowUpdate.version at hplace
      cases hnew : c.newRid with
      | none =>
          rw [hnew] at hplace
          exact .inr hplace
      | some rid =>
          rw [hnew] at hplace
          exact .inl ⟨rid, rfl, hplace⟩
    · have hzero : log.countP (fun c => c.deleted && c.newRid.isNone) = 0 := by
        rw [List.countP_eq_zero]
        intro c hc
        have := hsafe c hc
        simpa [Option.isSome_iff_ne_none] using this
      omega

end

/-! ### One row -/

section
variable {δ : Type} [PageDisk δ] {file : FileId} {s s₁ s₂ : HeapState δ} {tuple : Tuple}
  {newRid : Option RecordId}

theorem collect_one {ω : Type} (w : ω) (row : Row) :
    collect (beside listSource : AbstractExecutor (ω × List Row)) 1 2 (w, [row]) [] =
      .ok ([row], (w, [])) := rfl

theorem updated_one (plan : UpdatePlanNode) (row : Row) (hout : plan.outputSchema = countSchema)
    (ht : updatedTuple plan row.1 = .ok tuple)
    (hd : (heapCalls (List Row) file).markDelete (s, []) row.2 = .ok (true, (s₁, [])))
    (hi : (heapCalls (List Row) file).insertTuple (s₁, []) tuple = .ok (newRid, (s₂, []))) :
    (∃ batch, next plan (heapCalls (List Row) file) (beside listSource) 2
        (start (s, [row])) 1 = .ok (some batch, ⟨(s₂, []), true⟩)) ∧
      UpdatedRows plan (heapCalls (List Row) file) (s, [])
        [⟨(s₁, []), row, tuple, true, newRid⟩] (s₂, []) := by
  refine ⟨?_, .cons (.deleted ht hd hi) (.nil _)⟩
  obtain ⟨t, hcount, -⟩ := roundTrips_integer (if newRid.isSome then 0 + 1 else 0)
  have hcount' : countTuple countSchema (if newRid.isSome then 0 + 1 else 0 : BitVec 32) = .ok t := by
    rw [countTuple, BitVec.setWidth_eq]
    exact hcount
  have hrows : updateRows plan (heapCalls (List Row) file) [row] (s, []) 0 =
      .ok ((s₂, []), if newRid.isSome then 0 + 1 else 0) := by
    simp only [updateRows, ht, hd, hi, ok_bind, if_true]
  refine ⟨[(t, .invalid)], ?_⟩
  rw [next, start, if_neg Bool.false_ne_true]
  simp only [collect_one, hrows, hout, hcount', ok_bind]
  rfl

end

/-- `SET count = 7`. -/
def setSeven : UpdatePlanNode where
  outputSchema := countSchema
  schema := countSchema
  targetExpressions := [fun _ => .ok (Value.ofInt32 .integer 7)]

theorem noneLost_iff_seven : ∃ s : HeapState Disk.PageMap, Reachable 0 s ∧
    s.map ⟨0, 0⟩ = some [1] ∧
    ∃ batch s', next setSeven (heapCalls (List Row) 0) (beside listSource) 2
        (start (s, [(⟨[1], .invalid⟩, ⟨0, 0⟩)])) 1 = .ok (some batch, s') ∧
      ∃ log : List (RowUpdate (HeapState Disk.PageMap × List Row)),
        log.map RowUpdate.row = [(⟨[1], .invalid⟩, ⟨0, 0⟩)] ∧ NoneLost s s'.world.1 log batch := by
  obtain ⟨s₀, h₀⟩ := exists_led 0
  obtain ⟨s, hled⟩ := Led.insert [] [1] [(0, [some [1]])] h₀ (by decide) (by decide)
    (fun _ => by decide) (.inl (by decide)) (by decide) trivial
  obtain ⟨store, l, hs, hl⟩ := hled.holds
  have hroom : s.pool.HasRoom := hled.hasRoom (by decide)
  have hlive : s.map ⟨0, 0⟩ = some [1] := by
    rw [hs.map, hl]
    rfl
  have hrid := hled.reachable.mem_handed fun hnone => nomatch hlive.symm.trans hnone
  have hplace : PagedTable.Place l.contents (0, 0) := by
    rw [hl]
    exact ⟨_, List.mem_singleton.mpr rfl, by decide⟩
  rcases hs.markDelete hrid with ⟨_, hall⟩ | ⟨b, h, store₁, l₁, he, hst, hs₁, hl₁, _, hnext⟩ |
    ⟨_, _, _, _, hno⟩
  · obtain ⟨f, _, hf, _⟩ := hled.two
    exact absurd hf hall.not_obtainable
  · have hlast : l₁.contents = [] ++ [(0, [none])] := by
      rw [hl₁, hl]
      rfl
    have hroom₁ : (s.deleted ⟨0, 0⟩ (.ok true) b h).pool.HasRoom :=
      ⟨hnext ▸ hroom.1, .inl (hst.frameCount ▸ hled.small)⟩
    obtain ⟨rid, b', h', _, _, he', _⟩ := hs₁.insert_last hlast [0, 7, 0, 0, 0] (by decide)
      (by decide) (hs.stored.twoObtainable hst hled.two) (fun _ => hroom₁) (.inl (by decide))
    have ht : updatedTuple setSeven ⟨[1], .invalid⟩ = .ok ⟨[0, 7, 0, 0, 0], .invalid⟩ := rfl
    obtain ⟨⟨batch, hbatch⟩, hlog⟩ := updated_one setSeven (⟨[1], .invalid⟩, ⟨0, 0⟩) rfl ht
      (heapCalls_markDelete [] he) (heapCalls_insertTuple [] he')
    have hp : Pending s [(⟨[1], .invalid⟩, ⟨0, 0⟩)] := by
      refine ⟨fun row hrow => ?_, List.nodup_singleton _⟩
      cases List.mem_singleton.mp hrow
      exact hlive
    have hnone := noneLost_iff reads_listSource hled.reachable rfl (collect_one s _) hp hbatch hlog
      rfl fun c hc _ => by
        cases List.mem_singleton.mp hc
        exact ⟨(by decide : 0 < 5), (by decide : 5 ≤ SlottedPage.maxInsertSize), .inr hroom₁⟩
    refine ⟨s, hled.reachable, hlive, batch, _, hbatch, _, ?_, hnone.mpr ⟨fun c hc _ => ?_, ?_⟩⟩
    · rfl
    · cases List.mem_singleton.mp hc
      rfl
    · exact (by decide : 1 < 2 ^ 31)
  · exact absurd hplace hno

theorem exists_two_pages {δ : Type} [PageDisk δ] [LawfulPageDisk δ] (file : FileId) (d : δ)
    (hopen : LawfulPageDisk.opened d file) : ∃ s : HeapState δ, Reachable file s ∧
      s.pool.frameCount = 2 ∧ s.pool.nextPageId = 2 ∧ s.held = (fun _ => 0) ∧
      TwoObtainable s.pool s.held ∧ ∃ store l, Holds file s store l ∧
        l.contents = [(0, [some (List.replicate 4064 0)]), (1, [some [1]])] := by
  have hs := Sharing.create 2 d
  have hroom : (BufferPoolManager.create 2 d).HasRoom :=
    ⟨(by decide : 0 < invalidPageId), .inl (by decide : 2 ≤ frameLimit)⟩
  have hobtain : ∀ f < 2, Obtainable (BufferPoolManager.create 2 d) (fun _ => 0) f :=
    fun f hf => ⟨hf, fun _ _ => rfl⟩
  rcases Holds.create hs (fun _ => rfl) hopen hroom with ⟨m, _, hall⟩ |
    ⟨h, b, store, p, he, hst, hs₀, hslots, hnext⟩
  · exact absurd (hobtain 0 (by decide)) hall.not_obtainable
  have htwo : TwoObtainable b fun _ => 0 :=
    ⟨0, 1, hs.pool.obtainable_steady hst (hobtain 0 (by decide)),
      hs.pool.obtainable_steady hst (hobtain 1 (by decide)), by decide⟩
  have hlen : (List.replicate 4064 (0 : UInt8)).length = 4064 := List.length_replicate
  generalize List.replicate 4064 (0 : UInt8) = bytes at hlen
  have hl₀ : Pages.contents [(0, p)] = [] ++ [(0, [])] := by
    rw [← hslots]
    rfl
  have hfits : SlottedPage.Fits [] bytes.length := SlottedPage.fits_nil.mpr (Nat.le_of_eq hlen)
  have hno : ¬ SlottedPage.Fits [some bytes] [(1 : UInt8)].length := by
    rw [SlottedPage.fits_singleton, hlen]
    decide
  obtain ⟨rid₁, b₁, h₁, store₁, l₁, _, hstep₁, hst₁, hs₁, hl₁⟩ := hs₀.insert_last hl₀ bytes
    (by rw [hlen]; decide) (Nat.le_of_eq hlen) htwo (fun hno => absurd hfits hno) (.inl hfits)
  rw [if_pos hfits] at hl₁
  obtain ⟨-, hl₁, hnext₁⟩ := hl₁
  replace hl₁ : l₁.contents = [] ++ [(0, [some bytes])] := hl₁
  have hcount₁ : b₁.frameCount = 2 := hst₁.frameCount.trans hst.frameCount
  have hids₁ : b₁.nextPageId = 1 := hnext₁.trans hnext
  have hroom₁ : b₁.HasRoom := by
    unfold HasRoom
    rw [hcount₁, hids₁]
    decide
  have htwo₁ := hs₀.stored.twoObtainable hst₁ htwo
  obtain ⟨rid₂, b₂, h₂, store₂, l₂, _, hstep₂, hst₂, hs₂, hl₂⟩ := hs₁.insert_last hl₁ [1]
    (by decide) (by decide) htwo₁ (fun _ => hroom₁) (.inr ⟨0, nofun⟩)
  rw [if_neg hno] at hl₂
  obtain ⟨-, hl₂, hnext₂⟩ := hl₂
  have hr₂ := Within.step (P := fun _ => True) (.step
    (.create (.create 2 d) hopen hroom he trivial) hstep₁ trivial) hstep₂ trivial
  have hcount₂ : b₂.frameCount = 2 := hst₂.frameCount.trans hcount₁
  have hids₂ : b₂.nextPageId = 2 := by
    rw [hnext₂]
    exact congrArg (· + 1) hids₁
  have hl₂' : l₂.contents = [(0, [some bytes]), (1, [some [1]])] := by
    rw [hl₂]
    exact congrArg (fun n => [(0, [some bytes]), (n, [some [1]])]) hids₁
  have htwo₂ := hs₁.stored.twoObtainable hst₂ htwo₁
  exact ⟨_, hr₂, hcount₂, hids₂, rfl, htwo₂, _, _, hs₂, hl₂'⟩

/-- The first page is pinned, and another client has the other frame. -/
theorem exists_cornered : ∃ s : HeapState Disk.PageMap, Reachable 0 s ∧
    s.map ⟨0, 0⟩ = some (List.replicate 4064 0) ∧ Full s.pool ∧ s.pool.HasRoom ∧
    s.heap.lastPageId = 1 ∧ s.pool.pageTable ⟨0, 0⟩ ≠ none ∧ s.pool.pageTable ⟨0, 1⟩ = none := by
  obtain ⟨s, hr, hcount, hids, hheld, htwo, store, l, hs, hl⟩ :=
    exists_two_pages 0 Disk.PageMap.zero trivial
  have hmem : ⟨0, 0⟩ ∈ s.handed := by
    rw [hs.mem_handed_iff, ← Pages.map_fst_contents, hl]
    exact List.mem_cons_self
  have hids' : s.pool.nextPageId + 1 < invalidPageId := by
    rw [hids]
    decide
  have hpin : s.held ⟨0, 0⟩ + 1 < 2147483647 := by
    rw [hheld]
    decide
  obtain ⟨t, hr', hheap, hmap, hfull, hroom, hfirst, hother⟩ := hs.cornered hr hcount htwo hmem hpin
    (by decide : 1 ≠ 0) (fun _ => trivial) hids'
  refine ⟨t, hr', ?_, hfull, hroom, ?_, hfirst, hother 1 (by decide)⟩
  · rw [hmap, hs.map, hl]
    rfl
  · obtain ⟨pre, p, hlast⟩ := hs.chain.exists_last
    have hlast' := congrArg (List.map Prod.fst) hl
    rw [Pages.map_fst_contents, hlast, List.map_append] at hlast'
    have hids : pre.map Prod.fst ++ [s.heap.lastPageId] = [0] ++ [1] := hlast'
    rw [hheap]
    exact List.singleton_inj.mp (List.append_inj' hids rfl).2

/-- `mark_delete` of a page in the pool does not answer `false`. -/
theorem markDelete_ne_false {δ : Type} [PageDisk δ] [LawfulPageDisk δ] {file : FileId}
    {s : HeapState δ} (hr : Reachable file s) {rid : RecordId}
    (hres : s.pool.pageTable ⟨file, rid.pageId⟩ ≠ none) {b : BufferPoolManager δ} {h : TableHeap} :
    s.heap.markDelete s.pool rid ≠ .ok (.ok false, b, h) := by
  intro he
  obtain ⟨store, l, hs⟩ := hr.holds
  obtain ⟨⟨frame, b₁⟩, hwrite, he⟩ := bind_eq_ok.mp he
  cases frame with
  | none =>
      rw [hs.fileId] at hwrite
      exact hres ((hs.sharing.pool.backs.structural.fetchPage_none_iff _ _).mp hwrite).2.1
  | some f =>
      dsimp only at he
      split at he <;> cases he

theorem markDelete_lastPageId {δ : Type} [PageDisk δ] {b b' : BufferPoolManager δ}
    {h h' : TableHeap} {rid : RecordId} {r : Except Fault Bool}
    (he : h.markDelete b rid = .ok (r, b', h')) : h'.lastPageId = h.lastPageId := by
  obtain ⟨⟨frame, b₁⟩, _, he⟩ := bind_eq_ok.mp he
  cases frame with
  | none =>
      cases he
      rfl
  | some f =>
      dsimp only at he
      split at he <;> cases he <;> rfl

/-- The old version is deleted in the pinned page, and the page for the new one cannot be read. -/
theorem update_loses_row : ∃ s : HeapState Disk.PageMap, Reachable 0 s ∧ s.pool.HasRoom ∧
    s.map ⟨0, 0⟩ = some (List.replicate 4064 0) ∧
    ∃ batch s', next setSeven (heapCalls (List Row) 0) (beside listSource) 2
        (start (s, [(⟨List.replicate 4064 0, .invalid⟩, ⟨0, 0⟩)])) 1 = .ok (some batch, s') ∧
      s'.world.1.map = Function.update s.map ⟨0, 0⟩ none ∧ Emits batch 0 ∧
      s'.world.1.liveCount + 1 = s.liveCount ∧
      ∀ log : List (RowUpdate (HeapState Disk.PageMap × List Row)),
        ¬ NoneLost s s'.world.1 log batch := by
  obtain ⟨s, hr, hlive, hfull, hroom, hlast, hres, hnone⟩ := exists_cornered
  refine ⟨s, hr, hroom, hlive, ?_⟩
  generalize List.replicate 4064 (0 : UInt8) = bytes at hlive
  obtain ⟨store, l, hs⟩ := hr.holds
  have hrid := hr.mem_handed fun hdead => nomatch hlive.symm.trans hdead
  have hplace : PagedTable.Place l.contents (0, 0) :=
    PagedTable.Place.of_get ((hs.map ⟨0, 0⟩).symm.trans hlive)
  rcases hs.markDelete hrid with ⟨he, _⟩ | ⟨b, h, store₁, l₁, he, hst, hs₁, hl₁, _⟩ |
    ⟨_, _, _, _, hno⟩
  · exact absurd he (markDelete_ne_false hr hres)
  · obtain ⟨hfull₁, hnone₁⟩ := hs.sharing.pool.blocked_steady hs₁.sharing.pool hst hfull hnone
    have hwrite : b.writePage h.fileId h.lastPageId = .ok (none, b) := by
      rw [show h.fileId = 0 from hs₁.fileId, markDelete_lastPageId he, hlast]
      exact (hs₁.sharing.pool.backs.structural.fetchPage_none_iff 0 1).mpr ⟨rfl, hnone₁, hfull₁⟩
    have hinsert : h.insertTuple b ⟨[0, 7, 0, 0, 0], .invalid⟩ = .ok (none, b, h) := by
      rw [TableHeap.insertTuple, hwrite]
      rfl
    have ht : updatedTuple setSeven ⟨bytes, .invalid⟩ = .ok ⟨[0, 7, 0, 0, 0], .invalid⟩ := rfl
    obtain ⟨⟨batch, hbatch⟩, hlog⟩ := updated_one setSeven (⟨bytes, .invalid⟩, ⟨0, 0⟩) rfl ht
      (heapCalls_markDelete [] he)
      (heapCalls_insertTuple (s := s.deleted ⟨0, 0⟩ (.ok true) b h) [] hinsert)
    obtain ⟨t, hcount, rfl⟩ := next_start (collect_one s _) hbatch hlog rfl
    have hless : (s.deleted ⟨0, 0⟩ (.ok true) b h).liveCount + 1 = s.liveCount := by
      rw [Reachable.liveCount_deleted hr true b h, hlive]
      rfl
    refine ⟨_, _, hbatch, rfl, ?_, hless, fun log hnone => ?_⟩
    · exact (emits_ofNat_iff (n := 0) (k := 0) (Nat.le_refl 32) rfl hcount).mpr
        ⟨Nat.dvd_zero _, by decide⟩
    · exact Nat.succ_ne_self _ (hless.trans hnone.liveCount.symm)
  · exact absurd hplace hno

end UpdateExecutor

end TurtleDb.Execution
