import TurtleDb.Execution.Modify
import TurtleDb.Table.Codec
import TurtleDb.Table.Room
import TurtleDb.Table.ScanRuns
import TurtleDb.Table.TupleCount

/-!
# The counts of INSERT and DELETE

The executors count the calls that they make on the heap, whatever these answer. The count is right
when no call fails, and then as long as it is an `int32_t`.
-/

namespace TurtleDb.Execution

open TurtleDb.Lib TurtleDb.Buffer TurtleDb.Page TurtleDb.Table TurtleDb.Table.HeapState
  TurtleDb.Datatype

/-! ## The count that is emitted -/

/-- The output of the plans: one `INTEGER` column. -/
def countSchema : ColumnSchema := [⟨"count", .integer, 4⟩]

/-- The batch is one tuple, and its column reads as `k`. -/
def Emits (batch : List Row) (k : Int) : Prop :=
  ∃ t v, batch = [(t, .invalid)] ∧ t.value countSchema 0 = .ok v ∧ v.isNull = false ∧
    (v.getAs 32).toInt = k

theorem getAs_of_same {u : Value} {i : BitVec 32} (h : u.Same (Value.ofInt32 .integer i))
    (hi : (Value.ofInt32 .integer i).isNull = false) : u.getAs 32 = i := by
  obtain ⟨htype, hpayload⟩ := h.2 hi
  have hu : u.payload = leBytes 4 u.bits.toNat := by
    have hne : u.dataType ≠ .varchar := by
      rw [htype]
      exact nofun
    rw [Value.payload, if_neg hne, htype]
    rfl
  have hv : (Value.ofInt32 .integer i).payload = leBytes 4 (i.setWidth 64).toNat := rfl
  have hbits := congrArg leNat (hu.symm.trans (hpayload.trans hv))
  rw [leNat_leBytes, leNat_leBytes] at hbits
  refine BitVec.eq_of_toNat_eq ?_
  rw [Value.getAs, BitVec.toNat_setWidth]
  have hlt := i.isLt
  simp only [BitVec.toNat_setWidth] at hbits
  omega

theorem isNull_ofInt32 (i : BitVec 32) :
    (Value.ofInt32 .integer i).isNull = decide (i = 0x80000000#32) := by
  by_cases h : i = 0x80000000#32
  · subst h
    rfl
  · simp [Value.isNull, Value.ofInt32, Value.ofBits, h, valueNull]

theorem roundTrips_integer (i : BitVec 32) :
    Tuple.RoundTrips countSchema [Value.ofInt32 .integer i] := by
  have hvalid : ∀ v ∈ [Value.ofInt32 .integer i], v.Valid := by
    intro v hv
    cases List.mem_singleton.mp hv
    exact nofun
  have hserialize : (Value.ofInt32 .integer i).serialize.length = 4 := rfl
  refine (Tuple.roundTrips_iff_recoverable countSchema _ rfl hvalid).1
    ((Tuple.recoverable_of_small hvalid (show 1 + 7 < word32 by decide) ?_).mpr
      ⟨fun v hv hn => ?_, ?_⟩)
  · unfold Tuple.rowBytes
    simp only [List.map_singleton, List.sum_singleton, List.length_singleton, hserialize]
    split
    · exact (by decide : (1 + 7) / 8 + 4 < word32)
    · decide
  · cases List.mem_singleton.mp hv
    have hword : leNat (Value.ofInt32 .integer i).payload = i.toNat := by
      show leNat (leBytes 4 (i.setWidth 64).toNat) = _
      rw [leNat_leBytes, BitVec.toNat_setWidth_of_le (by decide)]
      exact Nat.mod_eq_of_lt i.isLt
    show (Value.ofWord .integer (leNat (Value.ofInt32 .integer i).payload)).isNull = false
    rw [hword]
    show (Value.ofInt32 .integer (BitVec.ofNat 32 i.toNat)).isNull = false
    rwa [BitVec.ofNat_toNat, BitVec.setWidth_eq]
  · exact ⟨fun _ => .inr fun u hu => absurd hu List.not_mem_nil, trivial⟩

theorem emits_countTuple {w : Nat} {count : BitVec w} {t : Tuple} {k : Int}
    (h : countTuple countSchema count = .ok t) :
    Emits [(t, .invalid)] k ↔
      count.setWidth 32 ≠ 0x80000000#32 ∧ (count.setWidth 32).toInt = k := by
  obtain ⟨t', hmake, hread, _⟩ := roundTrips_integer (count.setWidth 32)
  cases h.symm.trans hmake
  obtain ⟨v, hv, hsame⟩ := hread 0 _ rfl
  have hnull := hsame.1
  rw [isNull_ofInt32] at hnull
  constructor
  · rintro ⟨t', v', ht, hv', hn, hk⟩
    cases ht
    cases hv.symm.trans hv'
    have hne : count.setWidth 32 ≠ 0x80000000#32 := by
      rw [hn] at hnull
      exact of_decide_eq_false hnull.symm
    rw [getAs_of_same hsame (by rw [isNull_ofInt32, decide_eq_false hne])] at hk
    exact ⟨hne, hk⟩
  · rintro ⟨hne, hk⟩
    rw [decide_eq_false hne] at hnull
    refine ⟨t, v, rfl, hv, hnull, ?_⟩
    rwa [getAs_of_same hsame (by rw [isNull_ofInt32, decide_eq_false hne])]

theorem emits_ofNat_iff {w n k failed : Nat} {t : Tuple} (hw : 32 ≤ w) (hn : n = k + failed)
    (h : countTuple countSchema (BitVec.ofNat w n) = .ok t) :
    Emits [(t, .invalid)] (k : Int) ↔ 2 ^ 32 ∣ failed ∧ k < 2 ^ 31 := by
  rw [emits_countTuple h]
  rw [BitVec.setWidth_ofNat_of_le hw, BitVec.toInt_ofNat', Int.bmod_def]
  constructor
  · rintro ⟨-, hk⟩
    split at hk <;> omega
  · rintro ⟨⟨q, rfl⟩, hk⟩
    refine ⟨fun hmin => ?_, ?_⟩
    · have hmod := congrArg BitVec.toNat hmin
      rw [BitVec.toNat_ofNat] at hmod
      have hmin' : (0x80000000#32).toNat = 2147483648 := rfl
      omega
    · split <;> omega

/-! ## The calls of a run -/

/-- A call on the heap: the state before it, the row, and whether it answered `true`. -/
structure Call (ω : Type) where
  before : ω
  row : Row
  done : Bool

namespace CountingExecutor

variable {ω : Type}

inductive CalledRows (call : ω → Row → Except Fault (Bool × ω)) :
    ω → List Row → List (Call ω) → ω → Prop where
  | nil (w : ω) : CalledRows call w [] [] w
  | cons {w w₁ w' row rows done log} (h : call w row = .ok (done, w₁))
      (hrest : CalledRows call w₁ rows log w') :
      CalledRows call w (row :: rows) (⟨w, row, done⟩ :: log) w'

/-- The child is drained, with these calls for its rows. -/
inductive Drained (call : ω → Row → Except Fault (Bool × ω)) (child : AbstractExecutor ω)
    (batchSize : Nat) : ω → List (Call ω) → ω → Prop where
  | stop {w w'} (h : child w batchSize = .ok (none, w')) : Drained call child batchSize w [] w'
  | batch {w w₁ w₂ w' rows log log'} (h : child w batchSize = .ok (some rows, w₁))
      (hrows : CalledRows call w₁ rows log w₂)
      (hrest : Drained call child batchSize w₂ log' w') :
      Drained call child batchSize w (log ++ log') w'

variable {call : ω → Row → Except Fault (Bool × ω)} {child : AbstractExecutor ω}
  {batchSize fuel : Nat} {w w' : ω} {rows : List Row} {log : List (Call ω)}
  {total total' : BitVec 64}

theorem callRows_ok (h : callRows call rows w total = .ok (w', total')) :
    ∃ log, CalledRows call w rows log w' ∧ total' = total + BitVec.ofNat 64 log.length := by
  induction rows generalizing w total with
  | nil =>
      cases h
      exact ⟨[], .nil _, (BitVec.add_zero _).symm⟩
  | cons row rows ih =>
      rw [callRows] at h
      obtain ⟨⟨done, w₁⟩, hcall, h⟩ := bind_eq_ok.mp h
      obtain ⟨log, hlog, rfl⟩ := ih h
      refine ⟨_, .cons hcall hlog, ?_⟩
      rw [List.length_cons, Nat.add_comm log.length 1, BitVec.ofNat_add, BitVec.add_assoc]
      rfl

theorem drain_ok (h : drain call child batchSize fuel w total = .ok (w', total')) :
    ∃ log, Drained call child batchSize w log w' ∧
      total' = total + BitVec.ofNat 64 log.length := by
  induction fuel generalizing w total with
  | zero => cases h
  | succ fuel ih =>
      rw [drain] at h
      obtain ⟨⟨batch, w₁⟩, hchild, h⟩ := bind_eq_ok.mp h
      cases batch with
      | none =>
          cases h
          exact ⟨[], .stop hchild, (BitVec.add_zero _).symm⟩
      | some rows =>
          obtain ⟨⟨w₂, total₂⟩, hrows, h⟩ := bind_eq_ok.mp h
          obtain ⟨log, hlog, rfl⟩ := callRows_ok hrows
          obtain ⟨log', hlog', rfl⟩ := ih h
          refine ⟨_, .batch hchild hlog hlog', ?_⟩
          rw [List.length_append, BitVec.ofNat_add, BitVec.add_assoc]

theorem CalledRows.unique (h : CalledRows call w rows log w') {log₁ : List (Call ω)} {w₁ : ω}
    (h₁ : CalledRows call w rows log₁ w₁) : log = log₁ ∧ w' = w₁ := by
  induction h generalizing log₁ with
  | nil w =>
      cases h₁
      exact ⟨rfl, rfl⟩
  | cons hcall _ ih =>
      cases h₁ with
      | cons hcall₁ hrest₁ =>
          cases hcall.symm.trans hcall₁
          obtain ⟨rfl, rfl⟩ := ih hrest₁
          exact ⟨rfl, rfl⟩

theorem Drained.unique (h : Drained call child batchSize w log w') {log₁ : List (Call ω)} {w₁ : ω}
    (h₁ : Drained call child batchSize w log₁ w₁) : log = log₁ ∧ w' = w₁ := by
  induction h generalizing log₁ with
  | stop hchild =>
      cases h₁ with
      | stop hchild₁ =>
          cases hchild.symm.trans hchild₁
          exact ⟨rfl, rfl⟩
      | batch hchild₁ _ _ => cases hchild.symm.trans hchild₁
  | batch hchild hrows _ ih =>
      cases h₁ with
      | stop hchild₁ => cases hchild.symm.trans hchild₁
      | batch hchild₁ hrows₁ hrest₁ =>
          cases hchild.symm.trans hchild₁
          obtain ⟨rfl, rfl⟩ := hrows.unique hrows₁
          obtain ⟨rfl, rfl⟩ := ih hrest₁
          exact ⟨rfl, rfl⟩

/-- The first call counts all the calls that it makes on the heap. -/
theorem next_start {outputSchema : ColumnSchema} {batch : List Row} {s' : State ω}
    (h : next call outputSchema child fuel (start w) batchSize = .ok (some batch, s'))
    (hlog : Drained call child batchSize w log s'.world) :
    ∃ t, countTuple outputSchema (BitVec.ofNat 64 log.length) = .ok t ∧
      batch = [(t, .invalid)] := by
  rw [next, start, if_neg Bool.false_ne_true] at h
  obtain ⟨⟨w₁, total⟩, hdrain, h⟩ := bind_eq_ok.mp h
  obtain ⟨t, ht, h⟩ := bind_eq_ok.mp h
  cases h
  obtain ⟨log₁, hlog₁, rfl⟩ := drain_ok hdrain
  obtain ⟨rfl, -⟩ := hlog.unique hlog₁
  rw [show (0 : BitVec 64) + BitVec.ofNat 64 log.length = BitVec.ofNat 64 log.length from
    BitVec.zero_add _] at ht
  exact ⟨t, ht, rfl⟩

section
variable {I : ω → Prop} {f : ω → Int} {g : Call ω → Int}

theorem CalledRows.sum (h : CalledRows call w rows log w')
    (hcall : ∀ c ∈ log, ∀ w', I c.before → call c.before c.row = .ok (c.done, w') →
      I w' ∧ f w' = f c.before + g c) (hw : I w) :
    I w' ∧ f w' = f w + (log.map g).sum := by
  induction h with
  | nil w => exact ⟨hw, (Int.add_zero _).symm⟩
  | cons hc _ ih =>
      obtain ⟨hw₁, hf₁⟩ := hcall _ List.mem_cons_self _ hw hc
      obtain ⟨hw', hf'⟩ := ih (fun c hmem => hcall c (List.mem_cons_of_mem _ hmem)) hw₁
      refine ⟨hw', ?_⟩
      rw [hf', hf₁, List.map_cons, List.sum_cons, Int.add_assoc]

/-- What the calls add up to, if the child adds nothing. -/
theorem Drained.sum (h : Drained call child batchSize w log w')
    (hchild : ∀ w batch w', I w → child w batchSize = .ok (batch, w') → I w' ∧ f w' = f w)
    (hcall : ∀ c ∈ log, ∀ w', I c.before → call c.before c.row = .ok (c.done, w') →
      I w' ∧ f w' = f c.before + g c) (hw : I w) :
    I w' ∧ f w' = f w + (log.map g).sum := by
  induction h with
  | stop hc =>
      obtain ⟨hw', hf'⟩ := hchild _ _ _ hw hc
      exact ⟨hw', by rw [hf', List.map_nil, List.sum_nil, Int.add_zero]⟩
  | batch hc hrows _ ih =>
      obtain ⟨hw₁, hf₁⟩ := hchild _ _ _ hw hc
      obtain ⟨hw₂, hf₂⟩ := hrows.sum (fun c hmem => hcall c (List.mem_append_left _ hmem)) hw₁
      obtain ⟨hw', hf'⟩ := ih (fun c hmem => hcall c (List.mem_append_right _ hmem)) hw₂
      refine ⟨hw', ?_⟩
      rw [hf', hf₂, hf₁, List.map_append, List.sum_append, Int.add_assoc]

end

end CountingExecutor

/-! ## The heap -/

section
variable {δ σ : Type} [PageDisk δ]

/-- The calls of the heap, on its state and that of the child. An exception leaves the executor. -/
def heapCalls (σ : Type) (file : FileId) : HeapCalls (HeapState δ × σ) where
  insertTuple := fun (s, c) tuple => do
    let (rid, b, h) ← s.heap.insertTuple s.pool tuple
    return (rid, (s.inserted file tuple rid b h, c))
  markDelete := fun (s, c) rid => do
    let (r, b, h) ← s.heap.markDelete s.pool rid
    match r with
    | .error fault => .error fault
    | .ok done => return (done, (s.deleted rid (.ok done) b h, c))

theorem insertTuple_heapCalls {file : FileId} {s : HeapState δ} {c : σ} {tuple : Tuple}
    {rid : Option RecordId} {w : HeapState δ × σ}
    (h : (heapCalls σ file).insertTuple (s, c) tuple = .ok (rid, w)) :
    ∃ b h', s.heap.insertTuple s.pool tuple = .ok (rid, b, h') ∧
      w = (s.inserted file tuple rid b h', c) := by
  obtain ⟨⟨rid', b, h'⟩, he, h⟩ := bind_eq_ok.mp h
  cases h
  exact ⟨b, h', he, rfl⟩

theorem heapCalls_insertTuple {file : FileId} {s : HeapState δ} {tuple : Tuple}
    {rid : Option RecordId} {b : BufferPoolManager δ} {h' : TableHeap} (c : σ)
    (he : s.heap.insertTuple s.pool tuple = .ok (rid, b, h')) :
    (heapCalls σ file).insertTuple (s, c) tuple = .ok (rid, (s.inserted file tuple rid b h', c)) := by
  simp only [heapCalls, he, ok_bind]
  rfl

theorem markDelete_heapCalls {file : FileId} {s : HeapState δ} {c : σ} {rid : RecordId}
    {done : Bool} {w : HeapState δ × σ}
    (h : (heapCalls σ file).markDelete (s, c) rid = .ok (done, w)) :
    ∃ b h', s.heap.markDelete s.pool rid = .ok (.ok done, b, h') ∧
      w = (s.deleted rid (.ok done) b h', c) := by
  obtain ⟨⟨r, b, h'⟩, he, h⟩ := bind_eq_ok.mp h
  cases r with
  | error fault => cases h
  | ok done' =>
      cases h
      exact ⟨b, h', he, rfl⟩

theorem heapCalls_markDelete {file : FileId} {s : HeapState δ} {rid : RecordId} {done : Bool}
    {b : BufferPoolManager δ} {h' : TableHeap} (c : σ)
    (he : s.heap.markDelete s.pool rid = .ok (.ok done, b, h')) :
    (heapCalls σ file).markDelete (s, c) rid = .ok (done, (s.deleted rid (.ok done) b h', c)) := by
  simp only [heapCalls, he, ok_bind]
  rfl

variable [LawfulPageDisk δ]

/-- Whatever the child does, in the pool too, the heap is left with the tuples it had. -/
def Reads (file : FileId) (child : AbstractExecutor (HeapState δ × σ)) : Prop :=
  ∀ s c n batch s' c', Reachable file s → child (s, c) n = .ok (batch, (s', c')) →
    Reachable file s' ∧ s'.map = s.map

omit [PageDisk δ] [LawfulPageDisk δ] in
/-- The call took a tuple away. -/
def Call.removed (c : Call (HeapState δ × σ)) : Bool :=
  c.done && (c.before.1.map c.row.2).isSome

omit [PageDisk δ] [LawfulPageDisk δ] in
theorem sum_ite_countP {α : Type} (p : α → Bool) (log : List α) :
    (log.map fun c => if p c then (1 : Int) else 0).sum = log.countP p := by
  induction log with
  | nil => rfl
  | cons c log ih =>
      rw [List.map_cons, List.sum_cons, ih, List.countP_cons]
      cases p c <;> simp [Int.add_comm]

omit [PageDisk δ] [LawfulPageDisk δ] in
theorem length_eq_countP_add {α : Type} (p : α → Bool) (log : List α) :
    log.length = log.countP p + log.countP fun c => !p c := by
  simpa using List.length_eq_countP_add_countP p

variable {file : FileId} {child : AbstractExecutor (HeapState δ × σ)} {batchSize : Nat}
  {w w' : HeapState δ × σ} {log : List (Call (HeapState δ × σ))}

/-- The rows that are inserted are new tuples of the heap. -/
theorem liveCount_insertRow (hchild : Reads file child) (hr : Reachable file w.1)
    (hlog : CountingExecutor.Drained (heapCalls σ file).insertRow child batchSize w log w')
    (hcan : ∀ c ∈ log, c.before.1.CanInsert c.row.1) :
    Reachable file w'.1 ∧ (w'.1.liveCount : Int) = w.1.liveCount + log.countP Call.done := by
  rw [← sum_ite_countP]
  refine hlog.sum (I := fun w => Reachable file w.1) (f := fun w => (w.1.liveCount : Int)) ?_ ?_ hr
  · rintro ⟨s, c⟩ batch ⟨s', c'⟩ hs h
    obtain ⟨hs', hmap⟩ := hchild s c _ batch s' c' hs h
    refine ⟨hs', ?_⟩
    unfold liveCount live
    rw [hmap]
  · rintro ⟨⟨s, c⟩, row, done⟩ hmem w₁ hs h
    obtain ⟨⟨rid, w₂⟩, h, hdone⟩ := bind_eq_ok.mp h
    cases hdone
    obtain ⟨b, h', he, rfl⟩ := insertTuple_heapCalls h
    refine ⟨hs.inserted (hcan _ hmem) he, ?_⟩
    show ((s.inserted file row.1 rid b h').liveCount : Int) = _
    rw [hs.liveCount_inserted (hcan _ hmem) he]
    cases rid <;> rfl

theorem liveCount_deleteRow (hchild : Reads file child) (hr : Reachable file w.1)
    (hlog : CountingExecutor.Drained (heapCalls σ file).deleteRow child batchSize w log w')
    (hpage : ∀ c ∈ log, ⟨file, c.row.2.pageId⟩ ∈ c.before.1.handed) :
    Reachable file w'.1 ∧ -(w'.1.liveCount : Int) = -w.1.liveCount + log.countP Call.removed := by
  rw [← sum_ite_countP]
  refine hlog.sum (I := fun w => Reachable file w.1) (f := fun w => -(w.1.liveCount : Int)) ?_ ?_ hr
  · rintro ⟨s, c⟩ batch ⟨s', c'⟩ hs h
    obtain ⟨hs', hmap⟩ := hchild s c _ batch s' c' hs h
    refine ⟨hs', ?_⟩
    unfold liveCount live
    rw [hmap]
  · rintro ⟨⟨s, c⟩, row, done⟩ hmem w₁ hs h
    obtain ⟨b, h', he, rfl⟩ := markDelete_heapCalls h
    refine ⟨hs.deleted (hpage _ hmem) he, ?_⟩
    have hcount : s.liveCount = (s.deleted row.2 (.ok done) b h').liveCount +
        if done && (s.map row.2).isSome then 1 else 0 := Reachable.liveCount_deleted hs done b h'
    show -((s.deleted row.2 (.ok done) b h').liveCount : Int) = -(s.liveCount : Int) +
      if done && (s.map row.2).isSome then 1 else 0
    rw [hcount, Nat.cast_add, Nat.cast_ite]
    split <;> omega

/-- The counts are those of the tuples that were added or removed exactly if no call was in vain, up
to the range of `int32_t`. -/
theorem counts_iff {file : FileId} {child : AbstractExecutor (HeapState δ × σ)}
    (hchild : Reads file child) {w : HeapState δ × σ} (hr : Reachable file w.1)
    {fuel batchSize : Nat} {batch : List Row} {s' : CountingExecutor.State (HeapState δ × σ)}
    {log : List (Call (HeapState δ × σ))} :
    (InsertExecutor.next (heapCalls σ file) countSchema child fuel (CountingExecutor.start w)
            batchSize = .ok (some batch, s') →
        CountingExecutor.Drained (heapCalls σ file).insertRow child batchSize w log s'.world →
        (∀ c ∈ log, c.before.1.CanInsert c.row.1) →
          (Emits batch (s'.world.1.liveCount - w.1.liveCount) ↔
            2 ^ 32 ∣ log.countP (fun c => !c.done) ∧ log.countP Call.done < 2 ^ 31)) ∧
      (DeleteExecutor.next (heapCalls σ file) countSchema child fuel (CountingExecutor.start w)
            batchSize = .ok (some batch, s') →
        CountingExecutor.Drained (heapCalls σ file).deleteRow child batchSize w log s'.world →
        (∀ c ∈ log, ⟨file, c.row.2.pageId⟩ ∈ c.before.1.handed) →
          (Emits batch (w.1.liveCount - s'.world.1.liveCount) ↔
            2 ^ 32 ∣ log.countP (fun c => !c.removed) ∧ log.countP Call.removed < 2 ^ 31)) := by
  constructor
  · intro h hlog hcan
    obtain ⟨t, ht, rfl⟩ := CountingExecutor.next_start h hlog
    obtain ⟨-, hcount⟩ := liveCount_insertRow hchild hr hlog hcan
    rw [show (s'.world.1.liveCount : Int) - w.1.liveCount = log.countP Call.done by omega]
    exact emits_ofNat_iff (by decide) (length_eq_countP_add Call.done log) ht
  · intro h hlog hpage
    obtain ⟨t, ht, rfl⟩ := CountingExecutor.next_start h hlog
    obtain ⟨-, hcount⟩ := liveCount_deleteRow hchild hr hlog hpage
    rw [show (w.1.liveCount : Int) - s'.world.1.liveCount = log.countP Call.removed by omega]
    exact emits_ofNat_iff (by decide) (length_eq_countP_add Call.removed log) ht

end

/-! ### One row -/

section
variable {δ : Type} {s : HeapState δ} {row : Row}

theorem drained_one
    {call : HeapState δ × List Row → Row → Except Fault (Bool × HeapState δ × List Row)}
    {done : Bool} {s' : HeapState δ} (hcall : call (s, []) row = .ok (done, (s', []))) :
    (∃ t, countTuple countSchema (BitVec.ofNat 64 1) = .ok t ∧
      CountingExecutor.next call countSchema (beside listSource) 2
          (CountingExecutor.start (s, [row])) 1 =
        .ok (some [(t, .invalid)], ⟨(s', []), 1, true⟩)) ∧
      CountingExecutor.Drained call (beside listSource) 1 (s, [row]) [⟨(s, []), row, done⟩]
        (s', []) := by
  obtain ⟨t, ht, -⟩ := roundTrips_integer 1
  have hcount : countTuple countSchema (1 : BitVec 64) = .ok t := ht
  have hbatch : (beside listSource : AbstractExecutor (HeapState δ × List Row)) (s, [row]) 1 =
      .ok (some [row], (s, [])) := rfl
  have hstop : (beside listSource : AbstractExecutor (HeapState δ × List Row)) (s', []) 1 =
      .ok (none, (s', [])) := rfl
  have hdrain : CountingExecutor.drain call (beside listSource) 1 2 (s, [row]) 0 =
      .ok ((s', []), 1) := by
    simp only [CountingExecutor.drain, CountingExecutor.callRows, hbatch, hstop, hcall, ok_bind]
    rfl
  refine ⟨⟨t, hcount, ?_⟩, ?_⟩
  · rw [CountingExecutor.next, CountingExecutor.start, if_neg Bool.false_ne_true]
    simp only [hdrain, hcount, ok_bind]
    rfl
  · have hd := CountingExecutor.Drained.batch hbatch (.cons hcall (.nil _)) (.stop hstop)
    exact hd

variable [PageDisk δ] {file : FileId} {b : BufferPoolManager δ} {h : TableHeap}

theorem insertRow_ok {σ : Type} {r : Option RecordId} (row : Row) (c : σ)
    (he : s.heap.insertTuple s.pool row.1 = .ok (r, b, h)) :
    (heapCalls σ file).insertRow (s, c) row =
      .ok (r.isSome, (s.inserted file row.1 r b h, c)) := by
  rw [HeapCalls.insertRow, heapCalls_insertTuple c he]
  rfl

theorem deleteRow_ok {σ : Type} {done : Bool} (row : Row) (c : σ)
    (he : s.heap.markDelete s.pool row.2 = .ok (.ok done, b, h)) :
    (heapCalls σ file).deleteRow (s, c) row =
      .ok (done, (s.deleted row.2 (.ok done) b h, c)) :=
  heapCalls_markDelete c he

theorem reads_listSource [LawfulPageDisk δ] :
    Reads file (beside listSource : AbstractExecutor (HeapState δ × List Row)) := by
  intro s rows n batch s' rows' hr h
  obtain ⟨⟨batch', rest⟩, -, h⟩ := bind_eq_ok.mp h
  cases h
  exact ⟨hr, rfl⟩

end

theorem counts_iff_one : ∃ s : HeapState Disk.PageMap, Reachable 0 s ∧
    (∃ batch s', InsertExecutor.next (heapCalls (List Row) 0) countSchema (beside listSource) 2
        (CountingExecutor.start (s, [(⟨[2], .invalid⟩, ⟨0, 0⟩)])) 1 = .ok (some batch, s') ∧
      Emits batch (s'.world.1.liveCount - s.liveCount)) ∧
    ∃ batch s', DeleteExecutor.next (heapCalls (List Row) 0) countSchema (beside listSource) 2
        (CountingExecutor.start (s, [(⟨[2], .invalid⟩, ⟨0, 0⟩)])) 1 = .ok (some batch, s') ∧
      Emits batch (s.liveCount - s'.world.1.liveCount) := by
  obtain ⟨s₀, h₀⟩ := exists_led 0
  obtain ⟨s, hled⟩ := Led.insert [] [1] [(0, [some [1]])] h₀ (by decide) (by decide)
    (fun _ => by decide) (.inl (by decide)) (by decide) trivial
  obtain ⟨store, l, hs, hl⟩ := hled.holds
  have hroom : s.pool.HasRoom := hled.hasRoom (by decide)
  have hplace : PagedTable.Place l.contents (0, 0) := by
    rw [hl]
    exact ⟨_, List.mem_singleton.mpr rfl, by decide⟩
  have hlive : s.map ⟨0, 0⟩ = some [1] := by
    rw [hs.map, hl]
    rfl
  have hmem : (⟨0, 0⟩ : RecordId) ∈ s.live := fun hnone => nomatch hlive.symm.trans hnone
  have hrid := hled.reachable.mem_handed hmem
  refine ⟨s, hled.reachable, ?_, ?_⟩
  · have hlast : l.contents = [] ++ [(0, [some [1]])] := hl
    obtain ⟨rid, b, h, _, _, he, _⟩ := hs.insert_last hlast [2] (by decide) (by decide) hled.two
      (fun _ => hroom) (.inl (by decide))
    obtain ⟨⟨t, _, hnext⟩, hlog⟩ := drained_one (insertRow_ok (⟨[2], .invalid⟩, ⟨0, 0⟩) [] he)
    refine ⟨_, _, hnext, ((counts_iff (reads_listSource) hled.reachable).1 hnext hlog ?_).mpr ?_⟩
    · intro c hc
      cases List.mem_singleton.mp hc
      exact ⟨Nat.one_pos, (by decide : 1 ≤ SlottedPage.maxInsertSize), .inr hroom⟩
    · exact ⟨Nat.dvd_zero _, (by decide : 1 < 2 ^ 31)⟩
  · rcases hs.markDelete hrid with ⟨_, hall⟩ | ⟨b, h, _, _, he, _⟩ | ⟨_, _, _, _, hno⟩
    · obtain ⟨f, _, hf, _⟩ := hled.two
      exact absurd hf hall.not_obtainable
    · obtain ⟨⟨t, _, hnext⟩, hlog⟩ :=
        drained_one (deleteRow_ok (⟨[2], .invalid⟩, ⟨0, 0⟩) [] he)
      refine ⟨_, _, hnext, ((counts_iff (reads_listSource) hled.reachable).2 hnext hlog ?_).mpr ?_⟩
      · intro c hc
        cases List.mem_singleton.mp hc
        exact hrid
      · simp [Call.removed, hlive]
    · exact absurd hplace hno

/-- The only frame is pinned. The executors report one row, and the heap is as it was. -/
theorem counts_false : ∃ s : HeapState Disk.PageMap, Reachable 0 s ∧ s.CanInsert ⟨[2], .invalid⟩ ∧
    (∃ batch s', InsertExecutor.next (heapCalls (List Row) 0) countSchema (beside listSource) 2
        (CountingExecutor.start (s, [(⟨[2], .invalid⟩, ⟨0, 0⟩)])) 1 = .ok (some batch, s') ∧
      s'.world.1.map = s.map ∧ Emits batch 1 ∧
      ¬ Emits batch (s'.world.1.liveCount - s.liveCount)) ∧
    ∃ batch s', DeleteExecutor.next (heapCalls (List Row) 0) countSchema (beside listSource) 2
        (CountingExecutor.start (s, [(⟨[2], .invalid⟩, ⟨0, 0⟩)])) 1 = .ok (some batch, s') ∧
      s'.world.1.map = s.map ∧ Emits batch 1 ∧
      ¬ Emits batch (s.liveCount - s'.world.1.liveCount) := by
  obtain ⟨s, hr, _, hfile, _, hfull, hroom, hnone⟩ := exists_evicted (δ := Disk.PageMap) .zero
    (by decide : 1 ≠ 0) trivial fun _ => trivial
  obtain ⟨store, l, hs⟩ := hr.holds
  have hwrite : ∀ i, s.pool.writePage s.heap.fileId i = .ok (none, s.pool) := fun i =>
    (hs.sharing.pool.backs.structural.fetchPage_none_iff _ i).mpr ⟨rfl, hfile ▸ hnone i, hfull⟩
  have hinsert : s.heap.insertTuple s.pool ⟨[2], .invalid⟩ = .ok (none, s.pool, s.heap) := by
    rw [TableHeap.insertTuple, hwrite]
    rfl
  have hdelete : s.heap.markDelete s.pool ⟨0, 0⟩ = .ok (.ok false, s.pool, s.heap) := by
    rw [TableHeap.markDelete, hwrite]
    rfl
  have hemits : ∀ t, countTuple countSchema (BitVec.ofNat 64 1) = .ok t →
      Emits [(t, .invalid)] 1 ∧ ¬ Emits [(t, .invalid)] (s.liveCount - s.liveCount) := by
    intro t ht
    rw [Int.sub_self]
    exact ⟨(emits_ofNat_iff (n := 1) (k := 1) (by decide) rfl ht).mpr ⟨Nat.dvd_zero _, by decide⟩,
      fun h => absurd ((emits_ofNat_iff (by decide) (Nat.zero_add 1).symm ht).mp h).1 (by decide)⟩
  refine ⟨s, hr, ⟨Nat.one_pos, (by decide : 1 ≤ SlottedPage.maxInsertSize), .inr hroom⟩, ?_, ?_⟩
  · obtain ⟨⟨t, ht, hnext⟩, -⟩ :=
      drained_one (insertRow_ok (⟨[2], .invalid⟩, ⟨0, 0⟩) [] hinsert)
    exact ⟨_, _, hnext, rfl, hemits t ht⟩
  · obtain ⟨⟨t, ht, hnext⟩, -⟩ :=
      drained_one (deleteRow_ok (⟨[2], .invalid⟩, ⟨0, 0⟩) [] hdelete)
    exact ⟨_, _, hnext, rfl, hemits t ht⟩

end TurtleDb.Execution
