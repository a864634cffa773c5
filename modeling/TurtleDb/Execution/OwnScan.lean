import TurtleDb.Execution.MatchingRows

/-!
# Scans of the table into which is inserted

The child of an `INSERT` may scan the table that gets the rows. It goes on as it would over a fixed
list of rows, as long as it has passed the places of the new ones. Else it will come to them too.
-/

namespace TurtleDb.Execution

open TurtleDb.Lib TurtleDb.Buffer TurtleDb.Buffer.BufferPoolManager TurtleDb.Page TurtleDb.Table
  TurtleDb.Table.HeapState TurtleDb.Datatype

/-- A scan that has the rows still to read does not come to the place: it is at its end, or on the
page of the place and behind it. -/
def Passed (rows : List Row) (rid : RecordId) : Prop :=
  ∀ row ∈ rows.head?, rid.pageId = row.2.pageId ∧ rid.slotNum < row.2.slotNum

/-- A tuple as a scan gives it, from a page. -/
structure Scanned (tuple : Tuple) : Prop where
  recordId : tuple.recordId = .invalid
  pos : 0 < tuple.data.length
  le : tuple.data.length ≤ 4064

/-- Those of the rows to look at that match. -/
abbrev due (keep : Tuple → Bool) (rows : List Row) : List Row := rows.filter fun row => keep row.1

theorem due_append (keep : Tuple → Bool) (rows rows' : List Row) :
    due keep (rows ++ rows') = due keep rows ++ due keep rows' := List.filter_append ..

theorem listSource_eq (rows : List Row) {n : Nat} (hn : 1 ≤ n) :
    (listSource : AbstractExecutor (List Row)) rows n =
      .ok (if (rows.take n).isEmpty then none else some (rows.take n), rows.drop n) := by
  cases rows with
  | nil => simp [listSource]
  | cons row rows =>
      obtain ⟨n, rfl⟩ := Nat.exists_eq_add_of_lt hn
      simp [listSource]

variable {δ σ τ : Type} [PageDisk δ] [LawfulPageDisk δ] {file : FileId}

/-- The child does over the heap what `source` does over a list: of these rows it has `todo` to look
at, and its scan has `left` to read. A tuple that comes into the table is none of them if the scan
has passed its place, and one of them otherwise. -/
structure Mirrors (file : FileId) (good : Tuple → Prop) (keep : Tuple → Bool)
    (left todo : τ → List Row) (child : AbstractExecutor (HeapState δ × σ))
    (source : AbstractExecutor τ) (n fuel : Nat) (R : HeapState δ × σ → τ → Prop) : Prop where
  scanned : ∀ tuple, good tuple → Scanned tuple
  reachable : ∀ w a, R w a → Reachable file w.1
  rows : ∀ w a, R w a → ∀ row ∈ todo a, good row.1
  live : ∀ w a, R w a → ∀ row ∈ left a, w.1.map row.2 ≠ none
  next : ∀ w a, R w a → ∃ batch w' a' seen, child w n = .ok (batch, w') ∧
    source a n = .ok (batch, a') ∧ R w' a' ∧ Browsed file w.1 w'.1 ∧ todo a = seen ++ todo a' ∧
      left a' <:+ left a ∧
        match batch with
        | none => due keep (todo a) = []
        | some rows => rows ≠ [] ∧ rows = due keep seen
  inserted : ∀ s t c a pages pages' tuple rid m m', R (s, c) a → good tuple →
    Spacious file s pages m → Spacious file t pages' m' →
      PagedTable.Adds tuple.data pages (rid.pageId, rid.slotNum) pages' → pages'.length < fuel →
        (Passed (left a) rid → R (t, c) a) ∧
          (¬ Passed (left a) rid → (left a).length + 1 < fuel →
            ∃ a', R (t, c) a' ∧ (left a').length = (left a).length + 1 ∧
              (todo a').Perm ((tuple, rid) :: todo a))

/-! ## The scan -/

namespace SeqScanExecutor

variable {s t : HeapState δ} {e : SeqScanExecutor} {rest : List Row} {fuel m m' : Nat}
  {pages pages' : PagedTable PageId (List UInt8)} {bytes : List UInt8} {rid : RecordId}

theorem Ahead.scanned {w : HeapState δ × SeqScanExecutor} (h : Ahead file fuel w rest) :
    ∀ row ∈ rest, Scanned row.1 := by
  obtain ⟨store, l, entries, hs, hreads, rfl⟩ := h.reads
  intro row hrow
  obtain ⟨x, hx, rfl⟩ := List.mem_map.mp hrow
  have hsub := (PagedTable.ahead_suffix l.contents w.2.iter.currentId.pageId
    w.2.iter.currentId.slotNum).subset
  rw [hreads.ahead] at hsub
  obtain ⟨hpos, hle⟩ := hs.entry_size (hsub hx)
  exact ⟨rfl, hpos, hle⟩

theorem Ahead.inserted (h : Ahead file fuel (s, e) rest) (hbefore : Spacious file s pages m)
    (hafter : Spacious file t pages' m')
    (hadds : PagedTable.Adds bytes pages (rid.pageId, rid.slotNum) pages')
    (hfuel : pages'.length < fuel) :
    (Passed rest rid → Ahead file fuel (t, e) rest) ∧
      (¬ Passed rest rid → ∃ rest', Ahead file fuel (t, e) rest' ∧
        rest'.Perm ((⟨bytes, .invalid⟩, rid) :: rest)) := by
  obtain ⟨store, l, entries, hs, hreads, rfl⟩ := h.reads
  obtain ⟨store₁, l₁, hs₁, rfl⟩ := hbefore.holds
  obtain rfl := hs.unique hs₁
  have hpages := hafter.pageCount_eq
  obtain ⟨store', l', hs', rfl⟩ := hafter.holds
  have hend : invalidPageId ∉ l'.contents.map Prod.fst := by
    rw [Pages.map_fst_contents]
    intro hmem
    obtain ⟨x, hx, hxe⟩ := List.mem_map.mp hmem
    exact (hs'.chain.linked.node_eq hx).2 hxe
  have hcan : CanRead file t := by
    obtain ⟨f, _, hf, _⟩ := hafter.two
    exact .inl (hs'.sharing.pool.not_full_iff.mpr ⟨f, hf⟩)
  have hahead : ∀ entries', Table.Reads l'.contents e.iter entries' →
      Ahead file fuel (t, e) (entries'.map entryRow) := fun entries' hreads' =>
    ⟨hafter.reachable, hcan, hpages ▸ hfuel, store', l', entries', hs', hreads', rfl⟩
  obtain ⟨hpassed, hcomes⟩ := hreads.inserted hadds hs.nodup hend
  have hiff : Passed (entries.map entryRow) rid ↔
      ∀ x ∈ entries.head?, rid.pageId = x.1.1 ∧ rid.slotNum < x.1.2 := by
    cases entries with
    | nil => simp [Passed]
    | cons x entries => simp [Passed, entryRow, Entry.rid]
  rw [hiff]
  refine ⟨fun hp => hahead _ (hpassed hp), fun hno => ?_⟩
  obtain ⟨entries', hreads', hperm⟩ := hcomes (by simpa using hno)
  exact ⟨_, hahead _ hreads', hperm.map entryRow⟩

theorem mirrors {n : Nat} (hn : 1 ≤ n) (fuel : Nat) :
    Mirrors file Scanned (fun _ => true) id id (nextOn (δ := δ) fuel) listSource n fuel
      (Ahead file fuel) where
  scanned _ h := h
  reachable _ _ h := h.reachable
  rows _ _ h := h.scanned
  live _ _ h row hrow hnone := nomatch hnone.symm.trans (h.pending.stored row hrow)
  next := by
    rintro ⟨s, e⟩ rest h
    obtain ⟨w', he, h', hb⟩ := h.next n
    refine ⟨_, w', _, rest.take n, he, listSource_eq rest hn, h', hb,
      (List.take_append_drop n rest).symm, List.drop_suffix n rest, ?_⟩
    rw [due, due, List.filter_true, List.filter_true]
    cases rest with
    | nil => simp
    | cons row rest =>
        obtain ⟨n, rfl⟩ := Nat.exists_eq_add_of_lt hn
        simp
  inserted := by
    intro s t e rest pages pages' tuple rid m m' h hgood hbefore hafter hadds hfuel
    obtain ⟨hpassed, hcomes⟩ := h.inserted hbefore hafter hadds hfuel
    refine ⟨hpassed, fun hno _ => ?_⟩
    obtain ⟨rest', h', hperm⟩ := hcomes hno
    obtain ⟨bytes, recordId⟩ := tuple
    obtain rfl : recordId = .invalid := hgood.recordId
    exact ⟨rest', h', hperm.length_eq, hperm⟩

end SeqScanExecutor

/-! ## A filter over it -/

namespace FilterExecutor

variable {filterExpr : Option (Tuple → Except Fault Value)} {keep : Tuple → Bool} {n fuel : Nat}

/-- Over children that answer alike the loop does so too. -/
theorem loop_agrees {σ₁ σ₂ : Type} {child₁ : AbstractExecutor σ₁} {child₂ : AbstractExecutor σ₂}
    {S : σ₁ → σ₂ → Prop}
    (hchild : ∀ c₁ c₂, S c₁ c₂ → ∃ batch c₁' c₂', child₁ c₁ n = .ok (batch, c₁') ∧
      child₂ c₂ n = .ok (batch, c₂') ∧ S c₁' c₂')
    {c₁ : σ₁} {c₂ : σ₂} (hS : S c₁ c₂) (batch : List Row) {r : Option (List Row)} {s₂ : State σ₂}
    (he : loop filterExpr child₂ n fuel c₂ batch = .ok (r, s₂)) :
    ∃ s₁, loop filterExpr child₁ n fuel c₁ batch = .ok (r, s₁) ∧
      s₁.childRows = s₂.childRows ∧ s₁.childOffset = s₂.childOffset ∧ S s₁.child s₂.child := by
  induction fuel generalizing c₁ c₂ batch with
  | zero => cases he
  | succ fuel ih =>
      obtain ⟨status, c₁', c₂', h₁, h₂, hS'⟩ := hchild c₁ c₂ hS
      rw [loop, h₂, ok_bind] at he
      rw [loop, h₁, ok_bind]
      cases status with
      | none =>
          cases he
          exact ⟨_, rfl, rfl, rfl, hS'⟩
      | some rows =>
          obtain ⟨⟨batch', full⟩, hfill, he⟩ := bind_eq_ok.mp he
          dsimp only
          rw [hfill, ok_bind]
          cases full with
          | none => exact ih hS' batch' he
          | some i =>
              cases he
              exact ⟨_, rfl, rfl, rfl, hS'⟩

/-- The filter over the heap and the one over the list have taken the same rows. -/
structure Mirrored (R : HeapState δ × σ → List Row → Prop) (good : Tuple → Prop) (fuel : Nat)
    (w : HeapState δ × State σ) (a : State (List Row)) : Prop where
  child : R (w.1, w.2.child) a.child
  childRows : w.2.childRows = a.childRows
  childOffset : w.2.childOffset = a.childOffset
  rows : ∀ row ∈ waiting a ++ a.child, good row.1
  fuel : a.child.length < fuel

/-- The tuples that the predicate decides. -/
def Decided (filterExpr : Option (Tuple → Except Fault Value)) (keep : Tuple → Bool)
    (tuple : Tuple) : Prop := Scanned tuple ∧ passes filterExpr tuple = .ok (keep tuple)

variable {child : AbstractExecutor (HeapState δ × σ)} {R : HeapState δ × σ → List Row → Prop}

theorem flows_listSource : Flows (1 ≤ ·) (fun _ _ => True)
    (listSource : AbstractExecutor (List Row)) fun c rest => c = rest := by
  rintro c _ n rfl hn
  refine ⟨_, _, c.drop n, listSource_eq c hn, rfl, ?_⟩
  cases c with
  | nil => simp
  | cons row rows =>
      obtain ⟨n, rfl⟩ := Nat.exists_eq_add_of_lt hn
      simp

theorem Mirrored.next (h : Mirrors file Scanned (fun _ => true) id id child listSource n fuel R)
    (hn : 1 ≤ n) {w : HeapState δ × State σ} {a : State (List Row)}
    (hw : Mirrored R (Decided filterExpr keep) fuel w a) :
    ∃ batch w' a' seen, nextOn filterExpr child fuel w n = .ok (batch, w') ∧
      next filterExpr listSource fuel a n = .ok (batch, a') ∧
      Mirrored R (Decided filterExpr keep) fuel w' a' ∧ Browsed file w.1 w'.1 ∧
      waiting a ++ a.child = seen ++ (waiting a' ++ a'.child) ∧ a'.child <:+ a.child ∧
        match batch with
        | none => due keep (waiting a ++ a.child) = []
        | some rows => rows ≠ [] ∧ rows = due keep seen := by
  obtain ⟨s, fs⟩ := w
  have hdecides : Decides filterExpr (fun row => keep row.1) (waiting a ++ a.child) :=
    fun row hrow => (hw.rows row hrow).2
  have htakes : Takes (emit fun row => keep row.1)
      (fun row => passes filterExpr row.1 = .ok (keep row.1)) (fun _ _ => True)
      (fun c rest => c = rest ∧ rest.length < fuel) n (loop filterExpr listSource n fuel) :=
    takes_loop flows_listSource hn
  obtain ⟨a', seen, _, hsplit, ⟨rfl, hfuel'⟩, hrun, hnil, -⟩ :=
    htakes a.child a.child ((waiting a).filterMap (emit fun row => keep row.1)) ⟨rfl, hw.fuel⟩
      fun row hrow => (hw.rows row (List.mem_append_right _ hrow)).2
  have hwaiting : waiting { fs with child := (s, fs.child) } = waiting a := by
    unfold waiting
    rw [hw.childRows, hw.childOffset]
  obtain ⟨s', hrun', hrows, hoffset, hR, hbrowsed⟩ :=
    loop_agrees (S := fun c rows => R c rows ∧ Browsed file s c.1) (fun c rows hc => by
      obtain ⟨batch, c', rows', _, h₁, h₂, hR, hb, _⟩ := h.next c rows hc.1
      exact ⟨batch, c', rows', h₁, h₂, hR, hc.2.trans hb⟩)
      ⟨hw.child, .refl (h.reachable _ _ hw.child)⟩ _ hrun
  have hcall : FilterExecutor.next filterExpr child fuel { fs with child := (s, fs.child) } n = _ :=
    next_eq (hwaiting ▸ hdecides.left) n
  rw [hwaiting, hrun'] at hcall
  have hsource : FilterExecutor.next filterExpr listSource fuel a n = _ :=
    (next_eq hdecides.left n).trans hrun
  have hseen : (waiting a).filterMap (emit fun row => keep row.1) ++
      seen.filterMap (emit fun row => keep row.1) =
        due keep (waiting a ++ seen) := by
    rw [← List.filterMap_append, filterMap_emit]
  rw [hseen] at hcall hsource hnil
  have hwhole : waiting a ++ a.child = (waiting a ++ seen) ++ (waiting a' ++ a'.child) := by
    rw [hsplit, List.append_assoc]
  refine ⟨_, (s'.child.1, { s' with child := s'.child.2 }), a', waiting a ++ seen, ?_, hsource,
    ⟨hR, hrows, hoffset, fun row hrow => ?_, hfuel'⟩, hbrowsed, hwhole, ?_, ?_⟩
  · simp only [nextOn, hcall, ok_bind]
    rfl
  · exact hw.rows row (hwhole ▸ List.mem_append_right _ hrow)
  · rw [hsplit, ← List.append_assoc]
    exact List.suffix_append _ _
  · by_cases hempty : due keep (waiting a ++ seen) = []
    · rw [if_pos (List.isEmpty_iff.mpr hempty), hwhole, hnil hempty, List.append_nil]
      exact hempty
    · rw [if_neg (mt List.isEmpty_iff.mp hempty)]
      exact ⟨hempty, rfl⟩

theorem mirrors (h : Mirrors file Scanned (fun _ => true) id id child listSource n fuel R)
    (hn : 1 ≤ n) :
    Mirrors file (Decided filterExpr keep) keep State.child (fun a => waiting a ++ a.child)
      (nextOn filterExpr child fuel) (FilterExecutor.next filterExpr listSource fuel) n fuel
      (Mirrored R (Decided filterExpr keep) fuel) where
  scanned _ hgood := hgood.1
  reachable _ _ hw := h.reachable _ _ hw.child
  rows _ _ hw := hw.rows
  live _ _ hw := h.live _ _ hw.child
  next _ _ hw := hw.next h hn
  inserted := by
    intro s t fs a pages pages' tuple rid m m' hw hgood hbefore hafter hadds hfuel
    obtain ⟨hpassed, hcomes⟩ := h.inserted s t fs.child a.child pages pages' tuple rid m m' hw.child
      hgood.1 hbefore hafter hadds hfuel
    refine ⟨fun hp => ⟨hpassed hp, hw.childRows, hw.childOffset, hw.rows, hw.fuel⟩,
      fun hno hlt => ?_⟩
    obtain ⟨rest', hR, hlength, hperm⟩ := hcomes hno hlt
    have hlength' : rest'.length = a.child.length + 1 := hlength
    have htodo : (waiting { a with child := rest' } ++ rest').Perm
        ((tuple, rid) :: (waiting a ++ a.child)) :=
      (hperm.append_left (waiting a)).trans List.perm_middle
    refine ⟨{ a with child := rest' }, ⟨hR, hw.childRows, hw.childOffset, fun row hrow => ?_,
      hlength' ▸ hlt⟩, hlength', htodo⟩
    rcases List.mem_cons.mp (htodo.subset hrow) with rfl | hrow
    · exact hgood
    · exact hw.rows row hrow

end FilterExecutor

end TurtleDb.Execution
