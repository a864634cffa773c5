import TurtleDb.Table.GuardedHeap

/-!
# The calls of a heap leave no pins behind

Whatever way a call of the heap or of its iterator ends, the guards are those that there were before
it, and so are the pins.
-/

namespace TurtleDb.Table

open TurtleDb.Lib TurtleDb.Buffer TurtleDb.Buffer.Caller TurtleDb.Page

namespace GuardedHeap

variable {δ : Type} [PageDisk δ] {stack : Address} {s : System δ} {c c' : Caller δ}
  {rest : List (Address × Guard)} {mode : Mode} {f : FrameId} {h h' : TableHeap} {it : TableIterator}
  {rid : RecordId} {fileId : FileId} {tuple : Tuple} {fuel : Nat}

/-- The call is back, with the guards that there were before it. -/
structure Back (stack : Address) (s : System δ) (c c' : Caller δ) : Prop where
  runs : Runs stack s c'
  guards : c'.guards = c.guards

/-- The addresses from `stack` on are free. -/
def Below (stack : Address) (guards : List (Address × Guard)) : Prop :=
  ∀ p ∈ guards, p.1 < stack

theorem Below.not_mem (hb : Below stack rest) {a : Address} (ha : stack ≤ a) :
    a ∉ rest.map Prod.fst := by
  intro hmem
  obtain ⟨p, hp, rfl⟩ := List.mem_map.mp hmem
  exact absurd (hb p hp) (Nat.not_lt.mpr ha)

/-! ## Entering and leaving a scope -/

/-- A guard in the first object, alone. -/
theorem readPage_back (hb : Below stack c.guards) (hs : Runs stack s c) {k : PageKey}
    (hr : c.request stack mode k = .ok (some f, c')) :
    Back stack s c (c'.drop stack) ∧
      c.pool.fetchPage k.fileId k.pageId = .ok (some f, c'.pool) ∧
      (c'.drop stack).pool = mode.unpin c'.pool f := by
  obtain ⟨hs', hheld, hfetch⟩ := request_some hr hs (Nat.le_refl _) (hb.not_mem (Nat.le_refl _))
  obtain ⟨hs'', hguards, hpool⟩ := hheld.drop hs' (Nat.le_refl _)
  exact ⟨⟨hs'', hguards⟩, hfetch, hpool⟩

/-- `write_page` into the first object, from where the guard is moved to the second. -/
theorem enter (hb : Below stack c.guards) (hs : Runs stack s c) {k : PageKey}
    (hr : c.request stack mode k = .ok (some f, c')) :
    Runs stack s (c'.move (stack + 1) stack) ∧
      (c'.move (stack + 1) stack).Holding (stack + 1) mode f c.guards ∧
      c.pool.fetchPage k.fileId k.pageId = .ok (some f, (c'.move (stack + 1) stack).pool) := by
  obtain ⟨hs', hheld, hfetch⟩ := request_some hr hs (Nat.le_refl _) (hb.not_mem (Nat.le_refl _))
  have hout : stack + 1 ∉ c'.guards.map Prod.fst := by
    obtain ⟨g, hguards, _⟩ := hheld
    rw [hguards, List.map_cons, List.mem_cons]
    exact fun hmem => hmem.elim (Nat.succ_ne_self _) (hb.not_mem (Nat.le_succ _))
  obtain ⟨hs'', hheld', hpool⟩ := hheld.move hs' (Nat.le_refl _) (Nat.le_succ _) hout
  exact ⟨hs'', hheld', hpool ▸ hfetch⟩

/-- The guard that was moved to the second object goes, and the first has none. -/
theorem leave (hb : Below stack rest) (hheld : c.Holding (stack + 1) mode f rest)
    (hs : Runs stack s c) : Runs stack s ((c.drop (stack + 1)).drop stack) ∧
      ((c.drop (stack + 1)).drop stack).guards = rest ∧
      ((c.drop (stack + 1)).drop stack).pool = mode.unpin c.pool f := by
  obtain ⟨hs', hguards, hpool⟩ := hheld.drop hs (Nat.le_succ _)
  rw [drop_of_not_mem (by rw [hguards]; exact hb.not_mem (Nat.le_refl _))]
  exact ⟨hs', hguards, hpool⟩

/-! ## The calls -/

theorem markDelete_back (hb : Below stack c.guards) (hs : Runs stack s c)
    {r : Except Fault Bool} (he : markDelete stack c h rid = .ok (r, c', h')) :
    Back stack s c c' ∧ h.markDelete c.pool rid = .ok (r, c'.pool, h') := by
  obtain ⟨⟨frame, c₁⟩, hr, he⟩ := bind_eq_ok.mp he
  cases frame with
  | none =>
      cases he
      obtain ⟨hs₁, hguards, hfetch⟩ := request_none hr hs (Nat.le_refl _)
      refine ⟨⟨hs₁, hguards⟩, ?_⟩
      rw [TableHeap.markDelete, BufferPoolManager.writePage, hfetch]
      rfl
  | some frame =>
      obtain ⟨hs₁, hheld, hfetch⟩ := enter hb hs hr
      rw [TableHeap.markDelete, BufferPoolManager.writePage, hfetch, ok_bind]
      dsimp only at he ⊢
      generalize c₁.move (stack + 1) stack = c₂ at *
      cases hd : SlottedPage.deleteTuple (c₂.pool.data frame) rid with
      | error fault =>
          rw [hd] at he
          cases he
          obtain ⟨hs', hguards, hpool⟩ := leave hb hheld hs₁
          refine ⟨⟨hs', hguards⟩, ?_⟩
          rw [hpool]
          rfl
      | ok page =>
          rw [hd] at he
          cases he
          obtain ⟨hs₂, hheld₂, hpool₂⟩ := hheld.access hs₁ (Nat.le_succ _) page
          obtain ⟨hs', hguards, hpool⟩ := leave hb hheld₂ hs₂
          refine ⟨⟨hs', hguards⟩, ?_⟩
          rw [hpool, hpool₂]
          rfl

theorem getTuple_back (hb : Below stack c.guards) (hs : Runs stack s c)
    {r : Except Fault (Option Tuple)} (he : getTuple stack c h rid tuple = .ok (r, c')) :
    Back stack s c c' ∧ h.getTuple c.pool rid tuple = .ok (r, c'.pool) := by
  obtain ⟨⟨frame, c₁⟩, hr, he⟩ := bind_eq_ok.mp he
  cases frame with
  | none =>
      cases he
      obtain ⟨hs₁, hguards, hfetch⟩ := request_none hr hs (Nat.le_refl _)
      refine ⟨⟨hs₁, hguards⟩, ?_⟩
      rw [TableHeap.getTuple, BufferPoolManager.readPage, hfetch]
      rfl
  | some frame =>
      obtain ⟨hback, hfetch, hpool⟩ := readPage_back hb hs hr
      rw [TableHeap.getTuple, BufferPoolManager.readPage, hfetch, ok_bind]
      dsimp only at he ⊢
      cases hd : SlottedPage.tuple (c₁.pool.data frame) rid with
      | error fault =>
          rw [hd] at he
          cases he
          refine ⟨hback, ?_⟩
          rw [hpool]
          rfl
      | ok bytes =>
          rw [hd] at he
          cases he
          refine ⟨hback, ?_⟩
          rw [hpool]
          rfl

theorem findLastPage_back {page : PageId} {last : Option PageId} (hb : Below stack c.guards)
    (hs : Runs stack s c) (he : findLastPage stack fileId fuel c page = .ok (last, c')) :
    Back stack s c c' ∧ TableHeap.findLastPage fileId fuel c.pool page = .ok (last, c'.pool) := by
  induction fuel generalizing c page with
  | zero => cases he
  | succ fuel ih =>
      obtain ⟨⟨frame, c₁⟩, hr, he⟩ := bind_eq_ok.mp he
      cases frame with
      | none =>
          cases he
          obtain ⟨hs₁, hguards, hfetch⟩ := request_none hr hs (Nat.le_refl _)
          refine ⟨⟨hs₁, hguards⟩, ?_⟩
          rw [TableHeap.findLastPage, BufferPoolManager.readPage, hfetch]
          rfl
      | some frame =>
          obtain ⟨hback, hfetch, hpool⟩ := readPage_back hb hs hr
          rw [TableHeap.findLastPage, BufferPoolManager.readPage, hfetch, ok_bind]
          dsimp only at he ⊢
          split at he
          · rw [if_pos ‹_›]
            obtain ⟨hback', hlast⟩ := ih (hback.guards ▸ hb) hback.runs he
            rw [hpool] at hlast
            exact ⟨⟨hback'.runs, hback'.guards.trans hback.guards⟩, hlast⟩
          · rw [if_neg ‹_›]
            cases he
            refine ⟨hback, ?_⟩
            rw [hpool]
            rfl

theorem openExisting_back {firstPageId : PageId} (hb : Below stack c.guards) (hs : Runs stack s c)
    (he : openExisting stack fuel c fileId firstPageId = .ok (h, c')) :
    Back stack s c c' ∧ TableHeap.openExisting fuel c.pool fileId firstPageId =
      .ok (h, c'.pool) := by
  obtain ⟨⟨last, c₁⟩, hlast, he⟩ := bind_eq_ok.mp he
  obtain ⟨hback, hlast'⟩ := findLastPage_back hb hs hlast
  cases he
  refine ⟨hback, ?_⟩
  rw [TableHeap.openExisting, hlast']
  rfl

/-- One round leaves a guard on the page that it ends at. -/
theorem insertLoop_back {r : Option RecordId} (hb : Below stack rest) (hs : Runs stack s c)
    (hheld : c.Holding (stack + 1) .write f rest)
    (he : insertLoop stack tuple fuel c h f = .ok (r, c', h')) :
    Runs stack s c' ∧ c'.guards = rest ∧
      TableHeap.insertLoop tuple fuel c.pool h f = .ok (r, c'.pool, h') := by
  induction fuel generalizing c h f with
  | zero => cases he
  | succ fuel ih =>
      obtain ⟨⟨inserted, page⟩, hinsert, he⟩ := bind_eq_ok.mp he
      rw [TableHeap.insertLoop, hinsert, ok_bind]
      obtain ⟨hs₁, hheld₁, hpool₁⟩ := hheld.access hs (Nat.le_succ _) page
      cases inserted with
      | some rid =>
          cases he
          obtain ⟨hs', hguards, hpool⟩ := leave hb hheld₁ hs₁
          refine ⟨hs', hguards, ?_⟩
          rw [hpool, hpool₁]
          rfl
      | none =>
          dsimp only at he ⊢
          split at he
          · cases he
          · rw [if_neg ‹_›]
            obtain ⟨⟨new, c₂⟩, hnew, he⟩ := bind_eq_ok.mp he
            cases new with
            | none =>
                obtain ⟨hs₂, hguards₂, hr⟩ := newPage_none hnew hs₁ (Nat.le_add_right _ _)
                have hheld₂ : c₂.Holding (stack + 1) .write f rest := by
                  unfold Holding
                  rw [hguards₂]
                  exact hheld₁
                cases he
                obtain ⟨hs', hguards, hpool⟩ := leave hb hheld₂ hs₂
                rw [hpool₁] at hr
                rw [hr, ok_bind]
                refine ⟨hs', hguards, ?_⟩
                rw [hpool]
                rfl
            | some new =>
                obtain ⟨newFrame, newPageId⟩ := new
                obtain ⟨c₃, hlock, he⟩ := bind_eq_ok.mp he
                obtain ⟨hr, hlinked, hlocked, hs', hheld', hpool⟩ := hheld₁.next hs₁
                  (Nat.le_succ _) (Nat.le_add_right _ _) (Nat.succ_ne_self _)
                  (hb.not_mem (Nat.le_add_right _ _)) (hb.not_mem (Nat.le_succ _)) hnew _ _ hlock
                rw [hpool₁] at hr
                rw [hr, ok_bind]
                obtain ⟨hs'', hguards, hloop⟩ := ih hs' hheld' he
                refine ⟨hs'', hguards, ?_⟩
                rw [hpool, hlocked, hlinked] at hloop
                exact hloop

theorem insertTuple_back {r : Option RecordId} (hb : Below stack c.guards) (hs : Runs stack s c)
    (he : insertTuple stack c h tuple = .ok (r, c', h')) :
    Back stack s c c' ∧ h.insertTuple c.pool tuple = .ok (r, c'.pool, h') := by
  obtain ⟨⟨frame, c₁⟩, hr, he⟩ := bind_eq_ok.mp he
  cases frame with
  | none =>
      cases he
      obtain ⟨hs₁, hguards, hfetch⟩ := request_none hr hs (Nat.le_refl _)
      refine ⟨⟨hs₁, hguards⟩, ?_⟩
      rw [TableHeap.insertTuple, BufferPoolManager.writePage, hfetch]
      rfl
  | some frame =>
      obtain ⟨hs₁, hheld, hfetch⟩ := enter hb hs hr
      obtain ⟨hs', hguards, hloop⟩ := insertLoop_back hb hs₁ hheld he
      refine ⟨⟨hs', hguards⟩, ?_⟩
      rw [TableHeap.insertTuple, BufferPoolManager.writePage, hfetch, ok_bind]
      dsimp only
      exact hloop

/-- The pin of a new page with the invalid id is the only one that a call keeps. -/
theorem create_back {r : Except Fault TableHeap} (hb : Below stack c.guards)
    (hs : Runs stack s c) (he : create stack c fileId = .ok (r, c')) :
    Runs stack s c' ∧ (c'.guards = c.guards ∨ ⟨fileId, invalidPageId⟩ ∈ c'.handed) ∧
      TableHeap.create c.pool fileId = r.map fun h => (h, c'.pool) := by
  obtain ⟨⟨new, c₁⟩, hnew, he⟩ := bind_eq_ok.mp he
  cases new with
  | none =>
      obtain ⟨hs₁, hguards, hr⟩ := newPage_none hnew hs (Nat.le_refl _)
      cases he
      refine ⟨hs₁, .inl hguards, ?_⟩
      rw [TableHeap.create, hr]
      rfl
  | some new =>
      obtain ⟨frame, firstPageId⟩ := new
      obtain ⟨hs₁, hguards₁, hhanded, hr⟩ :=
        newPage_some hnew hs (Nat.le_refl _) (hb.not_mem (Nat.le_refl _))
      rw [TableHeap.create, hr, ok_bind]
      dsimp only at he ⊢
      split at he
      · rename_i hinvalid
        cases he
        rw [if_pos hinvalid]
        exact ⟨hs₁, .inr (hinvalid ▸ hhanded), rfl⟩
      · rw [if_neg ‹_›]
        obtain ⟨c₂, hlock, he⟩ := bind_eq_ok.mp he
        obtain ⟨hs₂, hheld₂, hpool₂⟩ := lock_fetched hlock hs₁ (Nat.le_refl _) hguards₁ rfl
        obtain ⟨hs₃, hheld₃, hpool₃⟩ := hheld₂.access hs₂ (Nat.le_refl _)
          (SlottedPage.init (c₂.pool.data frame) firstPageId)
        obtain ⟨hs', hguards, hpool⟩ := hheld₃.drop hs₃ (Nat.le_refl _)
        cases he
        refine ⟨hs', .inl hguards, ?_⟩
        rw [hpool, hpool₃, hpool₂]
        rfl

/-! ## The iterator -/

theorem advanceToValid_back {r : Except Fault TableIterator} (hb : Below stack c.guards)
    (hs : Runs stack s c) (he : advanceToValid stack h fuel c it = .ok (r, c')) :
    Back stack s c c' ∧
      TableIterator.advanceToValid h fuel c.pool it = r.map fun it => (it, c'.pool) := by
  induction fuel generalizing c it with
  | zero => cases he
  | succ fuel ih =>
      rw [advanceToValid] at he
      rw [TableIterator.advanceToValid]
      split at he
      · rw [if_pos ‹_›]
        cases he
        exact ⟨⟨hs, rfl⟩, rfl⟩
      · rw [if_neg ‹_›]
        obtain ⟨⟨frame, c₁⟩, hr, he⟩ := bind_eq_ok.mp he
        cases frame with
        | none =>
            cases he
            obtain ⟨hs₁, hguards, hfetch⟩ := request_none hr hs (Nat.le_refl _)
            refine ⟨⟨hs₁, hguards⟩, ?_⟩
            rw [BufferPoolManager.readPage, hfetch]
            rfl
        | some frame =>
            obtain ⟨hback, hfetch, hpool⟩ := readPage_back hb hs hr
            rw [BufferPoolManager.readPage, hfetch, ok_bind]
            dsimp only at he ⊢
            split at he
            · rw [if_pos ‹_›]
              split at he
              all_goals
                rename_i hd
                cases he
                rw [hd]
                refine ⟨hback, ?_⟩
                rw [hpool]
                rfl
            · rw [if_neg ‹_›]
              obtain ⟨hback', hrest⟩ := ih (hback.guards ▸ hb) hback.runs he
              rw [hpool] at hrest
              exact ⟨⟨hback'.runs, hback'.guards.trans hback.guards⟩, hrest⟩

theorem makeIterator_back {r : Except Fault TableIterator} (hb : Below stack c.guards)
    (hs : Runs stack s c) (he : makeIterator stack fuel h c rid = .ok (r, c')) :
    Back stack s c c' ∧
      TableIterator.make fuel h c.pool rid = r.map fun it => (it, c'.pool) := by
  unfold makeIterator at he
  unfold TableIterator.make
  dsimp only at he ⊢
  split at he
  · rw [if_pos ‹_›]
    exact advanceToValid_back hb hs he
  · rw [if_neg ‹_›]
    cases he
    exact ⟨⟨hs, rfl⟩, rfl⟩

end GuardedHeap

/-! ## Any call -/

/-- The calls of a heap. What bounds the loops is part of the call. -/
inductive HeapCall where
  | create (fileId : FileId)
  | openExisting (fuel : Nat) (fileId : FileId) (firstPageId : PageId)
  | insertTuple (h : TableHeap) (tuple : Tuple)
  | markDelete (h : TableHeap) (rid : RecordId)
  | getTuple (h : TableHeap) (rid : RecordId) (tuple : Tuple)
  | makeIterator (fuel : Nat) (h : TableHeap) (rid : RecordId)
  | increment (fuel : Nat) (h : TableHeap) (it : TableIterator)

namespace HeapCall

variable {δ : Type} [PageDisk δ] {stack : Address} {s : System δ}

/-- What it returns or raises is left out. -/
def run (stack : Address) (s : System δ) : HeapCall → Except Fault (Caller δ)
  | create fileId => do
      let (_, c) ← GuardedHeap.create stack ⟨s, []⟩ fileId
      return c
  | openExisting fuel fileId firstPageId => do
      let (_, c) ← GuardedHeap.openExisting stack fuel ⟨s, []⟩ fileId firstPageId
      return c
  | insertTuple h tuple => do
      let (_, c, _) ← GuardedHeap.insertTuple stack ⟨s, []⟩ h tuple
      return c
  | markDelete h rid => do
      let (_, c, _) ← GuardedHeap.markDelete stack ⟨s, []⟩ h rid
      return c
  | getTuple h rid tuple => do
      let (_, c) ← GuardedHeap.getTuple stack ⟨s, []⟩ h rid tuple
      return c
  | makeIterator fuel h rid => do
      let (_, c) ← GuardedHeap.makeIterator stack fuel h ⟨s, []⟩ rid
      return c
  | increment fuel h it => do
      let (_, c) ← GuardedHeap.increment stack fuel h ⟨s, []⟩ it
      return c

theorem runs_start (stack : Address) (s : System δ) : Runs stack s ⟨s, []⟩ :=
  ⟨fun _ he => (List.not_mem_nil he).elim, fun _ => .nil⟩

theorem run_back {call : HeapCall} {t : Caller δ} (hb : GuardedHeap.Below stack s.guards)
    (hr : call.run stack s = .ok t) : Runs stack s t ∧
      (t.guards = s.guards ∨ ∃ fileId, ⟨fileId, invalidPageId⟩ ∈ t.handed) := by
  have hs := runs_start stack s
  cases call with
  | create fileId =>
      obtain ⟨⟨_, _⟩, hr, he⟩ := bind_eq_ok.mp hr
      cases he
      obtain ⟨hruns, hguards, _⟩ := GuardedHeap.create_back hb hs hr
      exact ⟨hruns, hguards.imp id fun hhanded => ⟨fileId, hhanded⟩⟩
  | openExisting fuel fileId firstPageId =>
      obtain ⟨⟨_, _⟩, hr, he⟩ := bind_eq_ok.mp hr
      cases he
      obtain ⟨⟨hruns, hguards⟩, _⟩ := GuardedHeap.openExisting_back hb hs hr
      exact ⟨hruns, .inl hguards⟩
  | insertTuple h tuple =>
      obtain ⟨⟨_, _, _⟩, hr, he⟩ := bind_eq_ok.mp hr
      cases he
      obtain ⟨⟨hruns, hguards⟩, _⟩ := GuardedHeap.insertTuple_back hb hs hr
      exact ⟨hruns, .inl hguards⟩
  | markDelete h rid =>
      obtain ⟨⟨_, _, _⟩, hr, he⟩ := bind_eq_ok.mp hr
      cases he
      obtain ⟨⟨hruns, hguards⟩, _⟩ := GuardedHeap.markDelete_back hb hs hr
      exact ⟨hruns, .inl hguards⟩
  | getTuple h rid tuple =>
      obtain ⟨⟨_, _⟩, hr, he⟩ := bind_eq_ok.mp hr
      cases he
      obtain ⟨⟨hruns, hguards⟩, _⟩ := GuardedHeap.getTuple_back hb hs hr
      exact ⟨hruns, .inl hguards⟩
  | makeIterator fuel h rid =>
      obtain ⟨⟨_, _⟩, hr, he⟩ := bind_eq_ok.mp hr
      cases he
      obtain ⟨⟨hruns, hguards⟩, _⟩ := GuardedHeap.makeIterator_back hb hs hr
      exact ⟨hruns, .inl hguards⟩
  | increment fuel h it =>
      obtain ⟨⟨_, _⟩, hr, he⟩ := bind_eq_ok.mp hr
      cases he
      obtain ⟨⟨hruns, hguards⟩, _⟩ := GuardedHeap.advanceToValid_back hb hs hr
      exact ⟨hruns, .inl hguards⟩

/-- A call that has returned keeps no pin and no latch, as long as the ids of pages do not run out. -/
theorem keeps_pins {poolSize : Nat} {d : δ} (hs : System.Reachable poolSize d s)
    (hb : GuardedHeap.Below stack s.guards) (call : HeapCall) {t : Caller δ}
    (hr : call.run stack s = .ok t) (hasked : t.Asked s.handed)
    (hle : t.allocated ≤ invalidPageId) : System.PinsKept s t.toSystem ∧ t.guards = s.guards := by
  obtain ⟨⟨hown, hrun⟩, hguards⟩ := run_back hb hr
  have hrun := hrun hasked
  have hsound := hs.sound (Nat.le_trans hrun.allocated_le hle)
  have hguards : t.guards = s.guards := by
    rcases hguards with hguards | ⟨fileId, hhanded⟩
    · exact hguards
    · exact absurd rfl ((hrun.sound hsound hle).ids.valid hhanded)
  exact ⟨hrun.pinsKept hsound hb hown hle hguards, hguards⟩

/-! ## Tables on an empty pool -/

theorem create_runs (stack : Address) {fileId : FileId} {f : FrameId} {page : PageId}
    {pool : BufferPoolManager (Logged δ)} (hguards : s.guards = [])
    (hr : s.pool.newPage fileId = .ok (some (f, page), pool)) (hvalid : page ≠ invalidPageId) :
    ∃ t, (create fileId).run stack s = .ok t ∧ t.steps = [.newPage stack .write fileId, .lock stack,
      .access stack (SlottedPage.init (pool.data f) page), .unlock stack, .unpin stack] ∧
      t.allocated = s.allocated + 1 := by
  let g : Guard := ⟨s.fetches, ⟨fileId, page⟩, f, .write, .fetched⟩
  let c : Caller δ := {
    toSystem := { (s.setPool pool).fetched stack .write ⟨fileId, page⟩ f with
      allocated := s.allocated + 1, handed := ⟨fileId, page⟩ :: s.handed }
    steps := [.newPage stack .write fileId] }
  let c' : Caller δ := {
    toSystem := { c.toSystem with guards := [(stack, { g with phase := .locked })] }
    steps := [.newPage stack .write fileId, .lock stack] }
  obtain ⟨data, hdata⟩ : ∃ data, data = SlottedPage.init (pool.data f) page := ⟨_, rfl⟩
  let c'' : Caller δ := {
    toSystem := { c'.toSystem with pool := pool.setData f data }
    steps := c'.steps ++ [.access stack data] }
  have hc : c.guards = [(stack, g)] := congrArg ((stack, g) :: ·) hguards
  have hfree : c.LatchFree g := by
    intro p hp _ hphase
    rw [hc] at hp
    cases List.mem_singleton.mp hp
    cases hphase
  have hlock : c.lock stack = .ok c' := by
    rw [Caller.lock, hc, List.lookup_cons_self]
    dsimp only
    rw [if_pos hfree, replace, if_pos rfl]
    rfl
  have hnew : Caller.newPage ⟨s, []⟩ stack fileId = .ok (some (f, page), c) := by
    rw [Caller.newPage, hr]
    rfl
  have hg : c'.guards.lookup stack = some { g with phase := .locked } := List.lookup_cons_self
  have haccess : c'.access stack data = c'' := access_eq hg data
  have hdrop : System.drop c''.toSystem stack = [.unlock stack, .unpin stack] :=
    if_pos List.mem_cons_self
  refine ⟨c''.drop stack, ?_, ?_⟩
  · rw [run, GuardedHeap.create, hnew, ok_bind]
    dsimp only
    rw [if_neg hvalid, hlock, ← haccess, hdata]
    rfl
  · rw [drop_eq (c := c'') hg, hdrop, ← hdata]
    exact ⟨rfl, rfl⟩

/-- A table on a new pool. -/
theorem keeps_pins_create : ∃ t : Caller Disk.PageMap,
    (create 0).run 0 (System.create 1 Disk.PageMap.zero) = .ok t ∧ t.allocated = 1 ∧
      System.PinsKept (System.create 1 Disk.PageMap.zero) t.toSystem ∧ t.guards = [] := by
  obtain ⟨b₁, d, _, hr⟩ := System.newPage_of_idle (.create 1 Disk.PageMap.zero) rfl rfl
  obtain ⟨t, hrun, hsteps, hallocated⟩ := create_runs 0 rfl hr (by decide)
  have hone : t.allocated = 1 := hallocated
  have hasked : t.Asked (System.create 1 Disk.PageMap.zero).handed := by
    intro a mode k hk
    rw [hsteps] at hk
    simp at hk
  obtain ⟨hkept, hguards⟩ := keeps_pins (.create (d := Disk.PageMap.zero)) (fun _ hp => by cases hp)
    (create 0) hrun hasked (by rw [hone]; decide)
  exact ⟨t, hrun, hone, hkept, hguards⟩

/-- The page whose id is the invalid one stays pinned. -/
theorem create_keeps_pin : ∃ (s : System Disk.PageMap) (t : Caller Disk.PageMap),
    System.Reachable 1 Disk.PageMap.zero s ∧ GuardedHeap.Below 0 s.guards ∧
      (create 0).run 0 s = .ok t ∧ t.Asked s.handed ∧ ¬ System.PinsKept s t.toSystem := by
  obtain ⟨es, s, hrun, hguards, hsize, hallocated⟩ :=
    System.exists_run_allocated invalidPageId (Nat.le_refl _)
  have hinv := hrun.invariant (.create 1 Disk.PageMap.zero) (Nat.le_of_eq hallocated)
  obtain ⟨pool, hr⟩ : ∃ pool, s.pool.newPage 0 = .ok (some (0, s.pool.nextPageId), pool) := by
    obtain ⟨b₁, d, _, hr⟩ := System.newPage_of_idle hinv hguards hsize
    exact ⟨_, hr⟩
  have hfresh := hinv.ids.fresh 0
  obtain ⟨hrepinned, htable⟩ := BufferPoolManager.Repinned.newPage hinv.structural hfresh hr
  have hpin : (pool.pages 0).pinCount = 1 := by
    rw [← BufferPoolManager.pins_of_table htable, hrepinned.pins,
      BufferPoolManager.pins_of_none hfresh, if_pos rfl]
    rfl
  have hnext : s.pool.nextPageId = invalidPageId := hinv.ids.next.trans hallocated
  let c : Caller Disk.PageMap := {
    toSystem := { (s.setPool pool).fetched 0 .write ⟨0, s.pool.nextPageId⟩ 0 with
      allocated := s.allocated + 1, handed := ⟨0, s.pool.nextPageId⟩ :: s.handed }
    steps := [.newPage 0 .write 0] }
  have hnew : Caller.newPage ⟨s, []⟩ 0 0 = .ok (some (0, s.pool.nextPageId), c) := by
    rw [Caller.newPage, hr]
    rfl
  refine ⟨s, c, hrun.reachable .create, ?_, ?_, ?_, ?_⟩
  · rw [hguards]
    exact fun _ hp => by cases hp
  · rw [run, GuardedHeap.create, hnew, ok_bind]
    dsimp only
    rw [if_pos hnext]
    rfl
  · intro a mode k hk
    cases List.mem_singleton.mp hk
  · intro hkept
    cases hpin.symm.trans (hkept.came _ 0 hfresh htable)

end HeapCall

end TurtleDb.Table
