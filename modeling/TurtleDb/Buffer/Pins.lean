import TurtleDb.Buffer.GuardTheorems

/-!
# Who pinned a page

The pins of each page over a run of one call, from whatever pins there were before it. Other clients
may have unpinned pages that they did not pin.
-/

namespace TurtleDb.Buffer

open TurtleDb.Lib

namespace BufferPoolManager

variable {δ : Type} {b b₁ b' : BufferPoolManager δ} {f : FrameId} {k : PageKey} {n : Int}

/-- The pins of a page. A page that is not in the pool has none. -/
def pins (b : BufferPoolManager δ) (k : PageKey) : Int :=
  match b.pageTable k with
  | some f => (b.pages f).pinCount
  | none => 0

theorem pins_of_table (hk : b.pageTable k = some f) : b.pins k = (b.pages f).pinCount := by
  rw [pins, hk]

theorem pins_of_none (hk : b.pageTable k = none) : b.pins k = 0 := by
  rw [pins, hk]

theorem pins_nonneg (h : Structural b none) (k : PageKey) : 0 ≤ b.pins k := by
  cases hk : b.pageTable k with
  | none => rw [pins_of_none hk]
  | some f =>
      rw [pins_of_table hk]
      exact (h.resident_of_table hk).pin_nonneg

/-! ## The pins of one page change -/

/-- The page has `n` pins more, the other pages have those they had, and what is pinned stays where
it is. -/
structure Repinned (b b' : BufferPoolManager δ) (k : PageKey) (n : Int) : Prop where
  pins : ∀ k', b'.pins k' = b.pins k' + if k' = k then n else 0
  stays : ∀ k' f, 0 < b.pins k' → b.pageTable k' = some f → b'.pageTable k' = some f

theorem Repinned.update (h : Structural b none) (hk : b.pageTable k = some f) {p : Page}
    (hpages : b'.pages = Function.update b.pages f p) (htable : b'.pageTable = b.pageTable)
    (hpin : p.pinCount = (b.pages f).pinCount + n) : Repinned b b' k n where
  pins k' := by
    by_cases hkk : k' = k
    · subst hkk
      rw [pins_of_table (htable ▸ hk), pins_of_table hk, hpages, Function.update_self, hpin,
        if_pos rfl]
    · rw [if_neg hkk, Int.add_zero]
      cases hk' : b.pageTable k' with
      | none => rw [pins_of_none (htable ▸ hk'), pins_of_none hk']
      | some g =>
          have hgf : g ≠ f := fun he => hkk (h.table_inj hk' (he ▸ hk))
          rw [pins_of_table (htable ▸ hk'), pins_of_table hk', hpages, Function.update_of_ne hgf]
  stays k' g _ hk' := htable ▸ hk'

variable [PageDisk δ]

theorem pins_found (hfound : Found b b₁ f) (k : PageKey) : b₁.pins k = b.pins k := by
  have htable := hfound.table k
  split at htable
  · rw [pins_of_none htable, pins_of_table ‹_›, hfound.idle]
  · unfold pins
    rw [htable, hfound.pages]

theorem Repinned.install (hfound : Found b b₁ f) (hk : b.pageTable k = none)
    (hpages : b'.pages = Function.update b₁.pages f ⟨k.fileId, k.pageId, 1, false⟩)
    (htable : b'.pageTable = Function.update b₁.pageTable k (some f)) : Repinned b b' k 1 where
  pins k' := by
    by_cases hkk : k' = k
    · subst hkk
      have hf : b'.pageTable k' = some f := by rw [htable, Function.update_self]
      rw [pins_of_table hf, pins_of_none hk, hpages, Function.update_self, if_pos rfl]
      rfl
    · rw [if_neg hkk, Int.add_zero, ← pins_found hfound]
      have hother : b'.pageTable k' = b₁.pageTable k' := by
        rw [htable, Function.update_of_ne hkk]
      cases hk' : b₁.pageTable k' with
      | none => rw [pins_of_none (hother.trans hk'), pins_of_none hk']
      | some g =>
          have hgf : g ≠ f := fun he => (hfound.structural.table k' g hk').2.1 (congrArg some he)
          rw [pins_of_table (hother.trans hk'), pins_of_table hk', hpages,
            Function.update_of_ne hgf]
  stays k' g hpos hk' := by
    have hkk : k' ≠ k := by
      rintro rfl
      cases hk.symm.trans hk'
    have hgf : g ≠ f := by
      rintro rfl
      rw [pins_of_table hk', hfound.idle] at hpos
      exact absurd hpos (Int.lt_irrefl 0)
    rw [htable, Function.update_of_ne hkk, hfound.table, hk',
      if_neg fun he => hgf (Option.some.inj he)]

theorem Repinned.fetchPage (h : Structural b none)
    (hr : b.fetchPage k.fileId k.pageId = .ok (some f, b')) :
    Repinned b b' k 1 ∧ b'.pageTable k = some f := by
  rcases fetchPage_cases h k.fileId k.pageId with ⟨m, he, _⟩ | ⟨f', _, _, he⟩ | ⟨f', htable, he⟩ |
    ⟨_, he, _⟩ | ⟨f', b₁, data, d, hnone, hfound, _, he⟩
  · cases he.symm.trans hr
  · cases he.symm.trans hr
  · cases he.symm.trans hr
    exact ⟨.update h htable rfl rfl rfl, htable⟩
  · cases he.symm.trans hr
  · cases he.symm.trans hr
    exact ⟨.install hfound hnone rfl rfl, Function.update_self _ _ _⟩

theorem fetchPage_full (h : Structural b none)
    (hr : b.fetchPage k.fileId k.pageId = .ok (none, b')) : b' = b := by
  rcases fetchPage_cases h k.fileId k.pageId with ⟨m, he, _⟩ | ⟨f', _, _, he⟩ | ⟨f', _, he⟩ |
    ⟨_, he, _⟩ | ⟨f', b₁, data, d, _, _, _, he⟩
  · cases he.symm.trans hr
  · cases he.symm.trans hr
  · cases he.symm.trans hr
  · cases he.symm.trans hr
    rfl
  · cases he.symm.trans hr

theorem Repinned.newPage (h : Structural b none) {file : FileId} {page : PageId}
    (hfresh : b.pageTable ⟨file, b.nextPageId⟩ = none)
    (hr : b.newPage file = .ok (some (f, page), b')) :
    Repinned b b' ⟨file, page⟩ 1 ∧ b'.pageTable ⟨file, page⟩ = some f := by
  rcases newPage_cases h file with ⟨m, he, _⟩ | ⟨he, _⟩ | ⟨f', b₁, d, hfound, _, he⟩
  · cases he.symm.trans hr
  · cases he.symm.trans hr
  · cases he.symm.trans hr
    exact ⟨.install hfound hfresh rfl rfl, Function.update_self _ _ _⟩

theorem newPage_full (h : Structural b none) {file : FileId}
    (hr : b.newPage file = .ok (none, b')) : b' = b := by
  rcases newPage_cases h file with ⟨m, he, _⟩ | ⟨he, _⟩ | ⟨f', b₁, d, _, _, he⟩
  · cases he.symm.trans hr
  · cases he.symm.trans hr
    rfl
  · cases he.symm.trans hr

omit [PageDisk δ] in
theorem Repinned.unpinPage (h : Structural b none) (hpos : 0 < b.pins k) (isDirty : Bool) :
    Repinned b (b.unpinPage k.fileId k.pageId isDirty).2 k (-1) := by
  rcases unpinPage_cases b k.fileId k.pageId isDirty with ⟨_, hle⟩ | ⟨f, hk, _, he⟩
  · exfalso
    cases hk : b.pageTable k with
    | none =>
        rw [pins_of_none hk] at hpos
        exact absurd hpos (Int.lt_irrefl 0)
    | some f =>
        rw [pins_of_table hk] at hpos
        exact absurd (hle f hk) (Int.not_le.mpr hpos)
  · rw [he]
    exact .update h hk rfl rfl (Int.sub_eq_add_neg)

end BufferPoolManager

theorem Guard.exists_unpinPage {δ : Type} (g : Guard) (b : BufferPoolManager δ) :
    ∃ isDirty, g.unpin b =
      (b.unpinPage (b.pages g.page).fileId (b.pages g.page).pageId isDirty).2 := by
  unfold Guard.unpin
  cases g.mode with
  | read => exact ⟨false, rfl⟩
  | write => exact ⟨true, rfl⟩

namespace System

open BufferPoolManager

variable {δ : Type} [PageDisk δ] {s t u : System δ} {e : Event} {es : List Event}
  {pool : BufferPoolManager (Logged δ)} {k : PageKey} {f : FrameId}

/-! ## Pools that anyone may use -/

/-- The states that clients with guards and clients without lead to. Those without unpin what they
like and write to any frame. -/
inductive Reachable (poolSize : Nat) (d : δ) : System δ → Prop where
  | create : Reachable poolSize d (create poolSize d)
  | step {s t : System δ} {e : Event} (h : Reachable poolSize d s) (hstep : Step s e t) :
      Reachable poolSize d t
  | unpinPage {s : System δ} (h : Reachable poolSize d s) (file : FileId) (page : PageId)
      (isDirty : Bool) : Reachable poolSize d { s with pool := (s.pool.unpinPage file page isDirty).2 }
  | setData {s : System δ} (h : Reachable poolSize d s) (f : FrameId) (data : PageData) :
      Reachable poolSize d { s with pool := s.pool.setData f data }

/-- What holds in all of them: less than with guards alone, where pins and guards match. -/
structure Sound (s : System δ) : Prop where
  structural : Structural s.pool none
  ids : Ids s

omit [PageDisk δ] in
theorem Sound.create (poolSize : Nat) (d : δ) : Sound (System.create poolSize d) :=
  ⟨(Invariant.create poolSize d).structural, (Invariant.create poolSize d).ids⟩

omit [PageDisk δ] in
/-- The table is as it was, and no page was handed out. -/
theorem Sound.same (h : Sound s) (hstructural : Structural t.pool none)
    (htable : t.pool.pageTable = s.pool.pageTable) (hnext : t.pool.nextPageId = s.pool.nextPageId)
    (hallocated : t.allocated = s.allocated) (hhanded : t.handed = s.handed) : Sound t :=
  ⟨hstructural, h.ids.congr hnext hallocated hhanded fun _ _ hk => .inl (htable ▸ hk)⟩

omit [PageDisk δ] in
theorem Sound.unpinPage (h : Sound s) (file : FileId) (page : PageId) (isDirty : Bool)
    (hpool : t.pool = (s.pool.unpinPage file page isDirty).2)
    (hallocated : t.allocated = s.allocated) (hhanded : t.handed = s.handed) : Sound t := by
  obtain ⟨htable, _, hnext, _⟩ := unpinPage_keeps s.pool file page isDirty
  rw [← hpool] at htable hnext
  exact h.same (hpool ▸ h.structural.unpinPage file page isDirty) htable hnext hallocated hhanded

theorem Sound.step (h : Sound s) (hstep : Step s e t) (hle : t.allocated ≤ invalidPageId) :
    Sound t := by
  cases hstep with
  | fetch ha hk hr =>
      exact ⟨h.structural.fetchPage (h.ids.valid hk) hr, h.ids.fetch h.structural hk hr⟩
  | fetchFull hk hr =>
      cases fetchPage_full h.structural hr
      exact h.same h.structural rfl rfl rfl rfl
  | newPage ha hr =>
      exact ⟨h.structural.newPage (h.ids.next_valid hle) (h.ids.fresh _) hr,
        h.ids.newPage h.structural hle hr⟩
  | newPageFull hr =>
      cases newPage_full h.structural hr
      exact h.same h.structural rfl rfl rfl rfl
  | lock hg hphase hfree => exact h.same h.structural rfl rfl rfl rfl
  | access hg hphase hmode data =>
      exact h.same (h.structural.congr rfl rfl rfl rfl rfl) rfl rfl rfl rfl
  | unlock hg hphase => exact h.same h.structural rfl rfl rfl rfl
  | @unpin a g pre post hg hphase =>
      obtain ⟨isDirty, hunpin⟩ := g.exists_unpinPage s.pool
      exact h.unpinPage _ _ isDirty hunpin rfl rfl
  | move hg hphase htarget => exact h.same h.structural rfl rfl rfl rfl
  | flushPage hr =>
      have hflushed := Flushed.flushPage hr
      exact h.same (h.structural.flushPage hr) hflushed.table hflushed.nextPageId rfl rfl
  | flushAllPages hr =>
      have hflushed := Flushed.flushFrames hr
      exact h.same (h.structural.flushAllPages hr) hflushed.table hflushed.nextPageId rfl rfl
  | @deletePage file page r pool hr =>
      obtain ⟨r', b', hr', hstructural⟩ := h.structural.deletePage file page
      cases hr'.symm.trans hr
      rcases deletePage_cases hr with ⟨rfl, _⟩ | ⟨_, f, _, _, _, htable, hnext⟩
      · exact h.same h.structural rfl rfl rfl rfl
      · exact ⟨hstructural, (h.ids.erase hnext htable).congr rfl rfl rfl fun k f hk => .inl hk⟩

theorem Reachable.sound {poolSize : Nat} {d : δ} (h : Reachable poolSize d s)
    (hle : s.allocated ≤ invalidPageId) : Sound s := by
  induction h with
  | create => exact .create poolSize d
  | step _ hstep ih => exact (ih (Nat.le_trans hstep.allocated_le hle)).step hstep hle
  | unpinPage _ file page isDirty ih => exact (ih hle).unpinPage file page isDirty rfl rfl rfl
  | setData _ f data ih =>
      exact (ih hle).same ((ih hle).structural.congr rfl rfl rfl rfl rfl) rfl rfl rfl rfl

theorem Run.reachable {poolSize : Nat} {d : δ} (h : Run s es t) (hs : Reachable poolSize d s) :
    Reachable poolSize d t := by
  induction h with
  | nil => exact hs
  | snoc _ hstep ih => exact ih.step hstep

theorem Run.allocated_le (h : Run s es t) : s.allocated ≤ t.allocated := by
  induction h with
  | nil => exact Nat.le_refl _
  | snoc _ hstep ih => exact Nat.le_trans ih hstep.allocated_le

theorem Run.sound (h : Run s es t) (hs : Sound s) (hle : t.allocated ≤ invalidPageId) :
    Sound t := by
  induction h with
  | nil => exact hs
  | snoc _ hstep ih => exact (ih (Nat.le_trans hstep.allocated_le hle)).step hstep hle

/-! ## One call with guards of its own -/

/-- A step of the call whose objects are at the addresses from `stack` on. -/
def Event.Own (stack : Address) : Event → Prop
  | .fetch a _ _ | .newPage a _ _ | .lock a | .access a _ | .unlock a | .unpin a => stack ≤ a
  | .move source target => stack ≤ source ∧ stack ≤ target
  | .flushPage _ _ | .flushAllPages | .deletePage _ _ => False

/-- The guards of the call that were fetched for a page. -/
def owed (stack : Address) (guards : List (Address × Guard)) (k : PageKey) : Nat :=
  guards.countP fun p => stack ≤ p.1 ∧ p.2.key = k

/-- The pins in `t` are those in `s`, and one for each guard of the call. -/
structure Owes (stack : Address) (s t : System δ) : Prop where
  pins : ∀ k, t.pool.pins k = s.pool.pins k + owed stack t.guards k
  table : ∀ p ∈ t.guards, stack ≤ p.1 → t.pool.pageTable p.2.key = some p.2.page

section
variable {stack a a' : Address} {g g' : Guard} {guards pre post : List (Address × Guard)}

theorem owed_cons (ha : stack ≤ a) (k : PageKey) : owed stack ((a, g) :: guards) k =
    owed stack guards k + if g.key = k then 1 else 0 := by
  simp [owed, List.countP_cons, ha]

theorem owed_middle (p : Address × Guard) (k : PageKey) :
    owed stack (pre ++ p :: post) k = owed stack (p :: (pre ++ post)) k :=
  List.perm_middle.countP_eq _

theorem owed_pos {p : Address × Guard} (hp : p ∈ guards) (ha : stack ≤ p.1) :
    0 < owed stack guards p.2.key :=
  List.countP_pos_iff.mpr ⟨p, hp, by simp [ha]⟩

omit [PageDisk δ] in
theorem Owes.start (hguards : ∀ p ∈ s.guards, p.1 < stack) : Owes stack s s where
  pins k := by
    have hnone : owed stack s.guards k = 0 := by
      refine List.countP_eq_zero.mpr fun p hp => ?_
      rw [decide_eq_true_iff]
      exact fun hge => absurd (hguards p hp) (Nat.not_lt.mpr hge.1)
    rw [hnone]
    exact (Int.add_zero _).symm
  table p hp ha := absurd (hguards p hp) (Nat.not_lt.mpr ha)

omit [PageDisk δ] in
theorem Owes.pins_pos (h : Owes stack s t) (hs : Sound s) {p : Address × Guard}
    (hp : p ∈ t.guards) (ha : stack ≤ p.1) : 0 < t.pool.pins p.2.key := by
  have hnonneg := pins_nonneg hs.structural p.2.key
  have hpos := owed_pos hp ha
  rw [h.pins]
  omega

omit [PageDisk δ] in
theorem Owes.fetched (h : Owes stack s t) (hs : Sound s) (ha : stack ≤ a)
    (hr : Repinned t.pool u.pool g.key 1) (htable : u.pool.pageTable g.key = some g.page)
    (hguards : u.guards = (a, g) :: t.guards) : Owes stack s u where
  pins k := by
    rw [hr.pins, h.pins, hguards, owed_cons ha]
    simp only [eq_comm (a := g.key)]
    split <;> omega
  table p hp hle := by
    rw [hguards] at hp
    rcases List.mem_cons.mp hp with rfl | hp
    · exact htable
    · exact hr.stays _ _ (h.pins_pos hs hp hle) (h.table p hp hle)

omit [PageDisk δ] in
theorem Owes.replaced (h : Owes stack s t) (hg : t.guards = pre ++ (a, g) :: post)
    (hguards : u.guards = pre ++ (a', g') :: post) (hkey : g'.key = g.key)
    (hpage : g'.page = g.page) (ha : stack ≤ a) (ha' : stack ≤ a')
    (hpool : u.pool = t.pool) : Owes stack s u where
  pins k := by
    rw [hpool, h.pins, hg, hguards, owed_middle, owed_middle, owed_cons ha, owed_cons ha', hkey]
  table p hp hle := by
    rw [hguards] at hp
    rw [hpool]
    rcases List.mem_cons.mp (List.perm_middle.mem_iff.mp hp) with rfl | hp
    · rw [hkey, hpage]
      exact h.table (a, g) (by rw [hg]; simp) ha
    · refine h.table p ?_ hle
      rw [hg]
      exact List.perm_middle.mem_iff.mpr (List.mem_cons_of_mem _ hp)

omit [PageDisk δ] in
theorem Owes.unpinned (h : Owes stack s t) (hs : Sound s) (ht : Sound t)
    (hg : t.guards = pre ++ (a, g) :: post) (ha : stack ≤ a)
    (hguards : u.guards = pre ++ post) (hpool : u.pool = g.unpin t.pool) : Owes stack s u := by
  have hmem : (a, g) ∈ t.guards := by
    rw [hg]
    simp
  have hpos : 0 < t.pool.pins g.key := h.pins_pos hs hmem ha
  have hkey : (t.pool.pages g.page).key = g.key :=
    ht.structural.key_of_table (h.table (a, g) hmem ha)
  obtain ⟨isDirty, hunpin⟩ := g.exists_unpinPage t.pool
  have hr : Repinned t.pool u.pool g.key (-1) := by
    rw [hpool, hunpin, ← hkey]
    exact .unpinPage ht.structural (hkey ▸ hpos) isDirty
  have hold : ∀ p ∈ pre ++ post, p ∈ t.guards := fun p hp => by
    rw [hg]
    exact List.perm_middle.mem_iff.mpr (List.mem_cons_of_mem _ hp)
  constructor
  case pins =>
    intro k
    rw [hr.pins, h.pins, hg, hguards, owed_middle, owed_cons ha]
    simp only [eq_comm (a := g.key)]
    split <;> omega
  case table =>
    intro p hp hle
    rw [hguards] at hp
    exact hr.stays _ _ (h.pins_pos hs (hold p hp) hle) (h.table p (hold p hp) hle)

end

theorem Owes.step {stack : Address} (h : Owes stack s t) (hs : Sound s) (ht : Sound t)
    (hstep : Step t e u) (hown : e.Own stack) : Owes stack s u := by
  cases hstep with
  | @fetch a mode k f pool ha hk hr =>
      obtain ⟨hrepinned, htable⟩ := Repinned.fetchPage ht.structural hr
      exact h.fetched (g := ⟨t.fetches, k, f, mode, .fetched⟩) hs hown hrepinned htable rfl
  | fetchFull hk hr =>
      cases fetchPage_full ht.structural hr
      exact ⟨h.pins, h.table⟩
  | @newPage a mode file f page pool ha hr =>
      obtain ⟨hrepinned, htable⟩ := Repinned.newPage ht.structural (ht.ids.fresh _) hr
      exact h.fetched (g := ⟨t.fetches, ⟨file, page⟩, f, mode, .fetched⟩) hs hown hrepinned htable
        rfl
  | newPageFull hr =>
      cases newPage_full ht.structural hr
      exact ⟨h.pins, h.table⟩
  | lock hg hphase hfree => exact h.replaced hg rfl rfl rfl hown hown rfl
  | access hg hphase hmode data => exact ⟨h.pins, h.table⟩
  | unlock hg hphase => exact h.replaced hg rfl rfl rfl hown hown rfl
  | unpin hg hphase => exact h.unpinned hs ht hg hown rfl rfl
  | move hg hphase htarget => exact h.replaced hg rfl rfl rfl hown.1 hown.2 rfl
  | flushPage hr => exact hown.elim
  | flushAllPages hr => exact hown.elim
  | deletePage hr => exact hown.elim

theorem Run.owes {stack : Address} (h : Run s es t) (hs : Sound s)
    (hguards : ∀ p ∈ s.guards, p.1 < stack) (hown : ∀ e ∈ es, e.Own stack)
    (hle : t.allocated ≤ invalidPageId) : Owes stack s t := by
  induction h with
  | nil => exact .start hguards
  | @snoc es e t u hrun hstep ih =>
      have hle' := Nat.le_trans hstep.allocated_le hle
      refine (ih (fun e he => hown e (List.mem_append_left _ he)) hle').step hs
        (hrun.sound hs hle') hstep (hown e ?_)
      exact List.mem_append_right _ List.mem_cons_self

/-! ## Before and after -/

/-- The pages that were in the pool have the pins they had, the others have none. -/
structure PinsKept (s t : System δ) : Prop where
  stayed : ∀ k f f', s.pool.pageTable k = some f → t.pool.pageTable k = some f' →
    (t.pool.pages f').pinCount = (s.pool.pages f).pinCount
  came : ∀ k f', s.pool.pageTable k = none → t.pool.pageTable k = some f' →
    (t.pool.pages f').pinCount = 0

/-- A call that has no guard left has no pin left. -/
theorem Run.pinsKept {stack : Address} (h : Run s es t) (hs : Sound s)
    (hbelow : ∀ p ∈ s.guards, p.1 < stack) (hown : ∀ e ∈ es, e.Own stack)
    (hle : t.allocated ≤ invalidPageId) (hguards : t.guards = s.guards) : PinsKept s t := by
  have hpins : ∀ k, t.pool.pins k = s.pool.pins k := by
    intro k
    rw [(h.owes hs hbelow hown hle).pins, hguards, ← (Owes.start hbelow).pins]
  constructor
  case stayed =>
    intro k f f' hk hk'
    rw [← pins_of_table hk, ← pins_of_table hk', hpins]
  case came =>
    intro k f' hk hk'
    rw [← pins_of_table hk', hpins, pins_of_none hk]

end System

end TurtleDb.Buffer
