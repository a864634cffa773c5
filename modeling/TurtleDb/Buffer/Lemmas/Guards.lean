import Mathlib.Data.List.Count
import TurtleDb.Buffer.Guards
import TurtleDb.Buffer.Lemmas.Structure

/-!
# The steps of the guards

Each step of the guards and of the pool keeps pins, guards and dirty flags in agreement.
-/

namespace TurtleDb.Buffer

open TurtleDb.Lib BufferPoolManager

variable {δ : Type} [PageDisk δ]

/-! ## The log of writes -/

theorem logged_writePage {l l' : Logged δ} {file : FileId} {page : PageId} {data : PageData}
    (h : PageDisk.writePage l file page data = .ok l') : l'.writes = ⟨file, page⟩ :: l.writes := by
  obtain ⟨d, _, hd⟩ := bind_eq_ok.mp h
  cases hd
  rfl

theorem logged_readPage {l l' : Logged δ} {file : FileId} {page : PageId} {data : PageData}
    (h : PageDisk.readPage l file page = .ok (data, l')) : l'.writes = l.writes := by
  obtain ⟨⟨data', d⟩, _, hd⟩ := bind_eq_ok.mp h
  cases hd
  rfl

namespace System

variable {s s' t : System δ} {b₁ pool : BufferPoolManager (Logged δ)} {f : FrameId} {k : PageKey}

/-! ## Counting guards -/

/-- The guards on a frame. -/
def on (guards : List (Address × Guard)) (f : FrameId) : Nat :=
  guards.countP fun p => p.2.page == f

theorem on_cons (p : Address × Guard) (guards : List (Address × Guard)) (f : FrameId) :
    on (p :: guards) f = on guards f + if p.2.page = f then 1 else 0 := by
  simp [on, List.countP_cons]

theorem on_middle (pre post : List (Address × Guard)) (p : Address × Guard) (f : FrameId) :
    on (pre ++ p :: post) f = on (pre ++ post) f + if p.2.page = f then 1 else 0 := by
  have hperm : (pre ++ p :: post).Perm (p :: (pre ++ post)) := List.perm_middle
  rw [← on_cons, on, hperm.countP_eq]
  rfl

theorem on_pos {guards : List (Address × Guard)} {p : Address × Guard} (hp : p ∈ guards) :
    0 < on guards p.2.page :=
  List.countP_pos_iff.mpr ⟨p, hp, by simp⟩

/-- The pin counts are the numbers of guards, and the table leads from a guard's page to its
frame. -/
structure Pinned (b : BufferPoolManager (Logged δ)) (guards : List (Address × Guard)) : Prop where
  pins : ∀ f, (b.pages f).pinCount = on guards f
  table : ∀ p ∈ guards, b.pageTable p.2.key = some p.2.page

/-- The frames in `unsaved` are dirty, and the table leads to them. -/
def Dirty (b : BufferPoolManager (Logged δ)) (unsaved : FrameId → Bool) : Prop :=
  ∀ f, unsaved f = true → b.pageTable (b.pages f).key = some f ∧ (b.pages f).isDirty = true

/-- Page ids have been handed out one by one. -/
structure Ids (s : System δ) : Prop where
  next : s.pool.nextPageId = s.allocated
  le : s.allocated ≤ invalidPageId
  handed_lt : ∀ k ∈ s.handed, k.pageId < s.allocated
  table_lt : ∀ k f, s.pool.pageTable k = some f → k.pageId < s.allocated

structure Invariant (s : System δ) : Prop where
  structural : Structural s.pool none
  ids : Ids s
  pinned : Pinned s.pool s.guards
  matched : (s.guards.map (fun p => p.2.serial) ++ s.unpins).Perm (List.range s.fetches)
  dirty : Dirty s.pool s.unsaved

omit [PageDisk δ] in
theorem Invariant.create (poolSize : Nat) (d : δ) : Invariant (System.create poolSize d) where
  structural := .create poolSize _
  ids := ⟨rfl, Nat.zero_le _, by simp [System.create], fun k f hk => by cases hk⟩
  pinned := ⟨fun f => rfl, by simp [System.create]⟩
  matched := by simp [System.create]
  dirty := fun f hf => by cases hf

/-! ## A frame for a page -/

theorem Pinned.found (h : Pinned s.pool s.guards) (hfound : Found s.pool b₁ f) :
    on s.guards f = 0 := by
  have hpin := h.pins f
  rw [hfound.idle] at hpin
  omega

/-- The page installed in a frame that was found is held by the guard it was fetched for. -/
theorem Pinned.install (h : Pinned s.pool s.guards) (hfound : Found s.pool b₁ f)
    (hk : s.pool.pageTable k = none)
    (hpages : pool.pages = Function.update b₁.pages f ⟨k.fileId, k.pageId, 1, false⟩)
    (htable : pool.pageTable = Function.update b₁.pageTable k (some f))
    (a : Address) (mode : Mode) (serial : Nat) :
    Pinned pool ((a, ⟨serial, k, f, mode, .fetched⟩) :: s.guards) := by
  have hzero := h.found hfound
  constructor
  case pins =>
    intro g
    rw [on_cons, hpages]
    by_cases hgf : f = g
    · subst hgf
      rw [Function.update_self, hzero, if_pos rfl]
      rfl
    · rw [Function.update_of_ne (Ne.symm hgf), if_neg hgf, hfound.pages, h.pins g]
      rfl
  case table =>
    intro p hp
    rw [htable]
    rcases List.mem_cons.mp hp with rfl | hp
    · exact Function.update_self _ _ _
    · have hold := h.table p hp
      have hpos := on_pos hp
      rw [Function.update_of_ne (fun he => by rw [he, hk] at hold; cases hold), hfound.table, hold,
        if_neg]
      intro he
      rw [Option.some.inj he] at hpos
      omega

omit [PageDisk δ] in
theorem Pinned.repin {b b' : BufferPoolManager (Logged δ)} {guards : List (Address × Guard)}
    (h : Pinned b guards) (hk : b.pageTable k = some f)
    (hpages : b'.pages = Function.update b.pages f
      { b.pages f with pinCount := (b.pages f).pinCount + 1 })
    (htable : b'.pageTable = b.pageTable) (a : Address) (mode : Mode) (serial : Nat) :
    Pinned b' ((a, ⟨serial, k, f, mode, .fetched⟩) :: guards) := by
  constructor
  case pins =>
    intro g
    rw [on_cons, hpages]
    by_cases hgf : f = g
    · subst hgf
      rw [Function.update_self, if_pos rfl]
      simp [h.pins f]
    · rw [Function.update_of_ne (Ne.symm hgf), if_neg hgf, h.pins g]
      rfl
  case table =>
    intro p hp
    rw [htable]
    rcases List.mem_cons.mp hp with rfl | hp
    · exact hk
    · exact h.table p hp

omit [PageDisk δ] in
/-- A frame changes, but not its page, and it becomes clean only by being written. -/
theorem Dirty.update {b b' : BufferPoolManager (Logged δ)} {unsaved unsaved' : FrameId → Bool}
    (h : Dirty b unsaved) {p : Page} (hpages : b'.pages = Function.update b.pages f p)
    (htable : b'.pageTable = b.pageTable) (hkey : p.key = (b.pages f).key)
    (hstill : ∀ g, unsaved' g = true → unsaved g = true)
    (hdirty : unsaved' f = true → p.isDirty = true) : Dirty b' unsaved' := by
  intro g hg
  obtain ⟨hresident, hold⟩ := h g (hstill g hg)
  rw [hpages, htable]
  by_cases hgf : g = f
  · subst hgf
    rw [Function.update_self, hkey]
    exact ⟨hresident, hdirty hg⟩
  · rw [Function.update_of_ne hgf]
    exact ⟨hresident, hold⟩

/-- The dirty page of a frame that was found has been written. -/
theorem Dirty.install (h : Dirty s.pool s.unsaved) (hfound : Found s.pool b₁ f)
    (hk : s.pool.pageTable k = none)
    (hpages : pool.pages = Function.update b₁.pages f ⟨k.fileId, k.pageId, 1, false⟩)
    (htable : pool.pageTable = Function.update b₁.pageTable k (some f))
    (hlog : ∀ k', b₁.diskManager.writes.count k' ≤ pool.diskManager.writes.count k') :
    Dirty pool (s.setPool pool).unsaved := by
  intro g hg
  obtain ⟨hunsaved, hwritten⟩ := Bool.and_eq_true_iff.mp hg
  obtain ⟨hresident, hdirty⟩ := h g hunsaved
  by_cases hgf : g = f
  · subst hgf
    exfalso
    rcases hfound.disk with ⟨_, hclean⟩ | ⟨hwrite, _⟩
    · rw [hclean hresident] at hdirty
      cases hdirty
    · have hcount := hlog (s.pool.pages g).key
      rw [logged_writePage hwrite] at hcount
      have hself := List.count_cons_self (a := (s.pool.pages g).key)
        (l := s.pool.diskManager.writes)
      simp only [written, Bool.not_eq_true', decide_eq_false_iff_not, not_lt] at hwritten
      simp only [Page.key] at hcount hself hwritten
      omega
  · rw [hpages, htable, Function.update_of_ne hgf, hfound.pages]
    refine ⟨?_, hdirty⟩
    rw [Function.update_of_ne (fun he => by rw [he, hk] at hresident; cases hresident),
      hfound.table, hresident, if_neg]
    exact fun he => hgf (Option.some.inj he)

/-! ## Serial numbers -/

/-- The next serial number joins those that are out or back. -/
theorem matched_fetched {live back : List Nat} {n : Nat} (h : (live ++ back).Perm (List.range n)) :
    ((n :: live) ++ back).Perm (List.range (n + 1)) := by
  rw [List.range_succ, List.cons_append]
  exact (h.cons n).trans (List.perm_append_singleton n _).symm

theorem map_middle (pre post : List (Address × Guard)) (a a' : Address) (g g' : Guard)
    (h : g'.serial = g.serial) :
    (pre ++ (a', g') :: post).map (fun p => p.2.serial) =
      (pre ++ (a, g) :: post).map fun p => p.2.serial := by
  simp [h]

/-! ## One step -/

omit [PageDisk δ] in
theorem Ids.congr (h : Ids s) (hnext : t.pool.nextPageId = s.pool.nextPageId)
    (hallocated : t.allocated = s.allocated) (hhanded : t.handed = s.handed)
    (htable : ∀ k f, t.pool.pageTable k = some f → s.pool.pageTable k = some f ∨ k ∈ s.handed) :
    Ids t where
  next := by rw [hnext, hallocated, h.next]
  le := hallocated ▸ h.le
  handed_lt := by
    rw [hhanded, hallocated]
    exact h.handed_lt
  table_lt k f hk := by
    rw [hallocated]
    rcases htable k f hk with hk | hk
    · exact h.table_lt k f hk
    · exact h.handed_lt k hk

omit [PageDisk δ] in
theorem Ids.valid (h : Ids s) (hk : k ∈ s.handed) : k.pageId ≠ invalidPageId := by
  have hlt := h.handed_lt k hk
  have hle := h.le
  exact Nat.ne_of_lt (Nat.lt_of_lt_of_le hlt hle)

omit [PageDisk δ] in
theorem Ids.next_valid (h : Ids s) (hlt : s.allocated < invalidPageId) :
    s.pool.nextPageId ≠ invalidPageId := by
  rw [h.next]
  exact Nat.ne_of_lt hlt

omit [PageDisk δ] in
theorem Ids.fresh (h : Ids s) (file : FileId) :
    s.pool.pageTable ⟨file, s.pool.nextPageId⟩ = none := by
  by_contra hne
  obtain ⟨g, hg⟩ := Option.ne_none_iff_exists'.mp hne
  have := h.table_lt _ g hg
  rw [h.next] at this
  exact Nat.lt_irrefl _ this

theorem Ids.fetch (h : Ids s) (hs : Structural s.pool none) {a : Address} {m : Mode}
    (hk : k ∈ s.handed) (hr : s.pool.fetchPage k.fileId k.pageId = .ok (some f, pool)) :
    Ids ((s.setPool pool).fetched a m k f) := by
  rcases fetchPage_cases hs k.fileId k.pageId with ⟨m, he, _⟩ | ⟨f', _, _, he⟩ |
    ⟨f', htable, he⟩ | ⟨_, he, _⟩ | ⟨f', b₁, data, d, hnone, hfound, hread, he⟩
  · cases he.symm.trans hr
  · cases he.symm.trans hr
  · cases he.symm.trans hr
    exact h.congr rfl rfl rfl fun k f hk => .inl hk
  · cases he.symm.trans hr
  · cases he.symm.trans hr
    refine h.congr hfound.nextPageId rfl rfl fun k' g hk' => ?_
    by_cases hkk : k' = k
    · exact .inr (hkk ▸ hk)
    · have htable : Function.update b₁.pageTable k (some f) k' = some g := hk'
      rw [Function.update_of_ne hkk] at htable
      exact .inl (hfound.table_of_some htable)

theorem Ids.newPage (h : Ids s) (hs : Structural s.pool none) (hlt : s.allocated < invalidPageId)
    {a : Address} {m : Mode} {file : FileId} {page : PageId}
    (hr : s.pool.newPage file = .ok (some (f, page), pool)) :
    Ids { (s.setPool pool).fetched a m ⟨file, page⟩ f with
      allocated := s.allocated + 1, handed := ⟨file, page⟩ :: s.handed } := by
  rcases newPage_cases hs file with ⟨m, he, _⟩ | ⟨he, _⟩ | ⟨f', b₁, d, hfound, hwrite, he⟩
  · cases he.symm.trans hr
  · cases he.symm.trans hr
  · cases he.symm.trans hr
    have hadd : add32 s.pool.nextPageId 1 = s.allocated + 1 := by
      rw [h.next]
      exact Nat.mod_eq_of_lt (by simp only [invalidPageId, word32] at *; omega)
    have hnext : s.pool.nextPageId < s.allocated + 1 := by
      rw [h.next]
      exact Nat.lt_succ_self _
    refine ⟨hadd, hlt, ?_, ?_⟩
    · intro k hk
      rcases List.mem_cons.mp hk with rfl | hk
      · exact hnext
      · exact Nat.lt_succ_of_lt (h.handed_lt k hk)
    · intro k g hk
      have htable : Function.update b₁.pageTable ⟨file, s.pool.nextPageId⟩ (some f) k =
        some g := hk
      by_cases hkk : k = ⟨file, s.pool.nextPageId⟩
      · rw [hkk]
        exact hnext
      · rw [Function.update_of_ne hkk] at htable
        exact Nat.lt_succ_of_lt (h.table_lt k g (hfound.table_of_some htable))

omit [PageDisk δ] in
theorem Ids.erase (h : Ids s) {k : PageKey} (hnext : pool.nextPageId = s.pool.nextPageId)
    (htable : pool.pageTable = Function.update s.pool.pageTable k none) : Ids (s.setPool pool) := by
  refine h.congr hnext rfl rfl fun k' g hk' => .inl ?_
  have hk' : pool.pageTable k' = some g := hk'
  rw [htable] at hk'
  by_cases hkk : k' = k
  · rw [hkk, Function.update_self] at hk'
    cases hk'
  · rwa [Function.update_of_ne hkk] at hk'

omit [PageDisk δ] in
theorem Invariant.replace (h : Invariant s) {pre post : List (Address × Guard)} {a a' : Address}
    {g g' : Guard} (hg : s.guards = pre ++ (a, g) :: post) (hserial : g'.serial = g.serial)
    (hkey : g'.key = g.key) (hpage : g'.page = g.page) :
    Invariant { s with guards := pre ++ (a', g') :: post } where
  structural := h.structural
  ids := h.ids.congr rfl rfl rfl fun k f hk => .inl hk
  pinned := by
    constructor
    case pins =>
      intro f
      rw [h.pinned.pins f, hg, on_middle, on_middle, hpage]
    case table =>
      intro p hp
      have hmem : ∀ q, q ∈ pre ++ post → q ∈ s.guards := by
        intro q hq
        rw [hg]
        rcases List.mem_append.mp hq with hq | hq
        · exact List.mem_append_left _ hq
        · exact List.mem_append_right _ (List.mem_cons_of_mem _ hq)
      rcases List.mem_cons.mp (List.perm_middle.mem_iff.mp hp) with rfl | hp
      · show s.pool.pageTable g'.key = some g'.page
        rw [hkey, hpage]
        exact h.pinned.table (a, g) (by rw [hg]; simp)
      · exact h.pinned.table p (hmem p hp)
  matched := by
    rw [map_middle pre post a a' g g' hserial, ← hg]
    exact h.matched
  dirty := h.dirty

theorem Invariant.fetchFull (h : Invariant s) {file : FileId} {page : PageId}
    (hr : s.pool.fetchPage file page = .ok (none, pool)) : Invariant (s.setPool pool) := by
  rcases fetchPage_cases h.structural file page with ⟨m, he, _⟩ | ⟨f, _, _, he⟩ | ⟨f, _, he⟩ |
    ⟨_, he, _⟩ | ⟨f, b₁, data, d, _, _, _, he⟩
  · cases he.symm.trans hr
  · cases he.symm.trans hr
  · cases he.symm.trans hr
  · cases he.symm.trans hr
    refine ⟨h.structural, h.ids.congr rfl rfl rfl fun k f hk => .inl hk, h.pinned, h.matched, ?_⟩
    exact fun f hf => h.dirty f (Bool.and_eq_true_iff.mp hf).1
  · cases he.symm.trans hr

theorem Invariant.fetch (h : Invariant s) {a : Address} {mode : Mode} (hk : k ∈ s.handed)
    (hr : s.pool.fetchPage k.fileId k.pageId = .ok (some f, pool)) :
    Invariant ((s.setPool pool).fetched a mode k f) := by
  have hstructural := h.structural.fetchPage (h.ids.valid hk) hr
  have hids := h.ids.fetch h.structural (a := a) (m := mode) hk hr
  rcases fetchPage_cases h.structural k.fileId k.pageId with ⟨m, he, _⟩ | ⟨f', _, _, he⟩ |
    ⟨f', htable, he⟩ | ⟨_, he, _⟩ | ⟨f', b₁, data, d, hnone, hfound, hread, he⟩
  · cases he.symm.trans hr
  · cases he.symm.trans hr
  · cases he.symm.trans hr
    refine ⟨hstructural, ?_, ?_, matched_fetched h.matched, ?_⟩
    · exact hids
    · refine h.pinned.repin htable ?_ ?_ a mode s.fetches
      · rfl
      · rfl
    · refine h.dirty.update rfl rfl rfl (fun g hg => (Bool.and_eq_true_iff.mp hg).1) fun hg => ?_
      exact (h.dirty f (Bool.and_eq_true_iff.mp hg).1).2
  · cases he.symm.trans hr
  · cases he.symm.trans hr
    refine ⟨hstructural, ?_, ?_, matched_fetched h.matched, ?_⟩
    · exact hids
    · exact h.pinned.install hfound hnone rfl rfl a mode s.fetches
    · refine h.dirty.install hfound hnone rfl rfl fun k' => ?_
      show List.count k' b₁.diskManager.writes ≤ List.count k' d.writes
      rw [logged_readPage hread]

theorem Invariant.newPageFull (h : Invariant s) {file : FileId}
    (hr : s.pool.newPage file = .ok (none, pool)) : Invariant (s.setPool pool) := by
  rcases newPage_cases h.structural file with ⟨m, he, _⟩ | ⟨he, _⟩ | ⟨f, b₁, d, _, _, he⟩
  · cases he.symm.trans hr
  · cases he.symm.trans hr
    refine ⟨h.structural, h.ids.congr rfl rfl rfl fun k f hk => .inl hk, h.pinned, h.matched, ?_⟩
    exact fun f hf => h.dirty f (Bool.and_eq_true_iff.mp hf).1
  · cases he.symm.trans hr

theorem Invariant.newPage (h : Invariant s) (hlt : s.allocated < invalidPageId) {a : Address}
    {mode : Mode} {file : FileId} {page : PageId}
    (hr : s.pool.newPage file = .ok (some (f, page), pool)) :
    Invariant { (s.setPool pool).fetched a mode ⟨file, page⟩ f with
      allocated := s.allocated + 1, handed := ⟨file, page⟩ :: s.handed } := by
  have hfresh := h.ids.fresh file
  have hstructural := h.structural.newPage (h.ids.next_valid hlt) hfresh hr
  have hids := h.ids.newPage h.structural hlt (a := a) (m := mode) hr
  rcases newPage_cases h.structural file with ⟨m, he, _⟩ | ⟨he, _⟩ | ⟨f', b₁, d, hfound, hwrite, he⟩
  · cases he.symm.trans hr
  · cases he.symm.trans hr
  · cases he.symm.trans hr
    refine ⟨hstructural, ?_, ?_, matched_fetched h.matched, ?_⟩
    · exact hids
    · exact h.pinned.install hfound hfresh rfl rfl a mode s.fetches
    · refine h.dirty.install hfound hfresh rfl rfl fun k' => ?_
      show List.count k' b₁.diskManager.writes ≤ List.count k' d.writes
      rw [logged_writePage hwrite]
      exact List.count_le_count_cons

omit [PageDisk δ] in
theorem Invariant.guard (h : Invariant s) {p : Address × Guard} (hp : p ∈ s.guards) :
    (s.pool.pages p.2.page).key = p.2.key ∧ 0 < (s.pool.pages p.2.page).pinCount := by
  refine ⟨h.structural.key_of_table (h.pinned.table p hp), ?_⟩
  have hpos := on_pos hp
  rw [h.pinned.pins]
  omega

omit [PageDisk δ] in
theorem Invariant.unpin (h : Invariant s) {pre post : List (Address × Guard)} {a : Address}
    {g : Guard} (hg : s.guards = pre ++ (a, g) :: post) :
    Invariant { s with
      pool := g.unpin s.pool
      guards := pre ++ post
      unpins := g.serial :: s.unpins
      unsaved := fun f => s.unsaved f || (f = g.page ∧ g.mode = .write) } := by
  have hmem : (a, g) ∈ s.guards := by
    rw [hg]
    simp
  obtain ⟨hkey, hpin⟩ : (s.pool.pages g.page).key = g.key ∧ 0 < (s.pool.pages g.page).pinCount :=
    h.guard hmem
  have htable : s.pool.pageTable (s.pool.pages g.page).key = some g.page := by
    rw [hkey]
    exact h.pinned.table (a, g) hmem
  obtain ⟨isDirty, hunpin, hmode⟩ : ∃ isDirty, g.unpin s.pool =
      (s.pool.unpinPage (s.pool.pages g.page).fileId (s.pool.pages g.page).pageId isDirty).2 ∧
        (g.mode = .write → isDirty = true) := by
    unfold Guard.unpin
    cases g.mode with
    | read => exact ⟨false, rfl, fun he => by cases he⟩
    | write => exact ⟨true, rfl, fun _ => rfl⟩
  have hstructural := h.structural.unpinPage (s.pool.pages g.page).fileId
    (s.pool.pages g.page).pageId isDirty
  rw [← hunpin] at hstructural
  rcases unpinPage_cases s.pool (s.pool.pages g.page).fileId (s.pool.pages g.page).pageId isDirty with
    ⟨_, hle⟩ | ⟨f, hf, _, he⟩
  · have := hle g.page htable
    omega
  · cases (hf.symm.trans htable : some f = some g.page)
    rw [he] at hunpin
    refine ⟨hstructural, ?_, ?_, ?_, ?_⟩
    · rw [hunpin]
      exact h.ids.congr rfl rfl rfl fun k f hk => .inl hk
    · rw [hunpin]
      constructor
      case pins =>
        intro f
        have hold := h.pinned.pins f
        rw [hg, on_middle] at hold
        show (Function.update s.pool.pages g.page _ f).pinCount = on (pre ++ post) f
        by_cases hgf : g.page = f
        · subst hgf
          rw [if_pos rfl] at hold
          rw [Function.update_self]
          show (s.pool.pages g.page).pinCount - 1 = _
          omega
        · rw [if_neg hgf] at hold
          rw [Function.update_of_ne (Ne.symm hgf), hold]
          rfl
      case table =>
        intro p hp
        refine h.pinned.table p ?_
        rw [hg]
        exact List.perm_middle.mem_iff.mpr (List.mem_cons_of_mem _ hp)
    · have hold := h.matched
      rw [hg] at hold
      simp only [List.map_append, List.map_cons, List.append_assoc, List.cons_append] at hold ⊢
      exact (List.perm_append_left_iff _).mpr List.perm_middle |>.trans hold
    · rw [hunpin]
      intro f hf
      show s.pool.pageTable (Function.update s.pool.pages g.page _ f).key = some f ∧
        (Function.update s.pool.pages g.page _ f).isDirty = true
      by_cases hgf : f = g.page
      · subst hgf
        rw [Function.update_self]
        refine ⟨htable, ?_⟩
        show (isDirty || (s.pool.pages g.page).isDirty) = true
        rcases Bool.or_eq_true_iff.mp hf with hf | hf
        · rw [(h.dirty _ hf).2, Bool.or_true]
        · rw [hmode (of_decide_eq_true hf).2, Bool.true_or]
      · rw [Function.update_of_ne hgf]
        rcases Bool.or_eq_true_iff.mp hf with hf | hf
        · exact h.dirty f hf
        · exact absurd (of_decide_eq_true hf).1 hgf

/-! ## Flushing -/

/-- What a flush leaves as it was: pins, pages and the table. Frames only become clean, and only
after their page was written. -/
structure Flushed (b b' : BufferPoolManager (Logged δ)) : Prop where
  nextPageId : b'.nextPageId = b.nextPageId
  table : b'.pageTable = b.pageTable
  page : ∀ f, (b'.pages f).key = (b.pages f).key ∧ (b'.pages f).pinCount = (b.pages f).pinCount
  log : ∀ k, b.diskManager.writes.count k ≤ b'.diskManager.writes.count k
  clean : ∀ f, (b.pages f).isDirty = true → (b'.pages f).isDirty = false →
    written b b' (b.pages f).key = true

omit [PageDisk δ] in
theorem Flushed.refl (b : BufferPoolManager (Logged δ)) : Flushed b b :=
  ⟨rfl, rfl, fun _ => ⟨rfl, rfl⟩, fun _ => Nat.le_refl _, fun f hd hc => by
    rw [hd] at hc
    cases hc⟩

omit [PageDisk δ] in
theorem Flushed.trans {b b' b'' : BufferPoolManager (Logged δ)} (h : Flushed b b')
    (h' : Flushed b' b'') : Flushed b b'' where
  nextPageId := h'.nextPageId.trans h.nextPageId
  table := h'.table.trans h.table
  page f := ⟨(h'.page f).1.trans (h.page f).1, (h'.page f).2.trans (h.page f).2⟩
  log k := Nat.le_trans (h.log k) (h'.log k)
  clean f hdirty hclean := by
    have hle := h.log (b.pages f).key
    have hle' := h'.log (b.pages f).key
    simp only [written, decide_eq_true_eq]
    cases hmid : (b'.pages f).isDirty with
    | false =>
        have hw := h.clean f hdirty hmid
        simp only [written, decide_eq_true_eq] at hw
        omega
    | true =>
        have hw := h'.clean f hmid hclean
        rw [(h.page f).1] at hw
        simp only [written, decide_eq_true_eq] at hw
        omega

theorem Flushed.writeBack {b : BufferPoolManager (Logged δ)} {d : Logged δ}
    (hw : PageDisk.writePage b.diskManager (b.pages f).fileId (b.pages f).pageId (b.data f) =
      .ok d) :
    Flushed b { b.setPage f { b.pages f with isDirty := false } with diskManager := d } := by
  have hlog := logged_writePage hw
  refine ⟨rfl, rfl, fun g => ?_, fun k => ?_, fun g hdirty hclean => ?_⟩
  · show (Function.update b.pages f _ g).key = _ ∧ (Function.update b.pages f _ g).pinCount = _
    by_cases hgf : g = f
    · subst hgf
      rw [Function.update_self]
      exact ⟨rfl, rfl⟩
    · rw [Function.update_of_ne hgf]
      exact ⟨rfl, rfl⟩
  · show b.diskManager.writes.count k ≤ d.writes.count k
    rw [hlog]
    exact List.count_le_count_cons
  · have hclean' : (Function.update b.pages f { b.pages f with isDirty := false } g).isDirty =
      false := hclean
    by_cases hgf : g = f
    · subst hgf
      show decide (b.diskManager.writes.count _ < d.writes.count _) = true
      rw [hlog, decide_eq_true_eq]
      exact Nat.lt_of_lt_of_eq (Nat.lt_succ_self _) (List.count_cons_self (a := (b.pages g).key)
        (l := b.diskManager.writes)).symm
    · rw [Function.update_of_ne hgf, hdirty] at hclean'
      cases hclean'

theorem Flushed.flushPage {b b' : BufferPoolManager (Logged δ)} {file : FileId} {page : PageId}
    {r : Bool} (hr : b.flushPage file page = .ok (r, b')) : Flushed b b' := by
  rcases flushPage_cases b file page with ⟨_, m, he, _⟩ | ⟨_, he⟩ | ⟨f, d, _, hw, he⟩
  · cases he.symm.trans hr
  · cases he.symm.trans hr
    exact .refl b
  · cases he.symm.trans hr
    exact .writeBack hw

theorem Flushed.flushFrames {b b' : BufferPoolManager (Logged δ)} {fs : List FrameId}
    (hr : fs.foldlM flushFrame b = .ok b') : Flushed b b' := by
  induction fs generalizing b with
  | nil =>
      cases hr
      exact .refl _
  | cons f fs ih =>
      rw [List.foldlM_cons] at hr
      obtain ⟨b₁, hf, hrest⟩ := bind_eq_ok.mp hr
      refine .trans ?_ (ih hrest)
      rcases flushFrame_cases b f with ⟨m, he, _⟩ | ⟨he, _⟩ | ⟨d, _, _, hw, he⟩
      · cases he.symm.trans hf
      · cases he.symm.trans hf
        exact .refl _
      · cases he.symm.trans hf
        exact .writeBack hw

omit [PageDisk δ] in
theorem Invariant.flushed (h : Invariant s) (hflushed : Flushed s.pool pool)
    (hstructural : Structural pool none) : Invariant (s.setPool pool) where
  structural := hstructural
  ids := h.ids.congr hflushed.nextPageId rfl rfl fun k f hk => .inl (hflushed.table ▸ hk)
  pinned := ⟨fun f => (hflushed.page f).2.trans (h.pinned.pins f), fun p hp =>
    (congrFun hflushed.table p.2.key).trans (h.pinned.table p hp)⟩
  matched := h.matched
  dirty := by
    intro f hf
    obtain ⟨hunsaved, hwritten⟩ := Bool.and_eq_true_iff.mp hf
    obtain ⟨hresident, hdirty⟩ := h.dirty f hunsaved
    show pool.pageTable (pool.pages f).key = some f ∧ (pool.pages f).isDirty = true
    rw [hflushed.table, (hflushed.page f).1]
    refine ⟨hresident, ?_⟩
    by_contra hclean
    rw [hflushed.clean f hdirty (by simpa using hclean)] at hwritten
    cases hwritten

theorem Invariant.flushPage (h : Invariant s) {file : FileId} {page : PageId} {r : Bool}
    (hr : s.pool.flushPage file page = .ok (r, pool)) : Invariant (s.setPool pool) :=
  h.flushed (.flushPage hr) (h.structural.flushPage hr)

/-! ## Deleting a page -/

omit [PageDisk δ] in
/-- `delete_page` leaves the pool as it is, or empties a frame without a pin. -/
theorem deletePage_cases {b b' : BufferPoolManager (Logged δ)} {file : FileId} {page : PageId}
    {r : Bool} (hr : b.deletePage file page = .ok (r, b')) :
    b' = b ∧ (r = true → b.pageTable ⟨file, page⟩ = none) ∨
      r = true ∧ ∃ f, b.pageTable ⟨file, page⟩ = some f ∧ (b.pages f).pinCount ≤ 0 ∧
        b'.pages = Function.update b.pages f Page.empty ∧
        b'.pageTable = Function.update b.pageTable ⟨file, page⟩ none ∧
        b'.nextPageId = b.nextPageId := by
  unfold deletePage at hr
  cases hf : b.pageTable ⟨file, page⟩ with
  | none =>
      rw [hf] at hr
      cases hr
      exact .inl ⟨rfl, fun _ => rfl⟩
  | some f =>
      rw [hf] at hr
      dsimp only at hr
      by_cases hpin : (b.pages f).pinCount > 0
      · rw [if_pos hpin] at hr
        cases hr
        exact .inl ⟨rfl, fun hr => by cases hr⟩
      · rw [if_neg hpin] at hr
        obtain ⟨replacer, _, hrest⟩ := bind_eq_ok.mp hr
        cases hrest
        exact .inr ⟨rfl, f, rfl, by omega, rfl, rfl, rfl⟩

omit [PageDisk δ] in
theorem Invariant.deletePage (h : Invariant s) {file : FileId} {page : PageId} {r : Bool}
    (hr : s.pool.deletePage file page = .ok (r, pool)) :
    Invariant { s.setPool pool with
      unsaved := fun f => (s.setPool pool).unsaved f &&
        !(r && (s.pool.pages f).key = ⟨file, page⟩) } := by
  obtain ⟨r', b', hr', hstructural⟩ := h.structural.deletePage file page
  cases hr'.symm.trans hr
  have hstill : ∀ f, ((s.setPool pool).unsaved f &&
      !(r && (s.pool.pages f).key = ⟨file, page⟩)) = true →
      s.unsaved f = true ∧ (r = true → (s.pool.pages f).key ≠ ⟨file, page⟩) := by
    intro f hf
    obtain ⟨hf, hdeleted⟩ := Bool.and_eq_true_iff.mp hf
    refine ⟨(Bool.and_eq_true_iff.mp hf).1, ?_⟩
    rintro rfl hkey
    simp [hkey] at hdeleted
  rcases deletePage_cases hr with ⟨rfl, _⟩ | ⟨rfl, f, hf, hpin, hpages, htable, hnext⟩
  · refine ⟨h.structural, ?_, h.pinned, h.matched, fun f hf => h.dirty f (hstill f hf).1⟩
    exact h.ids.congr rfl rfl rfl fun k f hk => .inl hk
  · have hkey := h.structural.key_of_table hf
    have hzero : on s.guards f = 0 := by
      have := h.pinned.pins f
      omega
    have hother : ∀ {k g}, s.pool.pageTable k = some g → g ≠ f →
        pool.pageTable k = some g := by
      intro k g hk hgf
      rw [htable, Function.update_of_ne, hk]
      intro hkk
      rw [hkk, hf] at hk
      exact hgf (Option.some.inj hk).symm
    refine ⟨hstructural, ?_, ?_, h.matched, ?_⟩
    · exact (h.ids.erase hnext htable).congr rfl rfl rfl fun k f hk => .inl hk
    · constructor
      case pins =>
        intro g
        show (pool.pages g).pinCount = on s.guards g
        rw [hpages]
        by_cases hgf : g = f
        · rw [hgf, Function.update_self, hzero]
          rfl
        · rw [Function.update_of_ne hgf]
          exact h.pinned.pins g
      case table =>
        intro p hp
        refine hother (h.pinned.table p hp) fun he => ?_
        have hpos : 0 < on s.guards p.2.page := on_pos hp
        rw [he] at hpos
        omega
    · intro g hg
      obtain ⟨hunsaved, hne⟩ := hstill g hg
      obtain ⟨hresident, hdirty⟩ := h.dirty g hunsaved
      have hgf : g ≠ f := fun he => hne rfl (he ▸ hkey)
      show pool.pageTable (pool.pages g).key = some g ∧ (pool.pages g).isDirty = true
      rw [hpages, Function.update_of_ne hgf]
      exact ⟨hother hresident hgf, hdirty⟩

end System

end TurtleDb.Buffer
