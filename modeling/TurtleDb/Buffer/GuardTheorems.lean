import TurtleDb.Buffer.Disks
import TurtleDb.Buffer.Lemmas.Guards

/-!
# Pins match guards

What holds in every state of every interleaving, as long as the page ids do not run out.
-/

namespace TurtleDb.Buffer

open TurtleDb.Lib BufferPoolManager

namespace System

section

variable {δ : Type} [PageDisk δ] {s t : System δ}

/-! ## Every run -/

theorem Invariant.step (h : Invariant s) {e : Event} (hstep : Step s e t)
    (hle : t.allocated ≤ invalidPageId) : Invariant t := by
  cases hstep with
  | fetch ha hk hr => exact h.fetch hk hr
  | fetchFull hk hr => exact h.fetchFull hr
  | newPage ha hr => exact h.newPage hle hr
  | newPageFull hr => exact h.newPageFull hr
  | lock hg hphase hfree => exact h.replace hg rfl rfl rfl
  | access hg hphase hmode data =>
      exact ⟨h.structural.congr rfl rfl rfl rfl rfl,
        h.ids.congr rfl rfl rfl fun k f hk => .inl hk, ⟨h.pinned.pins, h.pinned.table⟩, h.matched,
        h.dirty⟩
  | unlock hg hphase => exact h.replace hg rfl rfl rfl
  | unpin hg hphase => exact h.unpin hg
  | move hg hphase htarget => exact h.replace hg rfl rfl rfl
  | flushPage hr => exact h.flushPage hr
  | flushAllPages hr => exact h.flushed (.flushFrames hr) (h.structural.flushAllPages hr)
  | deletePage hr => exact h.deletePage hr

theorem Step.allocated_le {e : Event} (h : Step s e t) : s.allocated ≤ t.allocated := by
  cases h with
  | newPage ha hr => exact Nat.le_succ _
  | _ => exact Nat.le_refl _

theorem Run.invariant {es : List Event} (h : Run s es t) (hs : Invariant s)
    (hle : t.allocated ≤ invalidPageId) : Invariant t := by
  induction h with
  | nil => exact hs
  | snoc _ hstep ih => exact (ih (Nat.le_trans hstep.allocated_le hle)).step hstep hle

omit [PageDisk δ] in
theorem Invariant.balanced (h : Invariant s) : Balanced s where
  pins f _ := h.pinned.pins f
  matched := h.matched
  unpins := by
    intro p hp isDirty
    obtain ⟨hkey, hpin⟩ := h.guard hp
    have htable : s.pool.pageTable (s.pool.pages p.2.page).key = some p.2.page := by
      rw [hkey]
      exact h.pinned.table p hp
    rcases unpinPage_cases s.pool (s.pool.pages p.2.page).fileId (s.pool.pages p.2.page).pageId
      isDirty with ⟨_, hle⟩ | ⟨f, _, _, he⟩
    · have := hle p.2.page htable
      omega
    · rw [he]
  stays := by
    intro p hp
    obtain ⟨hkey, hpin⟩ := h.guard hp
    have hresident := h.structural.resident_of_table (h.pinned.table p hp)
    refine ⟨hkey, h.pinned.table p hp, hresident.not_mem, ?_⟩
    exact hresident.tracked.trans (congrArg some (decide_eq_false (by omega)))
  dirty f hf := (h.dirty f hf).2

end

/-- A page is made, wrapped in a write guard, and given back. -/
def makePage : List Event := [.newPage 0 .write 0, .lock 0, .unlock 0, .unpin 0]

/-- The page that `new_page` returned is wrapped once and given back. -/
theorem run_makePage {δ : Type} [PageDisk δ] {s : System δ} (hguards : s.guards = []) {f : FrameId}
    {page : PageId} {pool : BufferPoolManager (Logged δ)}
    (hr : s.pool.newPage 0 = .ok (some (f, page), pool)) :
    ∃ t, Run s makePage t ∧ t.pool = WritePageGuard.drop pool f ∧ t.guards = [] ∧
      t.allocated = s.allocated + 1 ∧ t.unsaved f = true := by
  have hnew : Step s (.newPage 0 .write 0) _ := .newPage (by rw [hguards]; simp) hr
  generalize hs₁ : ({ (s.setPool pool).fetched 0 .write ⟨0, page⟩ f with
    allocated := s.allocated + 1, handed := ⟨0, page⟩ :: s.handed } : System δ) = s₁ at hnew
  have hg₁ : s₁.guards = [] ++ (0, ⟨s.fetches, ⟨0, page⟩, f, .write, .fetched⟩) :: [] := by
    rw [← hs₁]
    show (0, _) :: s.guards = _
    rw [hguards]
    rfl
  have hlock := Step.lock hg₁ rfl (by
    intro p hp _ hlocked
    rw [hg₁, List.nil_append, List.mem_singleton] at hp
    rw [hp] at hlocked
    cases hlocked)
  refine ⟨_, .snoc (.snoc (.snoc (.snoc .nil hnew) hlock) (.unlock rfl rfl)) (.unpin rfl rfl), ?_,
    rfl, ?_, ?_⟩
  · rw [← hs₁]
    rfl
  · rw [← hs₁]
  · simp

/-- As long as the ids of new pages have not run out, pins and guards match in every state that any
interleaving of any number of clients leads to. -/
theorem run_balanced {δ : Type} [PageDisk δ] {s : System δ} (poolSize : Nat) (d : δ) (es : List Event)
    (h : Run (System.create poolSize d) es s) (hle : s.allocated ≤ invalidPageId) : Balanced s :=
  (h.invariant (.create poolSize d) hle).balanced

theorem run_balanced_makePage :
    ∃ s, Run (System.create 1 Disk.PageMap.zero) makePage s ∧ Balanced s := by
  obtain ⟨t, hrun, _, _, hnext, _⟩ := run_makePage (s := System.create 1 Disk.PageMap.zero) rfl rfl
  refine ⟨t, hrun, run_balanced 1 Disk.PageMap.zero makePage hrun ?_⟩
  rw [hnext]
  decide

/-! ## When the ids run out

A pool of one frame whose clients make one page after the other. -/

section

variable {s : System Disk.PageMap}

theorem run_append {δ : Type} [PageDisk δ] {s t u : System δ} {es es' : List Event}
    (h : Run s es t) (h' : Run t es' u) : Run s (es ++ es') u := by
  induction h' with
  | nil => rwa [List.append_nil]
  | snoc _ hstep ih =>
      rw [← List.append_assoc]
      exact .snoc ih hstep

/-- Without a guard the one frame can be had. -/
theorem newPage_of_idle (h : Invariant s) (hguards : s.guards = [])
    (hsize : s.pool.poolSize = 1) :
    ∃ b₁ d, Found s.pool b₁ 0 ∧ s.pool.newPage 0 = .ok (some (0, s.pool.nextPageId),
      { ({ b₁ with nextPageId := add32 s.pool.nextPageId 1 }.setData 0 Block.zero).install 0
          ⟨0, s.pool.nextPageId⟩ with diskManager := d }) := by
  have hcount : s.pool.frameCount = 1 := by rw [frameCount, hsize]; rfl
  rcases newPage_cases h.structural 0 with
    ⟨m, _, hthrow⟩ | ⟨_, hfree, hflags⟩ | ⟨f, b₁, d, hfound, _, he⟩
  · rcases hthrow with hfind | ⟨_, _, _, hw⟩
    · rcases findFrame_cases h.structural with ⟨_, _, _, _, hw⟩ | ⟨he, _⟩ | ⟨_, _, he, _⟩
      · cases hw
      · cases he.symm.trans hfind
      · cases he.symm.trans hfind
    · cases hw
  · exfalso
    rcases h.structural.frames 0 (by omega) (by simp) with hf | hf
    · have := hf.mem
      rw [hfree] at this
      cases this
    · refine hflags 0 (hf.tracked.trans (congrArg some (decide_eq_true ?_)))
      rw [h.pinned.pins, hguards]
      rfl
  · have hlt := hfound.lt
    rw [hcount] at hlt
    have hf : f = 0 := Nat.lt_one_iff.mp hlt
    subst hf
    exact ⟨b₁, d, hfound, he⟩

omit s in
theorem drop_poolSize {δ : Type} (b : BufferPoolManager δ) (f : FrameId) :
    (WritePageGuard.drop b f).poolSize = b.poolSize := by
  unfold WritePageGuard.drop
  rcases unpinPage_cases b (b.pages f).fileId (b.pages f).pageId true with ⟨he, _⟩ | ⟨_, _, _, he⟩
  · rw [he]
  · rw [he]
    rfl

/-- Any number of pages can be made, as long as there are ids. -/
theorem exists_run_allocated (n : Nat) (hn : n ≤ invalidPageId) :
    ∃ es, ∃ t : System Disk.PageMap, Run (System.create 1 Disk.PageMap.zero) es t ∧
      t.guards = [] ∧ t.pool.poolSize = 1 ∧ t.allocated = n := by
  induction n with
  | zero => exact ⟨[], _, .nil, rfl, rfl, rfl⟩
  | succ n ih =>
      obtain ⟨es, s, hrun, hguards, hsize, hallocated⟩ := ih (Nat.le_of_succ_le hn)
      have hle : s.allocated ≤ invalidPageId := hallocated ▸ Nat.le_of_succ_le hn
      have hinv := hrun.invariant (.create 1 _) hle
      obtain ⟨b₁, d, hfound, hr⟩ := newPage_of_idle hinv hguards hsize
      obtain ⟨t, hmake, hpool, ht, hnext, _⟩ := run_makePage hguards hr
      refine ⟨_, t, run_append hrun hmake, ht, ?_, by rw [hnext, hallocated]⟩
      rw [hpool, drop_poolSize]
      exact hfound.poolSize.trans hsize

/-- The only frame has the page whose id is the invalid one, and nobody holds it. -/
structure Stray (b : BufferPoolManager (Logged Disk.PageMap)) : Prop where
  free : b.freeFrames = []
  tracks : b.replacer.Tracks b.replacer.flags
  evictable : ∀ f, b.replacer.flags f = if f = 0 then some true else none
  key : (b.pages 0).key = ⟨0, invalidPageId⟩
  next : b.nextPageId = 0

/-- A page with the invalid id is evicted without being written back. -/
theorem newPage_of_stray {b : BufferPoolManager (Logged Disk.PageMap)} (h : Stray b) :
    ∃ pool, b.newPage 0 = .ok (some (0, 0), pool) ∧ (pool.pages 0).isDirty = false ∧
      written b pool (b.pages 0).key = false := by
  have hid : (b.pages 0).pageId = invalidPageId := congrArg PageKey.pageId h.key
  have hfind : ∃ r, b.findFrame = .ok (some (0, { b with replacer := r })) := by
    cases hevict : b.replacer.evict with
    | none => exact absurd (h.evictable 0) (h.tracks.evict_none hevict 0)
    | some victim =>
        obtain ⟨f, r⟩ := victim
        have hf := (h.tracks.evict_some hevict).1
        rw [h.evictable] at hf
        have hzero : f = 0 := by
          by_contra hne
          rw [if_neg hne] at hf
          cases hf
        subst hzero
        refine ⟨r, ?_⟩
        rw [findFrame, h.free, hevict]
        simp only [vacate, hid, if_true, ok_bind]
        rfl
  obtain ⟨r, hfind⟩ := hfind
  refine ⟨_, by rw [newPage, hfind]; simp only [ok_bind, h.next]; rfl, ?_, ?_⟩
  · rfl
  · show decide (b.diskManager.writes.count (b.pages 0).key <
      List.count (b.pages 0).key (⟨0, 0⟩ :: b.diskManager.writes)) = false
    rw [h.key, List.count_cons_of_ne (by decide)]
    simp

/-- The last page is made and given back. -/
theorem stray_of_last (h : Invariant s) (hsize : s.pool.poolSize = 1)
    (hallocated : s.allocated = invalidPageId) {b₁ : BufferPoolManager (Logged Disk.PageMap)}
    (hfound : Found s.pool b₁ 0) (d : Logged Disk.PageMap) :
    Stray (WritePageGuard.drop { ({ b₁ with nextPageId := add32 s.pool.nextPageId 1 }.setData 0
      Block.zero).install 0 ⟨0, s.pool.nextPageId⟩ with diskManager := d } 0) := by
  have hnext : s.pool.nextPageId = invalidPageId := h.ids.next.trans hallocated
  rw [hnext]
  generalize hb : ({ ({ b₁ with nextPageId := add32 invalidPageId 1 }.setData 0
      Block.zero).install 0 ⟨0, invalidPageId⟩ with diskManager := d } :
    BufferPoolManager (Logged Disk.PageMap)) = b
  have hpage : b.pages 0 = ⟨0, invalidPageId, 1, false⟩ := by
    rw [← hb]
    rfl
  have htable : b.pageTable ⟨0, invalidPageId⟩ = some 0 := by
    have hself : b.pageTable = Function.update b₁.pageTable ⟨0, invalidPageId⟩ (some 0) := by
      rw [← hb]
      rfl
    rw [hself, Function.update_self]
  have hpin := hfound.structural.tracks.pin 0 invalidPageId
  have hreplacer : b.replacer = (b₁.replacer.recordAccess 0 invalidPageId).setEvictable 0 false := by
    rw [← hb]
    rfl
  rw [← hreplacer] at hpin
  have hset := hpin.setEvictable (f := 0) (by simp) true
  rw [Function.update_idem] at hset
  unfold WritePageGuard.drop
  rw [hpage]
  rcases unpinPage_cases b 0 invalidPageId true with ⟨_, hle⟩ | ⟨f, hf, _, he⟩
  · have := hle 0 htable
    rw [hpage] at this
    exact absurd this (by decide)
  · cases (hf.symm.trans htable : some f = some 0)
    rw [he]
    constructor
    case free =>
      show b.freeFrames = []
      have hfree : b.freeFrames = s.pool.freeFrames.tail := by
        rw [← hb]
        exact hfound.free
      have hcount : s.pool.frameCount = 1 := by rw [frameCount, hsize]; rfl
      rw [hfree]
      cases hl : s.pool.freeFrames with
      | nil => rfl
      | cons g rest =>
          cases rest with
          | nil => rfl
          | cons g' rest =>
              have hg := (h.structural.free_lt g (by rw [hl]; simp)).1
              have hg' := (h.structural.free_lt g' (by rw [hl]; simp)).1
              have hnodup := h.structural.nodup_free
              rw [hl] at hnodup
              have hne := (List.nodup_cons.mp hnodup).1
              rw [hcount] at hg hg'
              exact absurd (by rw [Nat.lt_one_iff.mp hg, Nat.lt_one_iff.mp hg']; simp) hne
    case tracks =>
      show ArcReplacer.Tracks (if (b.pages 0).pinCount - 1 = 0 then b.replacer.setEvictable 0 true
        else b.replacer) _
      rw [hpage]
      exact hset.eq_flags ▸ hset
    case evictable =>
      intro f
      show ArcReplacer.flags (if (b.pages 0).pinCount - 1 = 0 then b.replacer.setEvictable 0 true
        else b.replacer) f = _
      rw [hpage]
      show ArcReplacer.flags (b.replacer.setEvictable 0 true) f = _
      rw [hset.eq_flags]
      by_cases hf : f = 0
      · rw [hf, Function.update_self, if_pos rfl]
      · rw [Function.update_of_ne hf, if_neg hf]
        by_contra hne
        have hlt := (hfound.structural.tracked_lt f hne).1
        have hcount : b₁.frameCount = 1 := by rw [frameCount, hfound.poolSize, hsize]; rfl
        exact hf (Nat.lt_one_iff.mp (hcount ▸ hlt))
    case key =>
      show (Function.update b.pages 0 _ 0).key = _
      rw [Function.update_self, hpage]
      rfl
    case next =>
      show b.nextPageId = 0
      rw [← hb]
      rfl

/-- The id 2^32 - 1 is handed out after all others. It is the one that stands for no page: the page
is dirty when its guard is gone, and its frame is taken without a write. -/
theorem not_balanced_after_all_ids :
    ∃ es, ∃ s, Run (System.create 1 Disk.PageMap.zero) es s ∧ ¬ Balanced s := by
  obtain ⟨es, s, hrun, hguards, hsize, hallocated⟩ := exists_run_allocated invalidPageId (Nat.le_refl _)
  have hinv := hrun.invariant (.create 1 _) (Nat.le_of_eq hallocated)
  obtain ⟨b₁, d, hfound, hr⟩ := newPage_of_idle hinv hguards hsize
  obtain ⟨t, hmake, hpool, ht, hnext, hunsaved⟩ := run_makePage hguards hr
  have hstray : Stray t.pool := hpool ▸ stray_of_last hinv hsize hallocated hfound d
  obtain ⟨pool, hnew, hclean, hwritten⟩ := newPage_of_stray hstray
  have hlast : Step t (.newPage 0 .write 0) _ := .newPage (by rw [ht]; simp) hnew
  refine ⟨_, _, run_append hrun (run_append hmake (.snoc .nil hlast)), fun hbalanced => ?_⟩
  have hdirty := hbalanced.dirty 0 (by
    show (t.unsaved 0 && !written t.pool pool (t.pool.pages 0).key) = true
    rw [hunsaved, hwritten]
    rfl)
  exact absurd (hdirty.symm.trans hclean) (by decide)

end

end System

end TurtleDb.Buffer
