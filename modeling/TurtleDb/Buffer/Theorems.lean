import TurtleDb.Buffer.Disks
import TurtleDb.Buffer.Lemmas.Structure

/-!
# The pool in every reachable state

Any sequence of calls keeps the four structures of the pool in agreement, as long as no disk call
throws.
-/

namespace TurtleDb.Buffer.BufferPoolManager

open TurtleDb.Lib

variable {δ : Type} [PageDisk δ]

/-- The pools that calls lead to, with the number of calls of `new_page` and the pages it handed
out. Pages are read and written only when they were handed out, and there are fewer `new_page` calls
than page ids. A client may change the bytes of any frame at any time. -/
inductive Reachable (poolSize : Nat) (d : δ) :
    Nat → List PageKey → BufferPoolManager δ → Prop where
  | create : Reachable poolSize d 0 [] (create poolSize d)
  | newPage {n handed b b' r file} (h : Reachable poolSize d n handed b)
      (hn : n + 1 < invalidPageId) (hr : b.newPage file = .ok (r, b')) :
      Reachable poolSize d (n + 1) ((r.map fun p => ⟨file, p.2⟩).toList ++ handed) b'
  | readPage {n handed b b' r file page} (h : Reachable poolSize d n handed b)
      (hk : ⟨file, page⟩ ∈ handed) (hr : b.readPage file page = .ok (r, b')) :
      Reachable poolSize d n handed b'
  | writePage {n handed b b' r file page} (h : Reachable poolSize d n handed b)
      (hk : ⟨file, page⟩ ∈ handed) (hr : b.writePage file page = .ok (r, b')) :
      Reachable poolSize d n handed b'
  | unpinPage {n handed b} (file : FileId) (page : PageId) (dirty : Bool)
      (h : Reachable poolSize d n handed b) :
      Reachable poolSize d n handed (b.unpinPage file page dirty).2
  | flushPage {n handed b b' r file page} (h : Reachable poolSize d n handed b)
      (hr : b.flushPage file page = .ok (r, b')) : Reachable poolSize d n handed b'
  | flushAllPages {n handed b b'} (h : Reachable poolSize d n handed b)
      (hr : b.flushAllPages = .ok b') : Reachable poolSize d n handed b'
  | deletePage {n handed b b' r file page} (h : Reachable poolSize d n handed b)
      (hr : b.deletePage file page = .ok (r, b')) : Reachable poolSize d n handed b'
  | setData {n handed b} (fid : FrameId) (data : PageData) (h : Reachable poolSize d n handed b) :
      Reachable poolSize d n handed (b.setData fid data)

/-- Every page in the table and every page handed out has an id that was given out before. -/
structure Numbered (n : Nat) (handed : List PageKey) (b : BufferPoolManager δ) : Prop where
  next_le : b.nextPageId ≤ n
  handed_lt : ∀ k ∈ handed, k.pageId < b.nextPageId
  table_lt : ∀ k f, b.pageTable k = some f → k.pageId < b.nextPageId

namespace Numbered

variable {b b' : BufferPoolManager δ} {n : Nat} {handed : List PageKey}

omit [PageDisk δ] in
theorem congr (h : Numbered n handed b) (hnext : b'.nextPageId = b.nextPageId)
    (htable : ∀ k f, b'.pageTable k = some f → b.pageTable k = some f ∨ k ∈ handed) :
    Numbered n handed b' := by
  refine ⟨hnext ▸ h.next_le, hnext ▸ h.handed_lt, fun k f hk => ?_⟩
  rw [hnext]
  rcases htable k f hk with hk | hk
  · exact h.table_lt k f hk
  · exact h.handed_lt k hk

theorem fetchPage (h : Numbered n handed b) (hs : Structural b none) {file : FileId} {page : PageId}
    (hk : ⟨file, page⟩ ∈ handed) {r : Option FrameId} (hr : b.fetchPage file page = .ok (r, b')) :
    Numbered n handed b' := by
  rcases fetchPage_cases hs file page with ⟨m, he, _⟩ | ⟨f, _, _, he⟩ | ⟨f, _, he⟩ | ⟨_, he, _⟩ |
    ⟨f, b₁, data, d, _, hfound, _, he⟩
  · cases he.symm.trans hr
  · cases he.symm.trans hr
  · cases he.symm.trans hr
    exact h.congr rfl fun k g hg => .inl hg
  · cases he.symm.trans hr
    exact h
  · cases he.symm.trans hr
    refine h.congr hfound.nextPageId fun k g hg => ?_
    by_cases hkey : k = ⟨file, page⟩
    · exact .inr (hkey ▸ hk)
    · refine .inl (hfound.table_of_some ?_)
      rw [← hg]
      exact (Function.update_of_ne hkey _ _).symm

theorem newPage (h : Numbered n handed b) (hs : Structural b none) (hn : n + 1 < invalidPageId)
    {file : FileId} {r : Option (FrameId × PageId)} (hr : b.newPage file = .ok (r, b')) :
    Numbered (n + 1) ((r.map fun p => ⟨file, p.2⟩).toList ++ handed) b' := by
  rcases newPage_cases hs file with ⟨m, he, _⟩ | ⟨he, _⟩ | ⟨f, b₁, d, hfound, _, he⟩
  · cases he.symm.trans hr
  · cases he.symm.trans hr
    exact ⟨Nat.le_succ_of_le h.next_le, h.handed_lt, h.table_lt⟩
  · cases he.symm.trans hr
    have hle : n ≥ b.nextPageId := h.next_le
    have hnext : add32 b.nextPageId 1 = b.nextPageId + 1 := by
      simp only [add32, word32, invalidPageId] at *
      omega
    refine ⟨?_, ?_, ?_⟩
    · show n + 1 ≥ add32 b.nextPageId 1
      rw [hnext]
      exact Nat.succ_le_succ hle
    · intro k hk
      show k.pageId < add32 b.nextPageId 1
      rw [hnext]
      rcases List.mem_append.mp hk with hk | hk
      · cases List.mem_singleton.mp hk
        exact Nat.lt_succ_self _
      · exact Nat.lt_succ_of_lt (h.handed_lt k hk)
    · intro k g hg
      show k.pageId < add32 b.nextPageId 1
      rw [hnext]
      by_cases hkey : k = ⟨file, b.nextPageId⟩
      · rw [hkey]
        exact Nat.lt_succ_self _
      · refine Nat.lt_succ_of_lt (h.table_lt k g (hfound.table_of_some ?_))
        rw [← hg]
        exact (Function.update_of_ne hkey _ _).symm

theorem flushFrames (h : Numbered n handed b) {fs : List FrameId}
    (hr : fs.foldlM flushFrame b = .ok b') : Numbered n handed b' := by
  induction fs generalizing b with
  | nil =>
      cases hr
      exact h
  | cons f fs ih =>
      rw [List.foldlM_cons] at hr
      obtain ⟨b₁, hf, hrest⟩ := bind_eq_ok.mp hr
      rcases flushFrame_cases b f with ⟨m, he, _⟩ | ⟨he, _⟩ | ⟨d, _, _, _, he⟩
      · cases he.symm.trans hf
      · cases he.symm.trans hf
        exact ih h hrest
      · cases he.symm.trans hf
        refine ih ?_ hrest
        exact h.congr rfl fun k g hg => .inl hg

theorem flushAllPages (h : Numbered n handed b) (hr : b.flushAllPages = .ok b') :
    Numbered n handed b' := h.flushFrames hr

omit [PageDisk δ] in
theorem deletePage (h : Numbered n handed b) {file : FileId} {page : PageId} {r : Bool}
    (hr : b.deletePage file page = .ok (r, b')) : Numbered n handed b' := by
  unfold BufferPoolManager.deletePage at hr
  split at hr
  next =>
    cases hr
    exact h
  next f _ =>
    split at hr
    next =>
      cases hr
      exact h
    next =>
      obtain ⟨r', _, hrest⟩ := bind_eq_ok.mp hr
      cases hrest
      refine h.congr rfl fun k g hg => .inl ?_
      have hg : Function.update b.pageTable ⟨file, page⟩ none k = some g := hg
      by_cases hkey : k = ⟨file, page⟩
      · rw [hkey, Function.update_self] at hg
        cases hg
      · rwa [Function.update_of_ne hkey] at hg

end Numbered

/-! ## The structural invariant -/

/-- Page table, free list, metadata and replacer describe the same frames. -/
structure Agreement (b : BufferPoolManager δ) : Prop where
  /-- The table is a bijection between its keys and the frames that hold a page. -/
  table : ∀ k f, b.pageTable k = some f ↔
    f < b.frameCount ∧ (b.pages f).key = k ∧ (b.pages f).pageId ≠ invalidPageId
  /-- A frame is free: once on the list, without a page, without a pin and not tracked. -/
  free : ∀ f < b.frameCount, f ∈ b.freeFrames → b.freeFrames.count f = 1 ∧
    (b.pages f).pageId = invalidPageId ∧ (b.pages f).pinCount = 0 ∧ b.replacer.aliveMap f = none
  /-- Or it holds a page and is tracked under its own id, evictable when it has no pin. -/
  resident : ∀ f < b.frameCount, f ∉ b.freeFrames → (b.pages f).pageId ≠ invalidPageId ∧
    ∃ status, b.replacer.aliveMap f = some status ∧ status.frameId = f ∧
      (status.evictable = true ↔ (b.pages f).pinCount = 0)
  pins : ∀ f < b.frameCount, 0 ≤ (b.pages f).pinCount
  /-- No other frame is on the list or tracked. -/
  bounded : ∀ f, f ∈ b.freeFrames ∨ b.replacer.aliveMap f ≠ none → f < b.frameCount

omit [PageDisk δ] in
theorem Structural.agreement {b : BufferPoolManager δ} (h : Structural b none) : Agreement b := by
  constructor
  case table =>
    intro k f
    constructor
    · intro hk
      obtain ⟨hlt, _, hkey, hvalid⟩ := h.table k f hk
      exact ⟨hlt, hkey, by rw [← hkey] at hvalid; exact hvalid⟩
    · rintro ⟨hlt, rfl, hvalid⟩
      exact (h.resident_of_page hlt hvalid).table
  case free =>
    intro f _ hf
    have hfree := h.free_of_mem hf
    exact ⟨List.count_eq_one_of_mem h.nodup_free hf, hfree.no_page, hfree.no_pin,
      Option.map_eq_none_iff.mp hfree.untracked⟩
  case resident =>
    intro f hlt hf
    rcases h.frames f hlt (by simp) with hfree | hres
    · exact absurd hfree.mem hf
    · obtain ⟨status, hs, hev⟩ := Option.map_eq_some_iff.mp hres.tracked
      exact ⟨hres.page, status, hs, h.tracks.own f status hs, by rw [hev, decide_eq_true_iff]⟩
  case pins =>
    intro f hlt
    rcases h.frames f hlt (by simp) with hfree | hres
    · exact le_of_eq hfree.no_pin.symm
    · exact hres.pin_nonneg
  case bounded =>
    rintro f (hf | hf)
    · exact (h.free_lt f hf).1
    · exact (h.tracked_lt f fun hnone => hf (Option.map_eq_none_iff.mp hnone)).1

theorem Reachable.invariant {poolSize n : Nat} {d : δ} {handed : List PageKey}
    {b : BufferPoolManager δ} (h : Reachable poolSize d n handed b) :
    n < invalidPageId ∧ Structural b none ∧ Numbered n handed b := by
  induction h with
  | create => exact ⟨by decide, .create poolSize d, ⟨Nat.le_refl 0, by simp, fun k f hk => by cases hk⟩⟩
  | @newPage n handed b b' r file h hn hr ih =>
      obtain ⟨_, hs, hnum⟩ := ih
      have hle : n ≥ b.nextPageId := hnum.next_le
      have hfresh : b.pageTable ⟨file, b.nextPageId⟩ = none := by
        by_contra hne
        obtain ⟨f, hf⟩ := Option.ne_none_iff_exists'.mp hne
        exact Nat.lt_irrefl _ (hnum.table_lt _ f hf)
      have hvalid : b.nextPageId ≠ invalidPageId := fun he => by
        rw [he] at hle
        exact absurd (Nat.lt_of_succ_lt hn) (Nat.not_lt.mpr hle)
      exact ⟨hn, hs.newPage hvalid hfresh hr, hnum.newPage hs hn hr⟩
  | @readPage n handed b b' r file page h hk hr ih =>
      obtain ⟨hn, hs, hnum⟩ := ih
      have hle : n ≥ b.nextPageId := hnum.next_le
      have hlt : b.nextPageId > page := hnum.handed_lt _ hk
      have hvalid : page ≠ invalidPageId := fun he => by
        rw [he] at hlt
        exact absurd (Nat.lt_trans (Nat.lt_of_lt_of_le hlt hle) hn) (Nat.lt_irrefl _)
      exact ⟨hn, hs.fetchPage hvalid hr, hnum.fetchPage hs hk hr⟩
  | @writePage n handed b b' r file page h hk hr ih =>
      obtain ⟨hn, hs, hnum⟩ := ih
      have hle : n ≥ b.nextPageId := hnum.next_le
      have hlt : b.nextPageId > page := hnum.handed_lt _ hk
      have hvalid : page ≠ invalidPageId := fun he => by
        rw [he] at hlt
        exact absurd (Nat.lt_trans (Nat.lt_of_lt_of_le hlt hle) hn) (Nat.lt_irrefl _)
      exact ⟨hn, hs.fetchPage hvalid hr, hnum.fetchPage hs hk hr⟩
  | @unpinPage n handed b file page dirty h ih =>
      obtain ⟨hn, hs, hnum⟩ := ih
      refine ⟨hn, hs.unpinPage file page dirty, ?_⟩
      rcases unpinPage_cases b file page dirty with ⟨he, _⟩ | ⟨f, _, _, he⟩
      · rw [he]
        exact hnum
      · rw [he]
        exact hnum.congr rfl fun k g hg => .inl hg
  | @flushPage n handed b b' r file page h hr ih =>
      obtain ⟨hn, hs, hnum⟩ := ih
      refine ⟨hn, hs.flushPage hr, ?_⟩
      rcases flushPage_cases b file page with ⟨_, m, he, _⟩ | ⟨_, he⟩ | ⟨f, d, _, _, he⟩
      · cases he.symm.trans hr
      · cases he.symm.trans hr
        exact hnum
      · cases he.symm.trans hr
        exact hnum.congr rfl fun k g hg => .inl hg
  | @flushAllPages n handed b b' h hr ih =>
      obtain ⟨hn, hs, hnum⟩ := ih
      exact ⟨hn, hs.flushAllPages hr, hnum.flushAllPages hr⟩
  | @deletePage n handed b b' r file page h hr ih =>
      obtain ⟨hn, hs, hnum⟩ := ih
      obtain ⟨r', b'', hr', hs'⟩ := hs.deletePage file page
      cases hr'.symm.trans hr
      exact ⟨hn, hs', hnum.deletePage hr⟩
  | @setData n handed b fid data h ih =>
      obtain ⟨hn, hs, hnum⟩ := ih
      exact ⟨hn, hs.congr rfl rfl rfl rfl rfl, hnum.congr rfl fun k g hg => .inl hg⟩

/-- In every reachable state the structures agree, and a call of `delete_page` never ends the
process: the frame it takes out of the replacer is evictable. -/
theorem reachable_agreement (poolSize : Nat) (d : δ) (n : Nat) (handed : List PageKey)
    (b : BufferPoolManager δ) (h : Reachable poolSize d n handed b) :
    Agreement b ∧ ∀ file page, ∃ r b', b.deletePage file page = .ok (r, b') := by
  obtain ⟨_, hs, _⟩ := h.invariant
  refine ⟨hs.agreement, fun file page => ?_⟩
  obtain ⟨r, b', hr, _⟩ := hs.deletePage file page
  exact ⟨r, b', hr⟩

theorem reachable_agreement_evicting :
    ∃ b, Reachable 1 Disk.PageMap.zero 2 [⟨0, 1⟩, ⟨0, 0⟩] b ∧ Agreement b ∧
      ∀ file page, ∃ r b', b.deletePage file page = .ok (r, b') := by
  have h₁ := @Reachable.newPage _ _ 1 Disk.PageMap.zero _ _ _ _ (some (0, 0)) 0 .create
    (by decide) rfl
  have h₂ := Reachable.unpinPage 0 0 true h₁
  have h₃ := @Reachable.newPage _ _ _ _ _ _ _ _ (some (0, 1)) 0 h₂ (by decide) rfl
  exact ⟨_, h₃, reachable_agreement 1 Disk.PageMap.zero 2 [⟨0, 1⟩, ⟨0, 0⟩] _ h₃⟩

end TurtleDb.Buffer.BufferPoolManager
