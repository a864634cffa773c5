import TurtleDb.Buffer.Theorems

/-!
# When a request fails

A request finds no frame exactly when every frame is pinned, and then it has changed nothing.
-/

namespace TurtleDb.Buffer.BufferPoolManager

open TurtleDb.Lib

variable {δ : Type} {b b' : BufferPoolManager δ}

/-- Every frame has a pin. -/
def Full (b : BufferPoolManager δ) : Prop := ∀ f < b.frameCount, 0 < (b.pages f).pinCount

theorem Structural.full_iff (h : Structural b none) :
    Full b ↔ b.freeFrames = [] ∧ ∀ f, b.replacer.flags f ≠ some true := by
  constructor
  · intro hfull
    constructor
    · rw [List.eq_nil_iff_forall_not_mem]
      intro f hf
      have hpin := hfull f (h.free_lt f hf).1
      rw [(h.free_of_mem hf).no_pin] at hpin
      exact absurd hpin (by decide)
    · intro f hflag
      have hres := h.resident_of_flag (f := f) (by rw [hflag]; simp)
      have hpin := hfull f (h.tracked_lt f (by rw [hflag]; simp)).1
      have htracked := hres.tracked
      rw [hflag] at htracked
      have hzero : (b.pages f).pinCount = 0 := of_decide_eq_true (Option.some.inj htracked).symm
      rw [hzero] at hpin
      exact absurd hpin (by decide)
  · rintro ⟨hfree, hflags⟩ f hlt
    rcases h.frames f hlt (by simp) with hf | hf
    · have hmem := hf.mem
      rw [hfree] at hmem
      cases hmem
    · have hne : (b.pages f).pinCount ≠ 0 := by
        intro hzero
        refine hflags f ?_
        rw [hf.tracked, hzero]
        rfl
      have := hf.pin_nonneg
      omega

variable [PageDisk δ]

theorem Structural.findFrame_full (h : Structural b none) (hfull : Full b) :
    b.findFrame = .ok none := by
  obtain ⟨hfree, hflags⟩ := h.full_iff.mp hfull
  have hevict : b.replacer.evict = none := by
    cases he : b.replacer.evict with
    | none => rfl
    | some v => exact absurd (h.tracks.evict_some he).1 (hflags v.1)
  unfold findFrame
  rw [hfree, hevict]

theorem Structural.fetchPage_none_iff (h : Structural b none) (file : FileId) (page : PageId) :
    b.fetchPage file page = .ok (none, b') ↔
      b' = b ∧ b.pageTable ⟨file, page⟩ = none ∧ Full b := by
  constructor
  · intro hr
    rcases fetchPage_cases h file page with ⟨m, he, _⟩ | ⟨f, _, _, he⟩ | ⟨f, _, he⟩ |
      ⟨hnone, he, hfull⟩ | ⟨f, b₁, data, d, _, _, _, he⟩
    · cases he.symm.trans hr
    · cases he.symm.trans hr
    · cases he.symm.trans hr
    · cases he.symm.trans hr
      exact ⟨rfl, hnone, h.full_iff.mpr hfull⟩
    · cases he.symm.trans hr
  · rintro ⟨rfl, hnone, hfull⟩
    simp only [BufferPoolManager.fetchPage, hnone, h.findFrame_full hfull, ok_bind]
    rfl

theorem Structural.newPage_none_iff (h : Structural b none) (file : FileId) :
    b.newPage file = .ok (none, b') ↔ b' = b ∧ Full b := by
  constructor
  · intro hr
    rcases newPage_cases h file with ⟨m, he, _⟩ | ⟨he, hfull⟩ | ⟨f, b₁, d, _, _, he⟩
    · cases he.symm.trans hr
    · cases he.symm.trans hr
      exact ⟨rfl, h.full_iff.mpr hfull⟩
    · cases he.symm.trans hr
  · rintro ⟨rfl, hfull⟩
    simp only [BufferPoolManager.newPage, h.findFrame_full hfull, ok_bind]
    rfl

/-- In every reachable state a page cannot be had exactly when it is not resident and all frames are
pinned, and a new one exactly when all frames are pinned. Such a call leaves the pool as it was. -/
theorem reachable_fails_iff_full (poolSize : Nat) (d : δ) (n : Nat) (handed : List PageKey)
    (b : BufferPoolManager δ) (h : Reachable poolSize d n handed b) :
    (∀ file page b', b.readPage file page = .ok (none, b') ↔
        b' = b ∧ b.pageTable ⟨file, page⟩ = none ∧ Full b) ∧
      (∀ file page b', b.writePage file page = .ok (none, b') ↔
        b' = b ∧ b.pageTable ⟨file, page⟩ = none ∧ Full b) ∧
      ∀ file b', b.newPage file = .ok (none, b') ↔ b' = b ∧ Full b := by
  obtain ⟨_, hs, _⟩ := h.invariant
  exact ⟨fun file page _ => hs.fetchPage_none_iff file page,
    fun file page _ => hs.fetchPage_none_iff file page, fun file _ => hs.newPage_none_iff file⟩

theorem reachable_fails_iff_full_pinned : ∃ b, Reachable 1 Disk.PageMap.zero 1 [⟨0, 0⟩] b ∧
    Full b ∧ ∀ b', b.newPage 0 = .ok (none, b') ↔ b' = b ∧ Full b := by
  have h := @Reachable.newPage _ _ 1 Disk.PageMap.zero _ _ _ _ (some (0, 0)) 0 .create
    (by decide) rfl
  have hiff := (reachable_fails_iff_full 1 Disk.PageMap.zero 1 [⟨0, 0⟩] _ h).2.2 0
  exact ⟨_, h, ((hiff _).mp rfl).2, hiff⟩

end TurtleDb.Buffer.BufferPoolManager
