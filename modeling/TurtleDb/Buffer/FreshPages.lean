import TurtleDb.Buffer.Theorems

/-!
# The ids of new pages

`next_page_id_` starts at 0 in every pool. A new page has an id of its own as long as the files had
no pages with the numbers that are given out, and there are fewer new pages than ids.
-/

namespace TurtleDb.Buffer.BufferPoolManager

open TurtleDb.Lib

variable {δ : Type} [PageDisk δ]

/-- The file had no page with the number `n` before, and `n` is a page id. -/
def Unused (prior : PageKey → Prop) (file : FileId) (n : Nat) : Prop :=
  n < invalidPageId ∧ ¬ prior ⟨file, n⟩

/-- Pools over files with the pages `prior`, after `n` new pages, `handed`, each with an unused
number. Pages that exist are read and written. -/
inductive Reaches (prior : PageKey → Prop) (poolSize : Nat) (d : δ) :
    Nat → List PageKey → BufferPoolManager δ → Prop where
  | create : Reaches prior poolSize d 0 [] (create poolSize d)
  | newPage {n handed b b' file f page} (h : Reaches prior poolSize d n handed b)
      (hunused : Unused prior file n) (hr : b.newPage file = .ok (some (f, page), b')) :
      Reaches prior poolSize d (n + 1) (⟨file, page⟩ :: handed) b'
  | newPageFull {n handed b b' file} (h : Reaches prior poolSize d n handed b)
      (hr : b.newPage file = .ok (none, b')) : Reaches prior poolSize d n handed b'
  | readPage {n handed b b' file page r} (h : Reaches prior poolSize d n handed b)
      (hk : prior ⟨file, page⟩ ∨ ⟨file, page⟩ ∈ handed) (hvalid : page ≠ invalidPageId)
      (hr : b.readPage file page = .ok (r, b')) : Reaches prior poolSize d n handed b'
  | writePage {n handed b b' file page r} (h : Reaches prior poolSize d n handed b)
      (hk : prior ⟨file, page⟩ ∨ ⟨file, page⟩ ∈ handed) (hvalid : page ≠ invalidPageId)
      (hr : b.writePage file page = .ok (r, b')) : Reaches prior poolSize d n handed b'
  | unpinPage {n handed b} (file : FileId) (page : PageId) (dirty : Bool)
      (h : Reaches prior poolSize d n handed b) :
      Reaches prior poolSize d n handed (b.unpinPage file page dirty).2
  | setData {n handed b} (f : FrameId) (data : PageData) (h : Reaches prior poolSize d n handed b) :
      Reaches prior poolSize d n handed (b.setData f data)

/-- The pages of a pool exist, and the ids given out are the numbers below `n`. -/
structure Allocated (prior : PageKey → Prop) (n : Nat) (handed : List PageKey)
    (b : BufferPoolManager δ) : Prop where
  structural : Structural b none
  next : b.nextPageId = n
  next_le : n ≤ invalidPageId
  handed_lt : ∀ k ∈ handed, k.pageId < n
  table : ∀ k f, b.pageTable k = some f → prior k ∨ k ∈ handed

variable {prior : PageKey → Prop} {poolSize n : Nat} {d : δ} {handed : List PageKey}
  {b b' : BufferPoolManager δ} {file : FileId}

namespace Allocated

omit [PageDisk δ] in
theorem absent (h : Allocated prior n handed b) (hunused : ¬ prior ⟨file, n⟩) :
    ⟨file, n⟩ ∉ handed ∧ b.pageTable ⟨file, n⟩ = none := by
  have hnot : ⟨file, n⟩ ∉ handed := fun hm => Nat.lt_irrefl n (h.handed_lt _ hm)
  refine ⟨hnot, ?_⟩
  by_contra hne
  obtain ⟨f, hf⟩ := Option.ne_none_iff_exists'.mp hne
  rcases h.table _ f hf with hp | hm
  · exact hunused hp
  · exact hnot hm

theorem fetchPage (h : Allocated prior n handed b) {page : PageId}
    (hk : prior ⟨file, page⟩ ∨ ⟨file, page⟩ ∈ handed) (hvalid : page ≠ invalidPageId)
    {r : Option FrameId} (hr : b.fetchPage file page = .ok (r, b')) :
    Allocated prior n handed b' := by
  have hs := h.structural.fetchPage hvalid hr
  rcases fetchPage_cases h.structural file page with ⟨m, he, _⟩ | ⟨f, _, _, he⟩ | ⟨f, _, he⟩ |
    ⟨_, he, _⟩ | ⟨f, b₁, data, d, _, hfound, _, he⟩
  · cases he.symm.trans hr
  · cases he.symm.trans hr
  · cases he.symm.trans hr
    exact ⟨hs, h.next, h.next_le, h.handed_lt, h.table⟩
  · cases he.symm.trans hr
    exact h
  · cases he.symm.trans hr
    refine ⟨hs, hfound.nextPageId.trans h.next, h.next_le, h.handed_lt, fun k g hg => ?_⟩
    by_cases hkey : k = ⟨file, page⟩
    · exact hkey ▸ hk
    · refine h.table k g (hfound.table_of_some ?_)
      rw [← hg]
      exact (Function.update_of_ne hkey _ _).symm

theorem newPage (h : Allocated prior n handed b) (hunused : Unused prior file n) {f : FrameId}
    {page : PageId} (hr : b.newPage file = .ok (some (f, page), b')) :
    page = n ∧ Allocated prior (n + 1) (⟨file, page⟩ :: handed) b' := by
  have hs := h.structural.newPage (by rw [h.next]; exact Nat.ne_of_lt hunused.1)
    (by rw [h.next]; exact (h.absent hunused.2).2) hr
  rcases newPage_cases h.structural file with ⟨m, he, _⟩ | ⟨he, _⟩ | ⟨g, b₁, d, hfound, _, he⟩
  · cases he.symm.trans hr
  · cases he.symm.trans hr
  · cases he.symm.trans hr
    have hn : n + 1 ≤ invalidPageId := hunused.1
    refine ⟨h.next, hs, ?_, hn, fun k hk => ?_, fun k e hg => ?_⟩
    · show add32 b.nextPageId 1 = n + 1
      rw [h.next]
      exact Nat.mod_eq_of_lt (Nat.lt_of_le_of_lt hn (by decide))
    · rcases List.mem_cons.mp hk with rfl | hk
      · exact h.next ▸ Nat.lt_succ_self n
      · exact Nat.lt_succ_of_lt (h.handed_lt k hk)
    · by_cases hkey : k = ⟨file, b.nextPageId⟩
      · exact .inr (hkey ▸ List.mem_cons_self)
      · refine (h.table k e (hfound.table_of_some ?_)).imp_right (List.mem_cons_of_mem _)
        rw [← hg]
        exact (Function.update_of_ne hkey _ _).symm

end Allocated

theorem Reaches.allocated (h : Reaches prior poolSize d n handed b) :
    Allocated prior n handed b := by
  induction h with
  | create =>
      refine ⟨.create poolSize d, rfl, Nat.zero_le _, by simp, fun k f hk => ?_⟩
      cases hk
  | newPage _ hunused hr ih => exact (ih.newPage hunused hr).2
  | @newPageFull n handed b b' file _ hr ih =>
      rcases newPage_cases ih.structural file with ⟨m, he, _⟩ | ⟨he, _⟩ | ⟨f, b₁, d, _, _, he⟩
      · cases he.symm.trans hr
      · cases he.symm.trans hr
        exact ih
      · cases he.symm.trans hr
  | readPage _ hk hvalid hr ih => exact ih.fetchPage hk hvalid hr
  | writePage _ hk hvalid hr ih => exact ih.fetchPage hk hvalid hr
  | @unpinPage n handed b file page dirty _ ih =>
      have hs := ih.structural.unpinPage file page dirty
      rcases unpinPage_cases b file page dirty with ⟨he, _⟩ | ⟨f, _, _, he⟩
      · rw [he]
        exact ih
      · rw [he] at hs ⊢
        exact ⟨hs, ih.next, ih.next_le, ih.handed_lt, ih.table⟩
  | setData f data _ ih =>
      exact ⟨ih.structural.congr rfl rfl rfl rfl rfl, ih.next, ih.next_le, ih.handed_lt, ih.table⟩

/-- The page exists: it was there before, was handed out, or is resident. -/
def Exists (prior : PageKey → Prop) (handed : List PageKey) (b : BufferPoolManager δ)
    (k : PageKey) : Prop := prior k ∨ k ∈ handed ∨ b.pageTable k ≠ none

/-- As long as the numbers given out were unused, each frame has a page of its own, the zeros of
`new_page` go to the page it returns, and that page is new exactly if the next number is unused
too. -/
theorem reaches_newPage_new_iff (prior : PageKey → Prop) (poolSize : Nat) (d : δ) (n : Nat)
    (handed : List PageKey) (b : BufferPoolManager δ) (h : Reaches prior poolSize d n handed b) :
    Agreement b ∧ ∀ file f page b', b.newPage file = .ok (some (f, page), b') →
      (∃ d₁, (d₁ = b.diskManager ∨ ∃ k g, b.pageTable k = some g ∧
          PageDisk.writePage b.diskManager k.fileId k.pageId (b.data g) = .ok d₁) ∧
        PageDisk.writePage d₁ file page Block.zero = .ok b'.diskManager) ∧
      (page ≠ invalidPageId ∧ ¬ Exists prior handed b ⟨file, page⟩ ↔ Unused prior file n) := by
  have ha := h.allocated
  refine ⟨ha.structural.agreement, fun file f page b' hr => ?_⟩
  rcases newPage_cases ha.structural file with ⟨m, he, _⟩ | ⟨he, _⟩ | ⟨g, b₁, d, hfound, hw, he⟩
  · cases he.symm.trans hr
  · cases he.symm.trans hr
  · cases he.symm.trans hr
    refine ⟨⟨b₁.diskManager, ?_, hw⟩, ?_, ?_⟩
    · rcases hfound.disk with ⟨hd, _⟩ | ⟨hd, htable⟩
      · exact .inl hd
      · exact .inr ⟨_, _, htable, hd⟩
    · rintro ⟨hvalid, hnew⟩
      rw [ha.next] at hvalid hnew
      exact ⟨Nat.lt_of_le_of_ne ha.next_le hvalid, fun hp => hnew (.inl hp)⟩
    · intro hunused
      obtain ⟨hnot, hnone⟩ := ha.absent hunused.2
      rw [ha.next]
      refine ⟨Nat.ne_of_lt hunused.1, ?_⟩
      rintro (hp | hm | hres)
      · exact hunused.2 hp
      · exact hnot hm
      · exact hres hnone

theorem reaches_newPage_new_iff_second :
    ∃ b, Reaches (fun _ => False) 2 Disk.PageMap.zero 1 [⟨0, 0⟩] b ∧ Agreement b ∧
      ∀ file f page b', b.newPage file = .ok (some (f, page), b') →
        page ≠ invalidPageId ∧ ¬ Exists (fun _ => False) [⟨0, 0⟩] b ⟨file, page⟩ := by
  have h := @Reaches.newPage _ _ (fun _ => False) 2 Disk.PageMap.zero _ _ _ _ 0 0 0 .create
    ⟨by decide, id⟩ rfl
  obtain ⟨hagree, hnew⟩ :=
    reaches_newPage_new_iff (fun _ => False) 2 Disk.PageMap.zero 1 [⟨0, 0⟩] _ h
  refine ⟨_, h, hagree, fun file f page b' hr => (hnew file f page b' hr).2.mpr ⟨by decide, id⟩⟩

/-- A restart: the file has a page 0 with data, the pool has just read it, and `new_page` hands it
out again. -/
theorem reaches_newPage_existing : ∃ (d : Disk.PageMap) (b b' : BufferPoolManager Disk.PageMap),
    Reaches (fun k => k = ⟨0, 0⟩) 2 d 0 [] b ∧ b.newPage 0 = .ok (some (1, 0), b') ∧
      b.diskManager ⟨0, 0⟩ ≠ Block.zero ∧ b'.diskManager ⟨0, 0⟩ = Block.zero ∧
      (b'.pages 0).key = ⟨0, 0⟩ ∧ (b'.pages 1).key = ⟨0, 0⟩ := by
  have h := @Reaches.readPage Disk.PageMap _ (fun k => k = ⟨0, 0⟩) 2 (fun _ _ => 1) _ _ _ _ 0 0
    (some 0) .create (.inl rfl) (by decide) rfl
  refine ⟨_, _, _, h, rfl, ?_, ?_, rfl, rfl⟩
  · intro he
    exact absurd (congrFun he ⟨0, by decide⟩) (by decide)
  · rfl

end TurtleDb.Buffer.BufferPoolManager
