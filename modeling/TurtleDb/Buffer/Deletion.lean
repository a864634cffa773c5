import TurtleDb.Buffer.PageStore

/-!
# Deleted pages

`delete_page` gives the frame back and leaves the disk alone. What a later read shows is what the
disk had when the page was deleted: zeros if the page was never written back.
-/

namespace TurtleDb.Buffer

open TurtleDb.Lib BufferPoolManager LawfulPageDisk

variable {δ : Type} [PageDisk δ] [LawfulPageDisk δ]

namespace BufferPoolManager

variable {b b' b₁ : BufferPoolManager δ} {held : PageKey → Nat} {pending : PageKey → Prop}
  {store : PageKey → Option PageData} {k : PageKey} {f : FrameId}

omit [PageDisk δ] [LawfulPageDisk δ] in
theorem stored_of_update {k' : PageKey} {x : Option PageData} (hk : store k ≠ none)
    (h : Function.update store k x k' ≠ none) : store k' ≠ none := by
  by_cases hkk : k' = k
  · rwa [hkk]
  · rwa [Function.update_of_ne hkk] at h

omit [PageDisk δ] [LawfulPageDisk δ] in
theorem unpinPage_disk (b : BufferPoolManager δ) (file : FileId) (page : PageId) (dirty : Bool) :
    (b.unpinPage file page dirty).2.diskManager = b.diskManager := by
  rcases unpinPage_cases b file page dirty with ⟨he, _⟩ | ⟨f, _, _, he⟩
  · rw [he]
  · rw [he]
    rfl

/-- The disk has bytes for every page that is stored. -/
def Written (d : δ) (store : PageKey → Option PageData) : Prop :=
  ∀ k, store k ≠ none → content d k ≠ none

namespace Written

variable {d d' : δ}

theorem congr (h : Written d store) (hcontent : content d' = content d) : Written d' store :=
  fun k hk => hcontent ▸ h k hk

theorem write (h : Written d store) {data bytes : PageData} (hself : content d' k = some data)
    (hother : ∀ k' bytes, k' ≠ k → content d k' = some bytes → content d' k' = some bytes) :
    Written d' (Function.update store k (some bytes)) := by
  intro k' hk'
  by_cases hkk : k' = k
  · rw [hkk, hself]
    simp
  · rw [Function.update_of_ne hkk] at hk'
    obtain ⟨old, hold⟩ := Option.ne_none_iff_exists'.mp (h k' hk')
    rw [hother k' old hkk hold]
    simp

/-- A dirty page on its way to the disk. -/
theorem writes (h : Written b.diskManager store) (hback : Backs b none held pending store)
    (hk : b.pageTable k = some f)
    (hw : PageDisk.writePage b.diskManager (b.pages f).fileId (b.pages f).pageId (b.data f) =
      .ok d') : Written d' store := by
  obtain ⟨d₁, hd, hself, hother, _⟩ := hback.writes hk
  cases hd.symm.trans hw
  have hw' : Written d' (Function.update store k (some (b.data f))) := h.write hself hother
  rwa [← hback.bytes k f hk, Function.update_eq_self] at hw'

theorem found (h : Written b.diskManager store) (hback : Backs b none held pending store)
    (hfound : Found b b₁ f) : Written b₁.diskManager store := by
  rcases hfound.disk with ⟨hd, _⟩ | ⟨hw, hk⟩
  · rwa [hd]
  · exact h.writes hback hk hw

theorem fetchPage (h : Written b.diskManager store) (hback : Backs b none held pending store)
    (hk : store k ≠ none) {r : Option FrameId}
    (hr : b.fetchPage k.fileId k.pageId = .ok (r, b')) : Written b'.diskManager store := by
  rcases fetchPage_cases hback.structural k.fileId k.pageId with ⟨m, he, _⟩ | ⟨f, _, _, he⟩ |
    ⟨f, _, he⟩ | ⟨_, he, _⟩ | ⟨f, b₁, data, d, _, hfound, hread, he⟩
  · cases he.symm.trans hr
  · cases he.symm.trans hr
  · cases he.symm.trans hr
    exact h
  · cases he.symm.trans hr
    exact h
  · cases he.symm.trans hr
    have h₁ := h.found hback hfound
    obtain ⟨bytes, hbytes⟩ := Option.ne_none_iff_exists'.mp (h₁ k hk)
    obtain ⟨d', hread', hcontent, _⟩ := LawfulPageDisk.read hbytes
    cases hread'.symm.trans hread
    exact h₁.congr hcontent

theorem newPage (h : Written b.diskManager store) (hback : Backs b none held pending store)
    {file : FileId} (hopen : opened b.diskManager file) {r : Option (FrameId × PageId)}
    (hr : b.newPage file = .ok (r, b')) :
    (r = none ∧ Written b'.diskManager store) ∨ ∃ f page, r = some (f, page) ∧
      Written b'.diskManager (Function.update store ⟨file, page⟩ (some Block.zero)) := by
  rcases newPage_cases hback.structural file with ⟨m, he, _⟩ | ⟨he, _⟩ | ⟨f, b₁, d, hfound, hw, he⟩
  · cases he.symm.trans hr
  · cases he.symm.trans hr
    exact .inl ⟨rfl, h⟩
  · cases he.symm.trans hr
    refine .inr ⟨f, _, rfl, ?_⟩
    have h₁ := h.found hback hfound
    have hopen₁ : opened b₁.diskManager file := hback.found_opened hfound ▸ hopen
    obtain ⟨d', hw', hself, hother, _⟩ :=
      LawfulPageDisk.write (k := ⟨file, b.nextPageId⟩) Block.zero hopen₁
    cases hw'.symm.trans hw
    exact h₁.write hself hother

theorem flushPage (h : Written b.diskManager store) (hback : Backs b none held pending store)
    {file : FileId} {page : PageId} {r : Bool} (hr : b.flushPage file page = .ok (r, b')) :
    Written b'.diskManager store := by
  rcases flushPage_cases b file page with ⟨_, m, he, _⟩ | ⟨_, he⟩ | ⟨f, d, hk, hw, he⟩
  · cases he.symm.trans hr
  · cases he.symm.trans hr
    exact h
  · cases he.symm.trans hr
    exact h.writes hback hk hw

theorem flushFrames (h : Written b.diskManager store) (hback : Backs b none held pending store)
    {fs : List FrameId} (hlt : ∀ f ∈ fs, f < b.frameCount)
    (hr : fs.foldlM flushFrame b = .ok b') : Written b'.diskManager store := by
  induction fs generalizing b with
  | nil =>
      cases hr
      exact h
  | cons f fs ih =>
      rw [List.foldlM_cons] at hr
      obtain ⟨b₁, hf, hrest⟩ := bind_eq_ok.mp hr
      have hf_lt := hlt f List.mem_cons_self
      obtain ⟨b₂, hf', hback₁, hfl⟩ := hback.flushFrame hf_lt
      cases hf'.symm.trans hf
      have hcount : b₁.frameCount = b.frameCount := congrArg trunc32 hfl.poolSize
      refine ih ?_ hback₁ (fun g hg => hcount ▸ hlt g (List.mem_cons_of_mem f hg)) hrest
      rcases flushFrame_cases b f with ⟨m, he, _⟩ | ⟨he, _⟩ | ⟨d, hp, _, hw, he⟩
      · cases he.symm.trans hf
      · cases he.symm.trans hf
        exact h
      · cases he.symm.trans hf
        exact h.writes hback (hback.structural.resident_of_page hf_lt hp).table hw

end Written

/-- A page that is pinned stays. Any other is out of the pool, and is from now on what the disk has
of it. -/
theorem Backs.deletePage (h : Backs b none held pending store) (k : PageKey) :
    (0 < held k ∧ b.deletePage k.fileId k.pageId = .ok (false, b)) ∨
      held k = 0 ∧ ∃ b', b.deletePage k.fileId k.pageId = .ok (true, b') ∧
        (store k ≠ none → Backs b' none held pending
          (Function.update store k (content b.diskManager k))) ∧
        (∀ k', k' ≠ k → b'.pageTable k' = b.pageTable k') ∧
        b'.poolSize = b.poolSize ∧ b'.nextPageId = b.nextPageId ∧ b'.diskManager = b.diskManager := by
  obtain ⟨r, b', hr, hs⟩ := h.structural.deletePage k.fileId k.pageId
  cases hk : b.pageTable k with
  | none =>
      have he : b.deletePage k.fileId k.pageId = .ok (true, b) := by
        unfold BufferPoolManager.deletePage
        simp only [hk]
      refine .inr ⟨h.unpinned k hk, b, he, fun hstore => ?_, fun _ _ => rfl, rfl, rfl, rfl⟩
      obtain ⟨data, hdata⟩ := Option.ne_none_iff_exists'.mp hstore
      rw [h.on_disk k data hdata (fun f hf => by rw [hk] at hf; cases hf), ← hdata,
        Function.update_eq_self]
      exact h
  | some f =>
      have hpin := h.pinned k f hk
      have hflow := h.low k f hk
      by_cases hpos : (b.pages f).pinCount > 0
      · refine .inl ⟨by omega, ?_⟩
        unfold BufferPoolManager.deletePage
        simp only [hk]
        exact if_pos hpos
      · have hheld : held k = 0 := by omega
        have hb := hr
        unfold BufferPoolManager.deletePage at hb
        simp only [hk, if_neg hpos] at hb
        obtain ⟨q, _, hrest⟩ := bind_eq_ok.mp hb
        cases hrest
        have hout : ∀ k', k' ≠ k → Function.update b.pageTable k none k' = b.pageTable k' :=
          fun k' hne => Function.update_of_ne hne _ _
        have hself : Function.update b.pageTable k none k = none := Function.update_self _ _ _
        refine .inr ⟨hheld, _, hr, fun hstore => ?_, hout, rfl, rfl, rfl⟩
        have hold : ∀ {k' g}, Function.update b.pageTable k none k' = some g →
            k' ≠ k ∧ g ≠ f ∧ b.pageTable k' = some g := by
          intro k' g hg
          have hne : k' ≠ k := by
            rintro rfl
            rw [hself] at hg
            cases hg
          rw [hout k' hne] at hg
          exact ⟨hne, fun hgf => hne (h.structural.table_inj (hgf ▸ hg) hk), hg⟩
        have hpage : ∀ g, g ≠ f → Function.update b.pages f Page.empty g = b.pages g :=
          fun g hg => Function.update_of_ne hg _ _
        constructor
        case structural => exact hs
        case low => exact fun k' g hg => h.low k' g (hold hg).2.2
        case pinned =>
          intro k' g hg
          obtain ⟨_, hgf, hg⟩ := hold hg
          show ((Function.update b.pages f Page.empty g).pinCount : Int) = held k'
          rw [hpage g hgf]
          exact h.pinned k' g hg
        case unpinned =>
          intro k' hk'
          by_cases hkk : k' = k
          · rw [hkk, hheld]
          · exact h.unpinned k' ((hout k' hkk).symm.trans hk')
        case bytes =>
          intro k' g hg
          obtain ⟨hkk, hgf, hg⟩ := hold hg
          rw [Function.update_of_ne hkk, h.bytes k' g hg]
          show some (b.data g) = some ((b.setData f Block.zero).data g)
          rw [data_setData_of_ne hflow (h.low k' g hg) hgf]
        case on_disk =>
          intro k' data hdata hclean
          by_cases hkk : k' = k
          · rw [hkk, Function.update_self] at hdata
            rwa [hkk]
          · rw [Function.update_of_ne hkk] at hdata
            refine h.on_disk k' data hdata fun g hg => ?_
            obtain ⟨hdirty, hno⟩ := hclean g ((hout k' hkk).trans hg)
            have hgf : g ≠ f := fun hgf => hkk (h.structural.table_inj (hgf ▸ hg) hk)
            refine ⟨?_, hno⟩
            rw [← hpage g hgf]
            exact hdirty
        case opened => exact fun k' hk' => h.opened k' (stored_of_update hstore hk')
        case valid => exact fun k' hk' => h.valid k' (stored_of_update hstore hk')
        case pending_held => exact h.pending_held

end BufferPoolManager

namespace Client

/-- The runs of one client that deletes pages too. What the disk had of a page when the page was
deleted is in `erased`, until the client writes to the page. -/
inductive Deleting (poolSize : Nat) (d : δ) :
    Nat → Client δ → (PageKey → Option PageData) → Prop where
  | create : Deleting poolSize d 0
      { pool := BufferPoolManager.create poolSize d, pins := [], store := fun _ => none }
      fun _ => none
  | newPage {n c erased f page pool file} (h : Deleting poolSize d n c erased)
      (hn : n + 1 < invalidPageId) (hopen : opened c.pool.diskManager file)
      (hr : c.pool.newPage file = .ok (some (f, page), pool)) :
      Deleting poolSize d (n + 1)
        { pool
          pins := ⟨⟨file, page⟩, f, .fresh false⟩ :: c.pins
          store := Function.update c.store ⟨file, page⟩ (some Block.zero) } erased
  | newPageFull {n c erased pool file} (h : Deleting poolSize d n c erased)
      (hn : n + 1 < invalidPageId) (hopen : opened c.pool.diskManager file)
      (hr : c.pool.newPage file = .ok (none, pool)) :
      Deleting poolSize d (n + 1) { c with pool } erased
  | readPage {n c erased file page r pool} (h : Deleting poolSize d n c erased)
      (hk : c.store ⟨file, page⟩ ≠ none) (hr : c.pool.readPage file page = .ok (r, pool)) :
      Deleting poolSize d n
        { c with pool, pins := (r.map fun f => ⟨⟨file, page⟩, f, .read⟩).toList ++ c.pins } erased
  | writePage {n c erased file page r pool} (h : Deleting poolSize d n c erased)
      (hk : c.store ⟨file, page⟩ ≠ none) (hr : c.pool.writePage file page = .ok (r, pool)) :
      Deleting poolSize d n
        { c with pool, pins := (r.map fun f => ⟨⟨file, page⟩, f, .write⟩).toList ++ c.pins } erased
  | change {n c erased pre p post} (h : Deleting poolSize d n c erased)
      (hp : c.pins = pre ++ p :: post) (hkind : p.kind ≠ .read) (data : PageData) :
      Deleting poolSize d n
        { pool := c.pool.setData p.frame data
          pins := pre ++ p.touch :: post
          store := Function.update c.store p.key (some data) } (Function.update erased p.key none)
  | release {n c erased pre p post} (h : Deleting poolSize d n c erased)
      (hp : c.pins = pre ++ p :: post) (isDirty : Bool)
      (hdirty : p.kind = .fresh true → isDirty = true) :
      Deleting poolSize d n { c with pool := p.release c.pool isDirty, pins := pre ++ post } erased
  | flushPage {n c erased file page r pool} (h : Deleting poolSize d n c erased)
      (hr : c.pool.flushPage file page = .ok (r, pool)) :
      Deleting poolSize d n { c with pool } erased
  | flushAllPages {n c erased pool} (h : Deleting poolSize d n c erased)
      (hr : c.pool.flushAllPages = .ok pool) : Deleting poolSize d n { c with pool } erased
  | deletePage {n c erased file page pool} (h : Deleting poolSize d n c erased)
      (hk : c.store ⟨file, page⟩ ≠ none)
      (hr : c.pool.deletePage file page = .ok (true, pool)) :
      Deleting poolSize d n
        { c with
          pool
          store := Function.update c.store ⟨file, page⟩ (content c.pool.diskManager ⟨file, page⟩) }
        (Function.update erased ⟨file, page⟩ (content c.pool.diskManager ⟨file, page⟩))
  | deletePagePinned {n c erased file page pool} (h : Deleting poolSize d n c erased)
      (hr : c.pool.deletePage file page = .ok (false, pool)) :
      Deleting poolSize d n { c with pool } erased

/-- The client's invariant; the disk has every page, and what was erased is what is stored. -/
structure Erases (poolSize n : Nat) (c : Client δ) (erased : PageKey → Option PageData) : Prop where
  invariant : Invariant poolSize n c
  written : Written c.pool.diskManager c.store
  erased : ∀ k bytes, erased k = some bytes → c.store k = some bytes

variable {poolSize n : Nat} {d : δ} {c : Client δ} {erased : PageKey → Option PageData}

theorem Invariant.fresh (h : Invariant poolSize n c) {file : FileId} {f : FrameId} {page : PageId}
    {pool : BufferPoolManager δ} (hr : c.pool.newPage file = .ok (some (f, page), pool)) :
    c.store ⟨file, page⟩ = none := by
  rcases newPage_cases h.backs.structural file with ⟨m, he, _⟩ | ⟨he, _⟩ | ⟨g, b₁, d, _, _, he⟩
  · cases he.symm.trans hr
  · cases he.symm.trans hr
  · cases he.symm.trans hr
    by_contra hne
    exact Nat.lt_irrefl _ (h.store_lt _ hne)

theorem Invariant.deletePage (h : Invariant poolSize n c) {file : FileId} {page : PageId}
    {pool : BufferPoolManager δ} (hk : c.store ⟨file, page⟩ ≠ none)
    (hr : c.pool.deletePage file page = .ok (true, pool)) :
    pool.diskManager = c.pool.diskManager ∧ Invariant poolSize n
      { c with
        pool
        store := Function.update c.store ⟨file, page⟩
          (content c.pool.diskManager ⟨file, page⟩) } := by
  rcases h.backs.deletePage ⟨file, page⟩ with ⟨_, he⟩ |
    ⟨hheld, b', he, hback, htable, hsize, hnext, hdisk⟩
  · cases he.symm.trans hr
  · cases he.symm.trans hr
    refine ⟨hdisk, hback hk, fun p hp => ?_, hsize.trans h.poolSize, hnext ▸ h.next_le,
      fun k hk' => ?_, h.calls⟩
    · have hne : p.key ≠ ⟨file, page⟩ := by
        intro hpk
        have := held_pos hp
        rw [hpk, hheld] at this
        exact Nat.lt_irrefl 0 this
      exact (htable p.key hne).trans (h.frames p hp)
    · exact hnext ▸ h.store_lt k (stored_of_update hk hk')

theorem Deleting.erases (hsize : trunc32 poolSize ≤ frameLimit)
    (h : Deleting poolSize d n c erased) : Erases poolSize n c erased := by
  induction h with
  | create => exact ⟨.create, fun k hk => absurd rfl hk, nofun⟩
  | @newPage n c erased f page pool file h hn hopen hr ih =>
      have hinv := ih.invariant.newPage (fun _ hg => ih.invariant.head_low hsize hg) hn hopen hr
      rcases ih.written.newPage ih.invariant.backs hopen hr with ⟨hnone, _⟩ | ⟨g, q, hsome, hw⟩
      · cases hnone
      · cases hsome
        refine ⟨hinv, hw, fun k bytes hk => ?_⟩
        have hstore := ih.erased k bytes hk
        have hkk : k ≠ ⟨file, page⟩ := by
          rintro rfl
          have hfresh := ih.invariant.fresh hr
          rw [hstore] at hfresh
          cases hfresh
        exact (Function.update_of_ne hkk _ _).trans hstore
  | newPageFull h hn hopen hr ih =>
      have hinv := ih.invariant.newPage (fun _ hg => ih.invariant.head_low hsize hg) hn hopen hr
      rcases ih.written.newPage ih.invariant.backs hopen hr with ⟨_, hw⟩ | ⟨g, q, hsome, _⟩
      · exact ⟨hinv, hw, ih.erased⟩
      · cases hsome
  | readPage h hk hr ih =>
      exact ⟨ih.invariant.fetchPage hsize hk .read hr,
        ih.written.fetchPage ih.invariant.backs hk hr, ih.erased⟩
  | writePage h hk hr ih =>
      exact ⟨ih.invariant.fetchPage hsize hk .write hr,
        ih.written.fetchPage ih.invariant.backs hk hr, ih.erased⟩
  | @change n c erased pre p post h hp hkind data ih =>
      have hmem : p ∈ c.pins := by rw [hp]; simp
      have hstore := ih.invariant.backs.store_ne (ih.invariant.frames p hmem)
      refine ⟨ih.invariant.change hp hkind data,
        fun k hk => ih.written k (stored_of_update hstore hk), fun k bytes hk => ?_⟩
      have hkk : k ≠ p.key := by
        rintro rfl
        rw [Function.update_self] at hk
        cases hk
      rw [Function.update_of_ne hkk] at hk
      exact (Function.update_of_ne hkk _ _).trans (ih.erased k bytes hk)
  | @release n c erased pre p post h hp isDirty hdirty ih =>
      refine ⟨ih.invariant.release hp isDirty hdirty, ih.written.congr ?_, ih.erased⟩
      have hmem : p ∈ c.pins := by rw [hp]; simp
      obtain ⟨dirty, hrel, _⟩ := ih.invariant.release_eq hmem isDirty
      show content (p.release c.pool isDirty).diskManager = _
      rw [hrel, unpinPage_disk]
  | flushPage h hr ih =>
      obtain ⟨r', b', hr', hback, htable, hsize, hnext⟩ := ih.invariant.backs.flushPage _ _
      cases hr'.symm.trans hr
      exact ⟨ih.invariant.setPool hback htable hsize hnext,
        ih.written.flushPage ih.invariant.backs hr, ih.erased⟩
  | flushAllPages h hr ih =>
      obtain ⟨b', hr', hback, htable, hsize, _, hnext, _⟩ := ih.invariant.backs.flushAllPages
      cases hr'.symm.trans hr
      exact ⟨ih.invariant.setPool hback htable hsize hnext,
        ih.written.flushFrames ih.invariant.backs (fun _ hf => List.mem_range.mp hf) hr, ih.erased⟩
  | @deletePage n c erased file page pool h hk hr ih =>
      obtain ⟨hdisk, hinv⟩ := ih.invariant.deletePage hk hr
      refine ⟨hinv, fun k hk' => ?_, fun k bytes hk' => ?_⟩
      · show content pool.diskManager k ≠ none
        rw [hdisk]
        exact ih.written k (stored_of_update hk hk')
      · show Function.update c.store ⟨file, page⟩ _ k = some bytes
        by_cases hkk : k = ⟨file, page⟩
        · rw [hkk, Function.update_self] at hk' ⊢
          exact hk'
        · rw [Function.update_of_ne hkk] at hk' ⊢
          exact ih.erased k bytes hk'
  | @deletePagePinned n c erased file page pool h hr ih =>
      rcases ih.invariant.backs.deletePage ⟨file, page⟩ with ⟨_, he⟩ | ⟨_, b', he, _⟩
      · cases he.symm.trans hr
        exact ih
      · cases he.symm.trans hr

/-- With at most 1048576 frames, a page that was deleted and not written since shows what the disk
had of it, wherever the page was when it was deleted. It is all zeros if and only if that is. -/
theorem deleting_shows_disk (poolSize : Nat) (hsize : trunc32 poolSize ≤ frameLimit) (d : δ)
    (n : Nat) (c : Client δ) (erased : PageKey → Option PageData)
    (h : Deleting poolSize d n c erased) :
    ∀ p ∈ c.pins, ∀ bytes, erased p.key = some bytes →
      c.pool.data p.frame = bytes ∧ (c.pool.data p.frame = Block.zero ↔ bytes = Block.zero) := by
  intro p hp bytes hbytes
  have he := h.erases hsize
  have hdata : c.pool.data p.frame = bytes := by
    have hshown := he.invariant.backs.bytes _ _ (he.invariant.frames p hp)
    exact Option.some.inj (hshown.symm.trans (he.erased _ bytes hbytes))
  exact ⟨hdata, by rw [hdata]⟩

theorem deleting_shows_disk_zero : ∃ c erased, Deleting 1 Disk.PageMap.zero 1 c erased ∧
    ∃ p ∈ c.pins, erased p.key = some Block.zero ∧ c.pool.data p.frame = Block.zero := by
  have h₁ := @Deleting.newPage _ _ _ 1 Disk.PageMap.zero _ _ _ _ _ _ 0 .create (by decide) trivial rfl
  have h₂ := Deleting.change h₁ (List.nil_append _).symm (by decide) ones
  have h₃ := Deleting.release h₂ (List.nil_append _).symm true (fun _ => rfl)
  have h₄ := @Deleting.deletePage _ _ _ _ _ _ _ _ 0 0 _ h₃ (by decide) rfl
  have h₅ := @Deleting.readPage _ _ _ _ _ _ _ _ 0 0 (some 0) _ h₄ (by decide) rfl
  have hshown := deleting_shows_disk 1 (by decide) Disk.PageMap.zero 1 _ _ h₅ ⟨⟨0, 0⟩, 0, .read⟩
    (by decide) Block.zero rfl
  exact ⟨_, _, h₅, _, by decide, rfl, hshown.1⟩

/-- Two runs that differ in a flush. A page of ones that was flushed is still there after it was
deleted; one that was not is gone. -/
theorem deleted_page_shown : (∃ c erased, Deleting 1 Disk.PageMap.zero 1 c erased ∧
      ∃ p ∈ c.pins, erased p.key ≠ none ∧ c.pool.data p.frame = ones) ∧
    ∃ c erased, Deleting 1 Disk.PageMap.zero 1 c erased ∧
      ∃ p ∈ c.pins, erased p.key ≠ none ∧ c.pool.data p.frame = Block.zero := by
  have h₁ := @Deleting.newPage _ _ _ 1 Disk.PageMap.zero _ _ _ _ _ _ 0 .create (by decide) trivial rfl
  have h₂ := Deleting.change h₁ (List.nil_append _).symm (by decide) ones
  have h₃ := Deleting.release h₂ (List.nil_append _).symm true (fun _ => rfl)
  constructor
  · have h₄ := @Deleting.flushPage _ _ _ _ _ _ _ _ 0 0 true _ h₃ rfl
    have h₅ := @Deleting.deletePage _ _ _ _ _ _ _ _ 0 0 _ h₄ (by decide) rfl
    have h₆ := @Deleting.readPage _ _ _ _ _ _ _ _ 0 0 (some 0) _ h₅ (by decide) rfl
    exact ⟨_, _, h₆, ⟨⟨0, 0⟩, 0, .read⟩, by decide, by decide, rfl⟩
  · have h₄ := @Deleting.deletePage _ _ _ _ _ _ _ _ 0 0 _ h₃ (by decide) rfl
    have h₅ := @Deleting.readPage _ _ _ _ _ _ _ _ 0 0 (some 0) _ h₄ (by decide) rfl
    exact ⟨_, _, h₅, ⟨⟨0, 0⟩, 0, .read⟩, by decide, by decide, rfl⟩

end Client

end TurtleDb.Buffer
