import Mathlib.Data.List.Nodup
import TurtleDb.Buffer.Lemmas.Contents

/-!
# The pool under a client that deletes no pages

Such a client takes the frames of a new pool in their order, so the frames in use have bytes of
their own as long as the pool, or the number of pages it stores, is at most `frameLimit`. One
theorem for each call of a page guard says how pins and map change.
-/

namespace TurtleDb.Buffer.BufferPoolManager

open TurtleDb.Lib LawfulPageDisk

/-- The frames are those of before, and the pinned pages have not moved. -/
structure Steady {δ : Type} (b b' : BufferPoolManager δ) (held : PageKey → Nat) : Prop where
  frameCount : b'.frameCount = b.frameCount
  table : ∀ k f, 0 < held k → b.pageTable k = some f → b'.pageTable k = some f

/-- A frame that has no page, or one that is not pinned. -/
structure Obtainable {δ : Type} (b : BufferPoolManager δ) (held : PageKey → Nat) (f : FrameId) :
    Prop where
  lt : f < b.frameCount
  idle : ∀ k, b.pageTable k = some f → held k = 0

/-- The store can take `n` more pages before a frame shares its bytes with another. -/
def RoomFor (frameCount : Nat) (store : PageKey → Option PageData) (n : Nat) : Prop :=
  frameCount ≤ frameLimit ∨ ∃ keys : List PageKey,
    (∀ k, store k ≠ none → k ∈ keys) ∧ keys.length + n ≤ frameLimit

section
variable {δ : Type} {b b' b₁ : BufferPoolManager δ} {held : PageKey → Nat} {f : FrameId}
  {store store' : PageKey → Option PageData} {k : PageKey} {m n : Nat}

theorem Steady.refl (b : BufferPoolManager δ) (held : PageKey → Nat) : Steady b b held :=
  ⟨rfl, fun _ _ _ hf => hf⟩

theorem Steady.trans (h : Steady b b₁ held) (h' : Steady b₁ b' held) : Steady b b' held :=
  ⟨h'.frameCount.trans h.frameCount, fun k f hk hf => h'.table k f hk (h.table k f hk hf)⟩

theorem AllPinned.not_obtainable (h : AllPinned b held) : ¬ Obtainable b held f := by
  intro hf
  obtain ⟨k, hk, hpin⟩ := h f hf.lt
  rw [hf.idle k hk] at hpin
  exact Nat.lt_irrefl 0 hpin

theorem RoomFor.mono (h : RoomFor m store n) (hsub : ∀ k, store' k ≠ none → store k ≠ none) :
    RoomFor m store' n := by
  rcases h with h | ⟨keys, hkeys, hlen⟩
  · exact .inl h
  · exact .inr ⟨keys, fun k hk => hkeys k (hsub k hk), hlen⟩

theorem RoomFor.add (h : RoomFor m store (n + 1)) (k : PageKey) (data : Option PageData) :
    RoomFor m (Function.update store k data) n := by
  rcases h with h | ⟨keys, hkeys, hlen⟩
  · exact .inl h
  · refine .inr ⟨k :: keys, fun k' hk' => ?_, by rw [List.length_cons]; omega⟩
    by_cases he : k' = k
    · exact he ▸ List.mem_cons_self
    · rw [Function.update_of_ne he] at hk'
      exact List.mem_cons_of_mem _ (hkeys k' hk')

end

variable {δ : Type} [PageDisk δ] [LawfulPageDisk δ]

/-- The pool stores `store`, and the free frames are the last ones. -/
structure Pool (b : BufferPoolManager δ) (held : PageKey → Nat) (pending : PageKey → Prop)
    (store : PageKey → Option PageData) : Prop where
  backs : Backs b none held pending store
  spare : ∃ m, b.freeFrames = List.range' m (b.frameCount - m)
  room : RoomFor b.frameCount store 0

/-- After a call that has given back its pins, on a pool that now stores `store`. -/
structure Kept (b b' : BufferPoolManager δ) (held : PageKey → Nat) (pending : PageKey → Prop)
    (store : PageKey → Option PageData) : Prop where
  pool : Pool b' held pending store
  steady : Steady b b' held
  next : b'.nextPageId = b.nextPageId

variable {b b' b₁ : BufferPoolManager δ} {held : PageKey → Nat} {pending P : PageKey → Prop}
  {store store' : PageKey → Option PageData} {k : PageKey} {f : FrameId} {data : PageData}

theorem Kept.trans (h : Kept b b₁ held pending store) (h' : Kept b₁ b' held pending store') :
    Kept b b' held pending store' :=
  ⟨h'.pool, h.steady.trans h'.steady, h'.next.trans h.next⟩

/-- The pages in the frames below the first free one, and some that are in no frame. -/
theorem Backs.residents_le (h : Backs b none held pending store) {m : Nat}
    (hfree : b.freeFrames = List.range' m (b.frameCount - m)) (hm : m ≤ b.frameCount)
    {keys extra : List PageKey} (hkeys : ∀ k, store k ≠ none → k ∈ keys) (hnodup : extra.Nodup)
    (hextra : ∀ k ∈ extra, b.pageTable k = none ∧ k ∈ keys) :
    m + extra.length ≤ keys.length := by
  have hres : ∀ g < m, b.Resident g := by
    intro g hg
    rcases h.structural.frames g (Nat.lt_of_lt_of_le hg hm) (by simp) with hf | hf
    · have hmem := hf.mem
      rw [hfree, List.mem_range'_1] at hmem
      omega
    · exact hf
  have hall : ((List.range m).map (fun g => (b.pages g).key) ++ extra).Nodup := by
    refine List.nodup_append'.mpr ⟨?_, hnodup, ?_⟩
    · refine List.Nodup.map_on (fun g hg g' hg' he => ?_) List.nodup_range
      have ht := (hres g (List.mem_range.mp hg)).table
      rw [he, (hres g' (List.mem_range.mp hg')).table] at ht
      exact (Option.some.inj ht).symm
    · intro k hk hk'
      obtain ⟨g, hg, rfl⟩ := List.mem_map.mp hk
      have hnone := (hextra _ hk').1
      rw [(hres g (List.mem_range.mp hg)).table] at hnone
      cases hnone
  have hsub : ((List.range m).map (fun g => (b.pages g).key) ++ extra) ⊆ keys := by
    intro k hk
    rcases List.mem_append.mp hk with hk | hk
    · obtain ⟨g, hg, rfl⟩ := List.mem_map.mp hk
      exact hkeys _ (h.store_ne (hres g (List.mem_range.mp hg)).table)
    · exact (hextra k hk).2
  simpa using (List.subperm_of_subset hall hsub).length_le

namespace Pool

theorem create (poolSize : Nat) (d : δ) :
    Pool (BufferPoolManager.create poolSize d) (fun _ => 0) (fun _ => False) fun _ => none where
  backs := .create poolSize d
  spare := ⟨0, List.range_eq_range'⟩
  room := .inr ⟨[], fun _ h => absurd rfl h, Nat.zero_le _⟩

/-- A new pool over a disk that has pages already. -/
theorem createOver (poolSize : Nat) (d : δ)
    (hdisk : ∀ k data, store k = some data → content d k = some data)
    (hopen : ∀ k, store k ≠ none → opened d k.fileId)
    (hvalid : ∀ k, store k ≠ none → k.pageId ≠ invalidPageId)
    (hroom : RoomFor (BufferPoolManager.create poolSize d).frameCount store 0) :
    Pool (BufferPoolManager.create poolSize d) (fun _ => 0) (fun _ => False) store where
  backs := .createOver poolSize d hdisk hopen hvalid
  spare := ⟨0, List.range_eq_range'⟩
  room := hroom

theorem head_low (h : Pool b held pending store) {extra : List PageKey} (hnodup : extra.Nodup)
    (hextra : ∀ k ∈ extra, b.pageTable k = none ∧ store k ≠ none) {n : Nat}
    (hroom : RoomFor b.frameCount store n) (hpos : 0 < extra.length + n) (g : FrameId)
    (hg : b.freeFrames.head? = some g) : g < frameLimit := by
  obtain ⟨m, hfree⟩ := h.spare
  have hlt : m < b.frameCount ∧ g = m := by
    rw [hfree] at hg
    cases hn : b.frameCount - m with
    | zero =>
        rw [hn] at hg
        cases hg
    | succ n =>
        rw [hn, List.range'_succ] at hg
        exact ⟨by omega, (Option.some.inj hg).symm⟩
  rw [hlt.2]
  show m < frameLimit
  rcases hroom with hroom | ⟨keys, hkeys, hlen⟩
  · omega
  · have hle := h.backs.residents_le hfree (Nat.le_of_lt hlt.1) hkeys hnodup fun k hk =>
      ⟨(hextra k hk).1, hkeys k (hextra k hk).2⟩
    omega

theorem undisturbed_spare (h : Pool b held pending store) (hu : Undisturbed b b' held) :
    (∃ m, b'.freeFrames = List.range' m (b'.frameCount - m)) ∧ Steady b b' held := by
  have hcount : b'.frameCount = b.frameCount := congrArg trunc32 hu.poolSize
  refine ⟨?_, hcount, hu.table⟩
  obtain ⟨m, hfree⟩ := h.spare
  rw [hcount]
  rcases hu.free with hf | hf
  · exact ⟨m, hf.trans hfree⟩
  · rw [hfree] at hf
    cases hn : b.frameCount - m with
    | zero =>
        rw [hn] at hf
        exact ⟨m, hf.trans (by rw [hn]; rfl)⟩
    | succ n =>
        rw [hn, List.range'_succ, List.tail_cons] at hf
        refine ⟨m + 1, hf.trans ?_⟩
        congr 1
        omega

/-! ## Frames that can be had -/

theorem obtainable_steady (h : Pool b held pending store) (hs : Steady b b' held)
    (ho : Obtainable b held f) : Obtainable b' held f := by
  refine ⟨hs.frameCount ▸ ho.lt, fun k hk => ?_⟩
  by_contra hne
  obtain ⟨g, hg⟩ := h.backs.resident (Nat.pos_of_ne_zero hne)
  have hg' := hs.table k g (Nat.pos_of_ne_zero hne) hg
  cases hg'.symm.trans hk
  exact hne (ho.idle k hg)

/-- Of two obtainable frames one is left when a page gets pinned. -/
theorem obtainable_pinned (h : Pool b held pending store) (hs : Steady b b' held) {g : FrameId}
    (hf : Obtainable b held f) (hg : Obtainable b held g) (hne : f ≠ g) (n : Nat) :
    ∃ f', Obtainable b' (Function.update held k n) f' := by
  have key : ∀ f', Obtainable b held f' → b'.pageTable k ≠ some f' →
      Obtainable b' (Function.update held k n) f' := by
    intro f' ho hk
    refine ⟨hs.frameCount ▸ ho.lt, fun k' hk' => ?_⟩
    have hkk : k' ≠ k := fun he => hk (he ▸ hk')
    rw [Function.update_of_ne hkk]
    by_contra hheld
    obtain ⟨e, he⟩ := h.backs.resident (Nat.pos_of_ne_zero hheld)
    have he' := hs.table k' e (Nat.pos_of_ne_zero hheld) he
    cases he'.symm.trans hk'
    exact hheld (ho.idle k' he)
  by_cases hk : b'.pageTable k = some f
  · exact ⟨g, key g hg fun he => hne (Option.some.inj (hk.symm.trans he))⟩
  · exact ⟨f, key f hf hk⟩

/-! ## The calls -/

theorem fetchPage (h : Pool b held pending store) (hk : store k = some data)
    (hmax : held k ≠ 2147483647) :
    (b.fetchPage k.fileId k.pageId = .ok (none, b) ∧ AllPinned b held) ∨
      ∃ f b', b.fetchPage k.fileId k.pageId = .ok (some f, b') ∧
        Pool b' (Function.update held k (held k + 1)) pending store ∧
        b'.pageTable k = some f ∧ b'.nextPageId = b.nextPageId ∧ Steady b b' held := by
  have hne : store k ≠ none := by rw [hk]; simp
  have hlow : b.pageTable k = none → ∀ g, b.freeFrames.head? = some g → g < frameLimit := by
    intro hnone
    refine h.head_low (List.nodup_singleton k) (fun k' hk' => ?_) h.room (by simp)
    rw [List.mem_singleton.mp hk']
    exact ⟨hnone, hne⟩
  rcases h.backs.fetchPage hk hmax hlow with ⟨he, hall, _⟩ | ⟨f, b', he, hb, hf, hnext, hu⟩
  · exact .inl ⟨he, hall⟩
  · obtain ⟨hspare, hsteady⟩ := h.undisturbed_spare hu
    refine .inr ⟨f, b', he, ⟨hb, hspare, ?_⟩, hf, hnext, hsteady⟩
    rw [hsteady.frameCount]
    exact h.room

theorem newPage (h : Pool b held pending store) {file : FileId}
    (hfresh : store ⟨file, b.nextPageId⟩ = none) (hvalid : b.nextPageId ≠ invalidPageId)
    (hopen : opened b.diskManager file) (hroom : RoomFor b.frameCount store 1) :
    (b.newPage file = .ok (none, b) ∧ AllPinned b held) ∨
      ∃ f b', b.newPage file = .ok (some (f, b.nextPageId), b') ∧
        Pool b' (Function.update held ⟨file, b.nextPageId⟩ 1) pending
          (Function.update store ⟨file, b.nextPageId⟩ (some Block.zero)) ∧
        b'.pageTable ⟨file, b.nextPageId⟩ = some f ∧
        b'.nextPageId = add32 b.nextPageId 1 ∧ Steady b b' held := by
  have hlow := h.head_low List.nodup_nil (fun _ hk => absurd hk List.not_mem_nil) hroom (by simp)
  rcases h.backs.newPage hfresh hvalid hopen hlow with ⟨he, hall⟩ | ⟨f, b', he, hb, hf, hnext, hu⟩
  · exact .inl ⟨he, hall⟩
  · obtain ⟨hspare, hsteady⟩ := h.undisturbed_spare hu
    refine .inr ⟨f, b', he, ⟨hb, hspare, ?_⟩, hf, hnext, hsteady⟩
    rw [hsteady.frameCount]
    exact hroom.add _ _

theorem setData (h : Pool b held pending store) (hf : b.pageTable k = some f) (hk : 0 < held k)
    (data : PageData) :
    Pool (b.setData f data) held (fun k' => k' = k ∨ pending k')
      (Function.update store k (some data)) where
  backs := h.backs.setData hf hk data
  spare := h.spare
  room := h.room.mono fun k' hk' => by
    by_cases he : k' = k
    · rw [he]
      exact h.backs.store_ne hf
    · rwa [Function.update_of_ne he] at hk'

/-- A pin is taken off, as the one that was put on last. -/
theorem unpin (h : Pool b (Function.update held k (held k + 1)) pending store)
    (hf : b.pageTable k = some f) (dirty : Bool) (hheld : ∀ k', P k' → 0 < held k')
    (hpending : ∀ k', pending k' → P k' ∨ k' = k ∧ dirty = true) :
    Pool (b.unpinPage (b.pages f).fileId (b.pages f).pageId dirty).2 held P store ∧
      (b.unpinPage (b.pages f).fileId (b.pages f).pageId dirty).2.pageTable = b.pageTable ∧
      (b.unpinPage (b.pages f).fileId (b.pages f).pageId dirty).2.frameCount = b.frameCount ∧
      (b.unpinPage (b.pages f).fileId (b.pages f).pageId dirty).2.nextPageId = b.nextPageId ∧
      (b.unpinPage (b.pages f).fileId (b.pages f).pageId dirty).2.frameData = b.frameData := by
  have hkey : (b.pages f).key = k := h.backs.structural.key_of_table hf
  have hback : Function.update (Function.update held k (held k + 1)) k
      (Function.update held k (held k + 1) k - 1) = held := by
    rw [Function.update_idem, Function.update_self, Nat.add_sub_cancel, Function.update_eq_self]
  have hpos : 0 < Function.update held k (held k + 1) k := by
    rw [Function.update_self]
    exact Nat.succ_pos _
  obtain ⟨b', he, hb, htable, hfree, hsize, hnext, hdata⟩ :=
    h.backs.unpinPage hpos dirty (P := P) (by rw [hback]; exact hheld) hpending
  rw [hback] at hb
  have hcount : b'.frameCount = b.frameCount := congrArg trunc32 hsize
  have hcall : (b.unpinPage (b.pages f).fileId (b.pages f).pageId dirty).2 = b' := by
    rw [← hkey] at he
    exact congrArg Prod.snd he
  rw [hcall]
  refine ⟨⟨hb, ?_, ?_⟩, htable, hcount, hnext, hdata⟩
  · rw [hfree, hcount]
    exact h.spare
  · rw [hcount]
    exact h.room

theorem data_eq (h : Pool b held pending store) (hk : store k = some data)
    (hf : b.pageTable k = some f) : b.data f = data := by
  have hbytes := h.backs.bytes k f hf
  rw [hk] at hbytes
  exact (Option.some.inj hbytes).symm

theorem held_eq_zero (h : Pool b held pending store) (hk : store k = none) : held k = 0 := by
  refine h.backs.unpinned k ?_
  by_contra hne
  obtain ⟨f, hf⟩ := Option.ne_none_iff_exists'.mp hne
  exact h.backs.store_ne hf hk

/-- A guard is dropped, with what was pending on its page no longer pending. -/
theorem drop (h : Pool b held pending store)
    (h₁ : Pool b₁ (Function.update held k (held k + 1)) P store') (hf : b₁.pageTable k = some f)
    (hs : Steady b b₁ held) (hnext : b₁.nextPageId = b.nextPageId) (dirty : Bool)
    (hP : ∀ k', P k' → pending k' ∨ k' = k ∧ dirty = true) :
    Kept b (b₁.unpinPage (b₁.pages f).fileId (b₁.pages f).pageId dirty).2 held pending store' := by
  obtain ⟨hp, htable, hcount, hnext', _⟩ := h₁.unpin (P := pending) hf dirty
    h.backs.pending_held hP
  refine ⟨hp, hs.trans ⟨hcount, fun k' g _ hg => ?_⟩, hnext'.trans hnext⟩
  rw [htable]
  exact hg

/-- A page is read, and its guard dropped. -/
theorem readPage (h : Pool b held pending store) (hk : store k = some data)
    (hmax : held k ≠ 2147483647) :
    (b.readPage k.fileId k.pageId = .ok (none, b) ∧ AllPinned b held) ∨
      ∃ f b₁, b.readPage k.fileId k.pageId = .ok (some f, b₁) ∧ b₁.data f = data ∧
        Kept b (ReadPageGuard.drop b₁ f) held pending store := by
  rcases h.fetchPage hk hmax with ⟨he, hall⟩ | ⟨f, b₁, he, h₁, hf, hnext, hs⟩
  · exact .inl ⟨he, hall⟩
  · exact .inr ⟨f, b₁, he, h₁.data_eq hk hf, h.drop h₁ hf hs hnext false fun _ hp => .inl hp⟩

/-- A page is written, or left as it was, and its guard dropped. -/
theorem writePage (h : Pool b held pending store) (hk : store k = some data)
    (hmax : held k ≠ 2147483647) :
    (b.writePage k.fileId k.pageId = .ok (none, b) ∧ AllPinned b held) ∨
      ∃ f b₁, b.writePage k.fileId k.pageId = .ok (some f, b₁) ∧ b₁.data f = data ∧
        (b₁.pages f).key = k ∧ Kept b (WritePageGuard.drop b₁ f) held pending store ∧
        ∀ data', Kept b (WritePageGuard.drop (b₁.setData f data') f) held pending
          (Function.update store k (some data')) := by
  rcases h.fetchPage hk hmax with ⟨he, hall⟩ | ⟨f, b₁, he, h₁, hf, hnext, hs⟩
  · exact .inl ⟨he, hall⟩
  · refine .inr ⟨f, b₁, he, h₁.data_eq hk hf, h₁.backs.structural.key_of_table hf,
      h.drop h₁ hf hs hnext true fun _ hp => .inl hp, fun data' => ?_⟩
    have hpos : 0 < Function.update held k (held k + 1) k := by
      rw [Function.update_self]
      exact Nat.succ_pos _
    have h₂ := h₁.setData hf hpos data'
    refine h.drop h₂ hf ⟨hs.frameCount, hs.table⟩ hnext true fun k' hp => ?_
    rcases hp with rfl | hp
    · exact .inr ⟨rfl, rfl⟩
    · exact .inl hp

/-- A new page is made, and its guard dropped with the bytes `data`. -/
theorem newPage_written (h : Pool b held pending store) {file : FileId}
    (hfresh : store ⟨file, b.nextPageId⟩ = none) (hvalid : b.nextPageId ≠ invalidPageId)
    (hopen : opened b.diskManager file) (hroom : RoomFor b.frameCount store 1) :
    (b.newPage file = .ok (none, b) ∧ AllPinned b held) ∨
      ∃ f b₁, b.newPage file = .ok (some (f, b.nextPageId), b₁) ∧ b₁.data f = Block.zero ∧
        ∀ data, Pool (WritePageGuard.drop (b₁.setData f data) f) held pending
            (Function.update store ⟨file, b.nextPageId⟩ (some data)) ∧
          Steady b (WritePageGuard.drop (b₁.setData f data) f) held ∧
          (WritePageGuard.drop (b₁.setData f data) f).nextPageId = add32 b.nextPageId 1 := by
  rcases h.newPage hfresh hvalid hopen hroom with ⟨he, hall⟩ | ⟨f, b₁, he, h₁, hf, hnext, hs⟩
  · exact .inl ⟨he, hall⟩
  generalize (⟨file, b.nextPageId⟩ : PageKey) = k at *
  refine .inr ⟨f, b₁, he, h₁.data_eq (Function.update_self _ _ _) hf, fun data => ?_⟩
  have h₂ := h₁.setData hf (by rw [Function.update_self]; exact Nat.one_pos) data
  have hzero : held k = 0 := h.held_eq_zero hfresh
  have hone : Function.update held k 1 = Function.update held k (held k + 1) := by rw [hzero]
  rw [Function.update_idem, hone] at h₂
  obtain ⟨h₃, htable, hcount, hnext₃, _⟩ := h₂.unpin (P := pending) hf true h.backs.pending_held (by
    rintro k' (rfl | hp)
    · exact .inr ⟨rfl, rfl⟩
    · exact .inl hp)
  refine ⟨h₃, ⟨hcount.trans hs.frameCount, fun k' g hk' hg => ?_⟩, hnext₃.trans hnext⟩
  have hg₁ := hs.table k' g hk' hg
  exact (congrFun htable k').trans hg₁

/-- A new page is made while a guard writes to page `k`; the guard is dropped with the bytes `data`,
and then the new page's with the bytes `data''`. -/
theorem newPage_writing (h : Pool b held pending store)
    (h₁ : Pool b₁ (Function.update held k (held k + 1)) (fun k' => k' = k ∨ pending k') store)
    (hf : b₁.pageTable k = some f) (hs : Steady b b₁ held)
    (hfresh : store ⟨k.fileId, b₁.nextPageId⟩ = none) (hvalid : b₁.nextPageId ≠ invalidPageId)
    (hroom : RoomFor b₁.frameCount store 1) :
    (b₁.newPage k.fileId = .ok (none, b₁) ∧
        ∀ f g, Obtainable b held f → Obtainable b held g → f = g) ∨
      ∃ g b₂, b₁.newPage k.fileId = .ok (some (g, b₁.nextPageId), b₂) ∧ b₂.data f = b₁.data f ∧
        (b₂.pages f).key = k ∧
        ∀ data, (b₂.setData f data).data g = Block.zero ∧ ∀ data', ∃ b₃,
          WritePageGuard.drop ((b₂.setData f data).setData g data') f = b₃ ∧ b₃.data g = data' ∧
          (b₃.pages g).key = ⟨k.fileId, b₁.nextPageId⟩ ∧
          ∀ data'', Pool (WritePageGuard.drop (b₃.setData g data'') g) held pending
              (Function.update (Function.update store k (some data)) ⟨k.fileId, b₁.nextPageId⟩
                (some data'')) ∧
            Steady b (WritePageGuard.drop (b₃.setData g data'') g) held ∧
            (WritePageGuard.drop (b₃.setData g data'') g).nextPageId = add32 b₁.nextPageId 1 := by
  have hself : Function.update held k (held k + 1) k = held k + 1 := Function.update_self _ _ _
  have hstore : store k ≠ none := h₁.backs.store_ne hf
  rcases h₁.newPage hfresh hvalid (h₁.backs.opened k hstore) hroom with ⟨he, hall⟩ |
    ⟨g, b₂, he, h₂, hg, hnext, hs₂⟩
  · refine .inl ⟨he, fun e e' ho ho' => ?_⟩
    by_contra hne
    obtain ⟨f', hf'⟩ := h.obtainable_pinned hs ho ho' hne (k := k) (held k + 1)
    exact hall.not_obtainable hf'
  · generalize hkn : (⟨k.fileId, b₁.nextPageId⟩ : PageKey) = kn at *
    have hkk : kn ≠ k := by
      rintro rfl
      exact hstore hfresh
    have hzero : held kn = 0 := by
      by_contra hne
      obtain ⟨e, he⟩ := h.backs.resident (Nat.pos_of_ne_zero hne)
      exact h.backs.store_ne he hfresh
    have hf₂ : b₂.pageTable k = some f := hs₂.table k f (by omega) hf
    have hheld : ∀ n n', Function.update (Function.update held k n) kn n' =
        Function.update (Function.update held kn n') k n := fun n n' =>
      Function.update_comm hkk.symm _ _ _
    refine .inr ⟨g, b₂, he, ?_, h₂.backs.structural.key_of_table hf₂, fun data => ?_⟩
    · have hdata := h₁.backs.bytes k f hf
      exact h₂.data_eq (by rw [Function.update_of_ne hkk.symm, hdata]) hf₂
    · have h₃ := h₂.setData hf₂ (by rw [Function.update_of_ne hkk.symm]; omega) data
      refine ⟨h₃.data_eq (k := kn) (by rw [Function.update_of_ne hkk, Function.update_self]) hg,
        fun data' => ⟨_, rfl, ?_⟩⟩
      have h₄ := h₃.setData (k := kn) hg (by rw [Function.update_self]; exact Nat.one_pos) data'
      rw [hheld] at h₄
      have hkh : held k + 1 = Function.update held kn 1 k + 1 := by
        rw [Function.update_of_ne hkk.symm]
      rw [hkh] at h₄
      obtain ⟨h₅, htable₅, hcount₅, hnext₅, _⟩ := h₄.unpin (P := fun k' => k' = kn ∨ pending k') hf₂
        true (by
          rintro k' (rfl | hp)
          · rw [Function.update_self]
            exact Nat.one_pos
          · have := h.backs.pending_held k' hp
            have hne : k' ≠ kn := by
              rintro rfl
              omega
            rwa [Function.update_of_ne hne])
        (by
          rintro k' (rfl | rfl | rfl | hp)
          · exact .inl (.inl rfl)
          · exact .inr ⟨rfl, rfl⟩
          · exact .inr ⟨rfl, rfl⟩
          · exact .inl (.inr hp))
      have hg₅ : (WritePageGuard.drop ((b₂.setData f data).setData g data') f).pageTable kn =
          some g := by
        unfold WritePageGuard.drop
        rw [htable₅]
        exact hg
      refine ⟨h₅.data_eq (Function.update_self _ _ _) hg₅, h₅.backs.structural.key_of_table hg₅,
        fun data'' => ?_⟩
      have h₆ := h₅.setData (k := kn) hg₅ (by rw [Function.update_self]; exact Nat.one_pos) data''
      have hone : Function.update held kn 1 = Function.update held kn (held kn + 1) := by rw [hzero]
      rw [hone] at h₆
      obtain ⟨h₇, htable₇, hcount₇, hnext₇, _⟩ := h₆.unpin (P := pending) hg₅ true
        h.backs.pending_held (by
          rintro k' (rfl | rfl | hp)
          · exact .inr ⟨rfl, rfl⟩
          · exact .inr ⟨rfl, rfl⟩
          · exact .inl hp)
      rw [Function.update_idem, Function.update_comm hkk, Function.update_idem] at h₇
      refine ⟨h₇, ⟨(hcount₇.trans hcount₅).trans (hs₂.frameCount.trans hs.frameCount), ?_⟩, ?_⟩
      · intro k' e hk' he'
        have hne : k' ≠ kn := by
          rintro rfl
          omega
        have he₂ : b₂.pageTable k' = some e := by
          refine hs₂.table k' e ?_ (hs.table k' e hk' he')
          by_cases hek : k' = k
          · rw [hek, hself]
            exact Nat.succ_pos _
          · rwa [Function.update_of_ne hek]
        unfold WritePageGuard.drop
        rw [htable₇]
        exact (congrFun htable₅ k').trans he₂
      · exact (hnext₇.trans hnext₅).trans hnext

end Pool

end TurtleDb.Buffer.BufferPoolManager
