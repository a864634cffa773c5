import TurtleDb.Buffer.Disks
import TurtleDb.Buffer.Lemmas.Structure

/-!
# What the pool stores

A pool over a lawful disk stands for a map from pages to bytes. A page that is in a frame has its
bytes there; a page that is in none, or in a clean frame that no one is writing to, has them on the
disk. One theorem for each operation says how pins and map change.
-/

namespace TurtleDb.Buffer.BufferPoolManager

open TurtleDb.Lib LawfulPageDisk

/-- `2 ^ 32 / PAGE_SIZE`: the frames below have offsets that did not wrap. -/
def frameLimit : Nat := 1048576

theorem frameOffset_inj {i j : Nat} (hi : i < frameLimit) (hj : j < frameLimit)
    (h : frameOffset i = frameOffset j) : i = j := by
  simp only [frameOffset, trunc32, word32, pageSize, frameLimit] at *
  omega

section
variable {δ : Type} {b : BufferPoolManager δ} {f g : FrameId}

@[simp] theorem data_setData_self (data : PageData) : (b.setData f data).data f = data :=
  Function.update_self _ _ _

theorem data_setData_of_offset (hne : frameOffset g ≠ frameOffset f) (data : PageData) :
    (b.setData f data).data g = b.data g := by
  show Function.update b.frameData (frameOffset f) data (frameOffset g) = b.frameData (frameOffset g)
  rw [Function.update_of_ne hne]

theorem data_setData_of_ne (hf : f < frameLimit) (hg : g < frameLimit) (hne : g ≠ f)
    (data : PageData) : (b.setData f data).data g = b.data g :=
  data_setData_of_offset (fun he => hne (frameOffset_inj hg hf he)) data

end

variable {δ : Type} [PageDisk δ] [LawfulPageDisk δ]

/-- The pool stores `store`, with `held` pins on each page. A client that changes the bytes of a
page without the dirty flag set yet has the page `pending`. -/
structure Backs (b : BufferPoolManager δ) (out : Option FrameId) (held : PageKey → Nat)
    (pending : PageKey → Prop) (store : PageKey → Option PageData) : Prop where
  structural : Structural b out
  low : ∀ k f, b.pageTable k = some f → f < frameLimit
  pinned : ∀ k f, b.pageTable k = some f → (b.pages f).pinCount = held k
  unpinned : ∀ k, b.pageTable k = none → held k = 0
  bytes : ∀ k f, b.pageTable k = some f → store k = some (b.data f)
  on_disk : ∀ k data, store k = some data →
    (∀ f, b.pageTable k = some f → (b.pages f).isDirty = false ∧ ¬ pending k) →
      content b.diskManager k = some data
  opened : ∀ k, store k ≠ none → opened b.diskManager k.fileId
  valid : ∀ k, store k ≠ none → k.pageId ≠ invalidPageId
  pending_held : ∀ k, pending k → 0 < held k

/-- Every frame has a page that is pinned. -/
def AllPinned (b : BufferPoolManager δ) (held : PageKey → Nat) : Prop :=
  ∀ f < b.frameCount, ∃ k, b.pageTable k = some f ∧ 0 < held k

/-- Pinned pages stay where they are, and at most the first free frame is taken. -/
structure Undisturbed (b b' : BufferPoolManager δ) (held : PageKey → Nat) : Prop where
  poolSize : b'.poolSize = b.poolSize
  table : ∀ k f, 0 < held k → b.pageTable k = some f → b'.pageTable k = some f
  free : b'.freeFrames = b.freeFrames ∨ b'.freeFrames = b.freeFrames.tail

namespace Backs

variable {b b' b₁ : BufferPoolManager δ} {out : Option FrameId} {held : PageKey → Nat}
  {pending : PageKey → Prop} {store : PageKey → Option PageData} {k : PageKey} {f : FrameId}

/-- A new pool stores what is on its disk. -/
theorem createOver (poolSize : Nat) (d : δ)
    (hdisk : ∀ k data, store k = some data → content d k = some data)
    (hopen : ∀ k, store k ≠ none → LawfulPageDisk.opened d k.fileId)
    (hvalid : ∀ k, store k ≠ none → k.pageId ≠ invalidPageId) :
    Backs (BufferPoolManager.create poolSize d) none (fun _ => 0) (fun _ => False) store := by
  constructor
  case structural => exact .create poolSize d
  case unpinned => exact fun _ _ => rfl
  case on_disk => exact fun k data hk _ => hdisk k data hk
  case opened => exact hopen
  case valid => exact hvalid
  case pending_held => exact fun _ h => h.elim
  all_goals exact fun _ _ h => by cases h

theorem create (poolSize : Nat) (d : δ) :
    Backs (BufferPoolManager.create poolSize d) none (fun _ => 0) (fun _ => False)
      fun _ => none :=
  .createOver poolSize d (fun _ _ h => by cases h) (fun _ h => absurd rfl h)
    fun _ h => absurd rfl h

theorem withNext (h : Backs b out held pending store) (next : PageId) :
    Backs { b with nextPageId := next } out held pending store where
  structural := h.structural.congr rfl rfl rfl rfl rfl
  low := h.low
  pinned := h.pinned
  unpinned := h.unpinned
  bytes := h.bytes
  on_disk := h.on_disk
  opened := h.opened
  valid := h.valid
  pending_held := h.pending_held

theorem morePending (h : Backs b out held pending store) {pending' : PageKey → Prop}
    (hmore : ∀ k, pending k → pending' k) (hheld : ∀ k, pending' k → 0 < held k) :
    Backs b out held pending' store where
  structural := h.structural
  low := h.low
  pinned := h.pinned
  unpinned := h.unpinned
  bytes := h.bytes
  on_disk := fun k data hk hclean => h.on_disk k data hk fun f hf =>
    ⟨(hclean f hf).1, fun hp => (hclean f hf).2 (hmore k hp)⟩
  opened := h.opened
  valid := h.valid
  pending_held := hheld

theorem resident (h : Backs b out held pending store) (hk : 0 < held k) :
    ∃ f, b.pageTable k = some f := by
  cases hf : b.pageTable k with
  | some f => exact ⟨f, rfl⟩
  | none =>
      rw [h.unpinned k hf] at hk
      exact absurd hk (Nat.lt_irrefl 0)

theorem store_ne (h : Backs b out held pending store) (hk : b.pageTable k = some f) :
    store k ≠ none := by
  rw [h.bytes k f hk]
  simp

/-- Bytes written to the disk arrive there, and no others change. -/
theorem writes (h : Backs b out held pending store) (hk : b.pageTable k = some f) :
    ∃ d, PageDisk.writePage b.diskManager (b.pages f).fileId (b.pages f).pageId (b.data f) = .ok d ∧
      content d k = some (b.data f) ∧
      (∀ k' bytes, k' ≠ k → content b.diskManager k' = some bytes → content d k' = some bytes) ∧
      LawfulPageDisk.opened d = LawfulPageDisk.opened b.diskManager := by
  have hkey := h.structural.key_of_table hk
  have hopen := h.opened k (h.store_ne hk)
  obtain ⟨d, hw, hself, hother, hopened⟩ := LawfulPageDisk.write (b.data f) hopen
  refine ⟨d, ?_, hself, hother, hopened⟩
  rw [← hkey] at hw
  exact hw

theorem findFrame_ne_error (h : Backs b none held pending store) (fault : Fault) :
    b.findFrame ≠ .error fault := by
  intro he
  rcases findFrame_cases h.structural with ⟨f, m, _, hf, hw⟩ | ⟨hf, _⟩ | ⟨f, b₁, hf, _⟩
  · obtain ⟨d, hd, _⟩ := h.writes hf.table
    cases hw.symm.trans hd
  · cases hf.symm.trans he
  · cases hf.symm.trans he

theorem allPinned (h : Backs b none held pending store) (hfree : b.freeFrames = [])
    (hflags : ∀ f, b.replacer.flags f ≠ some true) : AllPinned b held := by
  intro f hlt
  rcases h.structural.frames f hlt (by simp) with hf | hf
  · exact absurd hf.mem (by rw [hfree]; exact List.not_mem_nil)
  · refine ⟨_, hf.table, ?_⟩
    have hpin := h.pinned _ f hf.table
    have hne := hflags f
    rw [hf.tracked] at hne
    have : (b.pages f).pinCount ≠ 0 := fun hz => hne (by rw [hz]; rfl)
    omega

/-! ## A frame for a page -/

theorem found_opened (h : Backs b none held pending store) (hf : Found b b₁ f) :
    LawfulPageDisk.opened b₁.diskManager = LawfulPageDisk.opened b.diskManager := by
  rcases hf.disk with ⟨hd, _⟩ | ⟨hw, hvictim⟩
  · rw [hd]
  · obtain ⟨d, hd, _, _, hopened⟩ := h.writes hvictim
    cases hw.symm.trans hd
    exact hopened

/-- Finding a frame loses nothing: a dirty victim goes to the disk. -/
theorem found (h : Backs b none held pending store) (hf : Found b b₁ f) :
    Backs b₁ (some f) held pending store := by
  have htable : ∀ k g, b₁.pageTable k = some g → b.pageTable k = some g := by
    intro k g hg
    rw [hf.table] at hg
    split at hg
    next => cases hg
    next => exact hg
  have hdata : ∀ g, b₁.data g = b.data g := fun g => congrFun hf.frameData _
  have hidle : ∀ k, b.pageTable k = some f → held k = 0 := by
    intro k hk
    have hpin := h.pinned k f hk
    rw [hf.idle] at hpin
    omega
  have hnone : ∀ k, b₁.pageTable k = none → b.pageTable k = none ∨ b.pageTable k = some f := by
    intro k hk
    rw [hf.table] at hk
    split at hk
    next hk' => exact .inr hk'
    next => exact .inl hk
  constructor
  case structural => exact hf.structural
  case low => exact fun k g hg => h.low k g (htable k g hg)
  case pinned =>
    intro k g hg
    rw [hf.pages]
    exact h.pinned k g (htable k g hg)
  case unpinned =>
    intro k hk
    rcases hnone k hk with hk | hk
    · exact h.unpinned k hk
    · exact hidle k hk
  case bytes =>
    intro k g hg
    rw [hdata]
    exact h.bytes k g (htable k g hg)
  case on_disk =>
    intro k data hdata' hclean
    have hmem : b.pageTable k ≠ some f → content b.diskManager k = some data := by
      intro hk
      refine h.on_disk k data hdata' fun g hg => ?_
      have hg' : b₁.pageTable k = some g := by rw [hf.table, if_neg hk, hg]
      obtain ⟨hclean, hpending⟩ := hclean g hg'
      exact ⟨hf.pages ▸ hclean, hpending⟩
    rcases hf.disk with ⟨hd, hdirty⟩ | ⟨hw, hvictim⟩
    · rw [hd]
      by_cases hk : b.pageTable k = some f
      · refine h.on_disk k data hdata' fun g hg => ?_
        cases hk.symm.trans hg
        rw [h.structural.key_of_table hk] at hdirty
        refine ⟨hdirty hk, fun hp => ?_⟩
        exact absurd (h.pending_held k hp) (by rw [hidle k hk]; exact Nat.lt_irrefl 0)
      · exact hmem hk
    · obtain ⟨d, hd, hself, hother, _⟩ := h.writes hvictim
      cases hw.symm.trans hd
      by_cases hk : b.pageTable k = some f
      · have hkey := h.structural.key_of_table hk
        rw [hkey] at hself
        rw [hself, ← hdata', h.bytes k f hk]
      · refine hother k data ?_ (hmem hk)
        rintro rfl
        exact hk hvictim
  case opened =>
    intro k hk
    rw [h.found_opened hf]
    exact h.opened k hk
  case valid => exact h.valid
  case pending_held => exact h.pending_held

/-- A page goes into the frame: its bytes into memory, and they are on the disk. -/
theorem install (h : Backs b (some f) held pending store) (hlt : f < b.frameCount)
    (hlow : f < frameLimit) (hk : b.pageTable k = none) (hvalid : k.pageId ≠ invalidPageId)
    {data : PageData} {d : δ} (hself : content d k = some data)
    (hother : ∀ k' bytes, k' ≠ k → content b.diskManager k' = some bytes →
      content d k' = some bytes)
    (hopened : LawfulPageDisk.opened d = LawfulPageDisk.opened b.diskManager)
    (hopen : LawfulPageDisk.opened b.diskManager k.fileId) :
    Backs { (b.setData f data).install f k with diskManager := d } none
      (Function.update held k 1) pending (Function.update store k (some data)) := by
  have htable : ∀ k' g, Function.update b.pageTable k (some f) k' = some g →
      k' = k ∧ g = f ∨ k' ≠ k ∧ g ≠ f ∧ b.pageTable k' = some g := by
    intro k' g hg
    by_cases hk' : k' = k
    · rw [hk', Function.update_self] at hg
      exact .inl ⟨hk', (Option.some.inj hg).symm⟩
    · rw [Function.update_of_ne hk'] at hg
      exact .inr ⟨hk', fun he => (h.structural.table k' g hg).2.1 (congrArg some he), hg⟩
  have hpage : ∀ g, g ≠ f → ((b.setData f data).install f k).pages g = b.pages g := fun g hg =>
    Function.update_of_ne hg _ _
  have hnew : ((b.setData f data).install f k).pages f = ⟨k.fileId, k.pageId, 1, false⟩ :=
    Function.update_self _ _ _
  have hnot : ¬ pending k := fun hp => by
    have := h.pending_held k hp
    rw [h.unpinned k hk] at this
    exact Nat.lt_irrefl 0 this
  constructor
  case structural =>
    have hs : Structural (b.setData f data) (some f) := h.structural.congr rfl rfl rfl rfl rfl
    exact (hs.install hlt hk hvalid).congr rfl rfl rfl rfl rfl
  case low =>
    intro k' g hg
    rcases htable k' g hg with ⟨_, rfl⟩ | ⟨_, _, hg⟩
    · exact hlow
    · exact h.low k' g hg
  case pinned =>
    intro k' g hg
    rcases htable k' g hg with ⟨rfl, rfl⟩ | ⟨hk', hgf, hg⟩
    · rw [Function.update_self]
      exact congrArg Page.pinCount hnew
    · rw [Function.update_of_ne hk', ← h.pinned k' g hg]
      exact congrArg Page.pinCount (hpage g hgf)
  case unpinned =>
    intro k' hk'
    have hk' : Function.update b.pageTable k (some f) k' = none := hk'
    by_cases hkk : k' = k
    · rw [hkk, Function.update_self] at hk'
      cases hk'
    · rw [Function.update_of_ne hkk] at hk' ⊢
      exact h.unpinned k' hk'
  case bytes =>
    intro k' g hg
    rcases htable k' g hg with ⟨rfl, rfl⟩ | ⟨hk', hgf, hg⟩
    · rw [Function.update_self]
      exact congrArg some (data_setData_self data).symm
    · rw [Function.update_of_ne hk', h.bytes k' g hg]
      exact congrArg some (data_setData_of_ne hlow (h.low k' g hg) hgf data).symm
  case on_disk =>
    intro k' bytes hstore hclean
    by_cases hk' : k' = k
    · rw [hk', Function.update_self] at hstore
      rw [hk', ← hstore]
      exact hself
    · rw [Function.update_of_ne hk'] at hstore
      refine hother k' bytes hk' (h.on_disk k' bytes hstore fun g hg => ?_)
      have hgf : g ≠ f := fun he => (h.structural.table k' g hg).2.1 (congrArg some he)
      have hg' : Function.update b.pageTable k (some f) k' = some g := by
        rw [Function.update_of_ne hk', hg]
      obtain ⟨hclean, hpending⟩ := hclean g hg'
      exact ⟨(congrArg Page.isDirty (hpage g hgf)) ▸ hclean, hpending⟩
  case opened =>
    intro k' hk'
    show LawfulPageDisk.opened d k'.fileId
    rw [hopened]
    by_cases hkk : k' = k
    · rw [hkk]
      exact hopen
    · rw [Function.update_of_ne hkk] at hk'
      exact h.opened k' hk'
  case valid =>
    intro k' hk'
    by_cases hkk : k' = k
    · rw [hkk]
      exact hvalid
    · rw [Function.update_of_ne hkk] at hk'
      exact h.valid k' hk'
  case pending_held =>
    intro k' hp
    have hkk : k' ≠ k := fun he => hnot (he ▸ hp)
    rw [Function.update_of_ne hkk]
    exact h.pending_held k' hp

theorem found_low (h : Backs b none held pending store) (hf : Found b b₁ f)
    (hlow : ∀ g, b.freeFrames.head? = some g → g < frameLimit) : f < frameLimit := by
  cases hfree : b.freeFrames.head? with
  | some g => exact (hf.head g hfree) ▸ hlow g hfree
  | none =>
      have hnil : b.freeFrames = [] := List.head?_eq_none_iff.mp hfree
      rcases h.structural.frames f hf.lt (by simp) with hfr | hres
      · exact absurd hfr.mem (by rw [hnil]; exact List.not_mem_nil)
      · exact h.low _ f hres.table

theorem found_undisturbed (h : Backs b none held pending store) (hf : Found b b₁ f)
    (hk : b.pageTable k = none) (hb' : b'.poolSize = b₁.poolSize)
    (htable : b'.pageTable = Function.update b₁.pageTable k (some f))
    (hfree : b'.freeFrames = b₁.freeFrames) : Undisturbed b b' held := by
  refine ⟨hb'.trans hf.poolSize, ?_, .inr (hfree.trans hf.free)⟩
  intro k' g hheld hg
  have hkk : k' ≠ k := by
    rintro rfl
    rw [hk] at hg
    cases hg
  have hgf : g ≠ f := by
    rintro rfl
    have hpin := h.pinned k' g hg
    rw [hf.idle] at hpin
    omega
  rw [htable, Function.update_of_ne hkk, hf.table, if_neg, hg]
  rw [hg]
  exact fun he => hgf (Option.some.inj he)

/-! ## The operations -/

/-- A stored page is fetched into a frame of its own and pinned once more, unless all frames are
pinned. -/
theorem fetchPage (h : Backs b none held pending store) {data : PageData} (hk : store k = some data)
    (hmax : held k ≠ 2147483647)
    (hlow : b.pageTable k = none → ∀ g, b.freeFrames.head? = some g → g < frameLimit) :
    (b.fetchPage k.fileId k.pageId = .ok (none, b) ∧ AllPinned b held ∧ held k = 0) ∨
      ∃ f b', b.fetchPage k.fileId k.pageId = .ok (some f, b') ∧
        Backs b' none (Function.update held k (held k + 1)) pending store ∧
        b'.pageTable k = some f ∧ b'.nextPageId = b.nextPageId ∧ Undisturbed b b' held := by
  rcases fetchPage_cases h.structural k.fileId k.pageId with ⟨m, _, hcause⟩ | ⟨f, hf, hpin, _⟩ |
    ⟨f, hf, he⟩ | ⟨hnone, he, hfree, hflags⟩ | ⟨f, b₁, data', d, hnone, hf, hr, he⟩
  · -- the disk does not throw
    rcases hcause with hcause | ⟨f, b₁, hf, hnone, hr⟩
    · exact absurd hcause (h.findFrame_ne_error _)
    · have h₁ := h.found hf
      have hdisk := h₁.on_disk k data hk fun g hg => by
        have hg' := hf.table k
        rw [hg, hnone] at hg'
        simp at hg'
      obtain ⟨d, hd, _⟩ := LawfulPageDisk.read hdisk
      cases hr.symm.trans hd
  · have hpin' := h.pinned k f hf
    rw [hpin] at hpin'
    simp only [intMax] at hpin'
    omega
  · refine .inr ⟨f, _, he, ?_, hf, rfl, rfl, fun _ _ _ hg => hg, .inl rfl⟩
    have hnot : ∀ k' g, b.pageTable k' = some g → k' ≠ k → g ≠ f := fun k' g hg hkk hgf =>
      hkk (h.structural.table_inj (hgf ▸ hg) hf)
    have hself : Function.update b.pages f
        { b.pages f with pinCount := (b.pages f).pinCount + 1 } f = _ :=
      Function.update_self _ _ _
    constructor
    case structural => exact h.structural.repin hf
    case low => exact h.low
    case pinned =>
      intro k' g hg
      by_cases hkk : k' = k
      · rw [hkk] at hg ⊢
        rw [Option.some.inj (hg.symm.trans hf), Function.update_self]
        refine (congrArg Page.pinCount hself).trans ?_
        show (b.pages f).pinCount + 1 = _
        rw [h.pinned k f hf]
        rfl
      · rw [Function.update_of_ne hkk, ← h.pinned k' g hg]
        exact congrArg Page.pinCount (Function.update_of_ne (hnot k' g hg hkk) _ _)
    case unpinned =>
      intro k' hk'
      have hkk : k' ≠ k := by
        rintro rfl
        cases hf.symm.trans hk'
      rw [Function.update_of_ne hkk]
      exact h.unpinned k' hk'
    case bytes => exact h.bytes
    case on_disk =>
      intro k' bytes hstore hclean
      refine h.on_disk k' bytes hstore fun g hg => ?_
      obtain ⟨hclean, hpending⟩ := hclean g hg
      refine ⟨?_, hpending⟩
      rw [← hclean]
      by_cases hgf : g = f
      · rw [hgf]
        exact (congrArg Page.isDirty hself).symm
      · exact (congrArg Page.isDirty (Function.update_of_ne hgf _ _)).symm
    case opened => exact h.opened
    case valid => exact h.valid
    case pending_held =>
      intro k' hp
      have := h.pending_held k' hp
      by_cases hkk : k' = k
      · rw [hkk, Function.update_self]
        omega
      · rwa [Function.update_of_ne hkk]
  · exact .inl ⟨he, h.allPinned hfree hflags, h.unpinned k hnone⟩
  · have h₁ := h.found hf
    have hnone₁ : b₁.pageTable k = none := by
      rw [hf.table]
      have hnone' : b.pageTable k = none := hnone
      simp [hnone']
    have hdisk := h₁.on_disk k data hk fun g hg => by cases hnone₁.symm.trans hg
    obtain ⟨d', hd, hcontent, hopened⟩ := LawfulPageDisk.read hdisk
    cases hr.symm.trans hd
    have hne : store k ≠ none := by rw [hk]; simp
    have hback := h₁.install (d := d) (by
        have : b₁.frameCount = b.frameCount := congrArg trunc32 hf.poolSize
        exact this ▸ hf.lt)
      (h.found_low hf (hlow hnone)) hnone₁ (h.valid k hne) (hcontent ▸ hdisk)
      (fun _ _ _ hc => hcontent ▸ hc) hopened (h₁.opened k hne)
    rw [← hk, Function.update_eq_self] at hback
    have hzero := h.unpinned k hnone
    refine .inr ⟨f, _, he, ?_, Function.update_self _ _ _, hf.nextPageId, ?_⟩
    · rw [hzero]
      exact hback
    · exact h.found_undisturbed hf hnone rfl rfl rfl

/-- A new page is all zeros, in a frame of its own and pinned once, unless all frames are pinned. -/
theorem newPage (h : Backs b none held pending store) {file : FileId}
    (hfresh : store ⟨file, b.nextPageId⟩ = none) (hvalid : b.nextPageId ≠ invalidPageId)
    (hopen : LawfulPageDisk.opened b.diskManager file)
    (hlow : ∀ g, b.freeFrames.head? = some g → g < frameLimit) :
    (b.newPage file = .ok (none, b) ∧ AllPinned b held) ∨
      ∃ f b', b.newPage file = .ok (some (f, b.nextPageId), b') ∧
        Backs b' none (Function.update held ⟨file, b.nextPageId⟩ 1) pending
          (Function.update store ⟨file, b.nextPageId⟩ (some Block.zero)) ∧
        b'.pageTable ⟨file, b.nextPageId⟩ = some f ∧
        b'.nextPageId = add32 b.nextPageId 1 ∧ Undisturbed b b' held := by
  have hnone : b.pageTable ⟨file, b.nextPageId⟩ = none := by
    by_contra hne
    obtain ⟨f, hf⟩ := Option.ne_none_iff_exists'.mp hne
    exact h.store_ne hf hfresh
  rcases newPage_cases h.structural file with ⟨m, _, hcause⟩ | ⟨he, hfree, hflags⟩ |
    ⟨f, b₁, d, hf, hw, he⟩
  · rcases hcause with hcause | ⟨f, b₁, hf, hw⟩
    · exact absurd hcause (h.findFrame_ne_error _)
    · obtain ⟨d, hd, _⟩ := LawfulPageDisk.write (k := ⟨file, b.nextPageId⟩) Block.zero
        ((h.found_opened hf) ▸ hopen)
      cases hw.symm.trans hd
  · exact .inl ⟨he, h.allPinned hfree hflags⟩
  · have h₁ := h.found hf
    have hopen' : LawfulPageDisk.opened b₁.diskManager file := (h.found_opened hf) ▸ hopen
    obtain ⟨d', hd, hself, hother, hopened⟩ :=
      LawfulPageDisk.write (k := ⟨file, b.nextPageId⟩) Block.zero hopen'
    cases hw.symm.trans hd
    have hnone₁ : b₁.pageTable ⟨file, b.nextPageId⟩ = none := by
      rw [hf.table, hnone]
      simp
    have hback := (h₁.withNext (add32 b.nextPageId 1)).install (d := d) (by
        have : b₁.frameCount = b.frameCount := congrArg trunc32 hf.poolSize
        exact this ▸ hf.lt)
      (h.found_low hf hlow) hnone₁ hvalid hself hother hopened hopen'
    refine .inr ⟨f, _, he, hback, Function.update_self _ _ _, rfl, ?_⟩
    exact h.found_undisturbed hf hnone rfl rfl rfl

/-- Taking a pin off. What was pending may cease to be when the pin is given back as dirty. -/
theorem unpinPage (h : Backs b none held pending store) (hk : 0 < held k) (dirty : Bool)
    {P : PageKey → Prop} (hheld : ∀ k', P k' → 0 < Function.update held k (held k - 1) k')
    (hpending : ∀ k', pending k' → P k' ∨ k' = k ∧ dirty = true) :
    ∃ b', b.unpinPage k.fileId k.pageId dirty = (true, b') ∧
      Backs b' none (Function.update held k (held k - 1)) P store ∧
      b'.pageTable = b.pageTable ∧ b'.freeFrames = b.freeFrames ∧ b'.poolSize = b.poolSize ∧
      b'.nextPageId = b.nextPageId ∧ b'.frameData = b.frameData := by
  obtain ⟨f, hf⟩ := h.resident hk
  have hpin := h.pinned k f hf
  rcases unpinPage_cases b k.fileId k.pageId dirty with ⟨_, hno⟩ | ⟨f', hf', _, he⟩
  · have := hno f hf
    omega
  · rw [Option.some.inj (hf'.symm.trans hf)] at he
    refine ⟨_, he, ?_, rfl, rfl, rfl, rfl, rfl⟩
    have hnot : ∀ k' g, b.pageTable k' = some g → k' ≠ k → g ≠ f := fun k' g hg hkk hgf =>
      hkk (h.structural.table_inj (hgf ▸ hg) hf)
    have hself : Function.update b.pages f { b.pages f with
        pinCount := (b.pages f).pinCount - 1, isDirty := dirty || (b.pages f).isDirty } f = _ :=
      Function.update_self _ _ _
    constructor
    case structural =>
      have := h.structural.unpinPage k.fileId k.pageId dirty
      rwa [he] at this
    case low => exact h.low
    case pinned =>
      intro k' g hg
      by_cases hkk : k' = k
      · rw [hkk] at hg ⊢
        rw [Option.some.inj (hg.symm.trans hf), Function.update_self]
        refine (congrArg Page.pinCount hself).trans ?_
        show (b.pages f).pinCount - 1 = _
        omega
      · rw [Function.update_of_ne hkk, ← h.pinned k' g hg]
        exact congrArg Page.pinCount (Function.update_of_ne (hnot k' g hg hkk) _ _)
    case unpinned =>
      intro k' hk'
      have hkk : k' ≠ k := by
        rintro rfl
        cases hf.symm.trans hk'
      rw [Function.update_of_ne hkk]
      exact h.unpinned k' hk'
    case bytes => exact h.bytes
    case on_disk =>
      intro k' bytes hstore hclean
      refine h.on_disk k' bytes hstore fun g hg => ?_
      obtain ⟨hclean, hno⟩ := hclean g hg
      by_cases hkk : k' = k
      · rw [hkk] at hg
        rw [Option.some.inj (hg.symm.trans hf)] at hclean ⊢
        have hflag : (dirty || (b.pages f).isDirty) = false :=
          (congrArg Page.isDirty hself).symm.trans hclean
        rw [Bool.or_eq_false_iff] at hflag
        refine ⟨hflag.2, fun hp => ?_⟩
        rcases hpending k' hp with hp | ⟨_, hdirty⟩
        · exact hno hp
        · rw [hdirty] at hflag
          cases hflag.1
      · refine ⟨?_, fun hp => ?_⟩
        · rw [← hclean]
          exact (congrArg Page.isDirty (Function.update_of_ne (hnot k' g hg hkk) _ _)).symm
        · rcases hpending k' hp with hp | ⟨hkk', _⟩
          · exact hno hp
          · exact hkk hkk'
    case opened => exact h.opened
    case valid => exact h.valid
    case pending_held => exact hheld

theorem setData (h : Backs b none held pending store) (hf : b.pageTable k = some f) (hk : 0 < held k)
    (data : PageData) :
    Backs (b.setData f data) none held (fun k' => k' = k ∨ pending k')
      (Function.update store k (some data)) := by
  have hlow := h.low k f hf
  constructor
  case structural => exact h.structural.congr rfl rfl rfl rfl rfl
  case low => exact h.low
  case pinned => exact h.pinned
  case unpinned => exact h.unpinned
  case bytes =>
    intro k' g hg
    by_cases hkk : k' = k
    · subst hkk
      cases hf.symm.trans hg
      rw [Function.update_self, data_setData_self]
    · have hgf : g ≠ f := by
        rintro rfl
        exact hkk (h.structural.table_inj hg hf)
      rw [Function.update_of_ne hkk, data_setData_of_ne hlow (h.low k' g hg) hgf]
      exact h.bytes k' g hg
  case on_disk =>
    intro k' bytes hstore hclean
    have hkk : k' ≠ k := by
      rintro rfl
      exact (hclean f hf).2 (.inl rfl)
    rw [Function.update_of_ne hkk] at hstore
    exact h.on_disk k' bytes hstore fun g hg =>
      ⟨(hclean g hg).1, fun hp => (hclean g hg).2 (.inr hp)⟩
  case opened =>
    intro k' hk'
    by_cases hkk : k' = k
    · rw [hkk]
      exact h.opened k (h.store_ne hf)
    · rw [Function.update_of_ne hkk] at hk'
      exact h.opened k' hk'
  case valid =>
    intro k' hk'
    by_cases hkk : k' = k
    · rw [hkk]
      exact h.valid k (h.store_ne hf)
    · rw [Function.update_of_ne hkk] at hk'
      exact h.valid k' hk'
  case pending_held =>
    rintro k' (rfl | hp)
    · exact hk
    · exact h.pending_held k' hp

/-! ## Flushing -/

theorem writtenBack (h : Backs b none held pending store) (hf : b.pageTable k = some f) {d : δ}
    (hw : PageDisk.writePage b.diskManager (b.pages f).fileId (b.pages f).pageId (b.data f) =
      .ok d) :
    Backs { b.setPage f { b.pages f with isDirty := false } with diskManager := d } none held
      pending store := by
  obtain ⟨d', hd, hself, hother, hopened⟩ := h.writes hf
  cases hw.symm.trans hd
  have hpage : Function.update b.pages f { b.pages f with isDirty := false } f = _ :=
    Function.update_self _ _ _
  constructor
  case structural => exact h.structural.clean (h.structural.resident_of_table hf) d
  case low => exact h.low
  case pinned =>
    intro k' g hg
    rw [← h.pinned k' g hg]
    by_cases hgf : g = f
    · rw [hgf]
      exact (congrArg Page.pinCount hpage).trans rfl
    · exact congrArg Page.pinCount (Function.update_of_ne hgf _ _)
  case unpinned => exact h.unpinned
  case bytes => exact h.bytes
  case on_disk =>
    intro k' bytes hstore hclean
    by_cases hkk : k' = k
    · rw [hkk] at hstore ⊢
      rw [← hstore, h.bytes k f hf]
      exact hself
    · refine hother k' bytes hkk (h.on_disk k' bytes hstore fun g hg => ?_)
      obtain ⟨hclean, hno⟩ := hclean g hg
      have hgf : g ≠ f := fun hgf => hkk (h.structural.table_inj (hgf ▸ hg) hf)
      refine ⟨?_, hno⟩
      rw [← hclean]
      exact (congrArg Page.isDirty (Function.update_of_ne hgf _ _)).symm
  case opened =>
    intro k' hk'
    show LawfulPageDisk.opened d k'.fileId
    rw [hopened]
    exact h.opened k' hk'
  case valid => exact h.valid
  case pending_held => exact h.pending_held

theorem flushPage (h : Backs b none held pending store) (file : FileId) (page : PageId) :
    ∃ r b', b.flushPage file page = .ok (r, b') ∧ Backs b' none held pending store ∧
      b'.pageTable = b.pageTable ∧ b'.poolSize = b.poolSize ∧
      b'.nextPageId = b.nextPageId := by
  rcases flushPage_cases b file page with ⟨f, m, _, hf, hw⟩ | ⟨_, he⟩ | ⟨f, d, hf, hw, he⟩
  · obtain ⟨d, hd, _⟩ := h.writes hf
    cases hw.symm.trans hd
  · exact ⟨false, b, he, h, rfl, rfl, rfl⟩
  · exact ⟨true, _, he, h.writtenBack hf hw, rfl, rfl, rfl⟩

/-- What flushing leaves alone, and that it cleans the frames it visits. -/
structure Flushed (fs : List FrameId) (b b' : BufferPoolManager δ) : Prop where
  table : b'.pageTable = b.pageTable
  poolSize : b'.poolSize = b.poolSize
  free : b'.freeFrames = b.freeFrames
  next : b'.nextPageId = b.nextPageId
  pageId : ∀ g, (b'.pages g).pageId = (b.pages g).pageId
  clean : ∀ g, (b.pages g).pageId ≠ invalidPageId → g ∈ fs ∨ (b.pages g).isDirty = false →
    (b'.pages g).isDirty = false

theorem flushFrame (h : Backs b none held pending store) (hlt : f < b.frameCount) :
    ∃ b', b.flushFrame f = .ok b' ∧ Backs b' none held pending store ∧ Flushed [f] b b' := by
  rcases flushFrame_cases b f with ⟨m, _, hp, hw⟩ | ⟨he, hskip⟩ | ⟨d, hp, _, hw, he⟩
  · obtain ⟨d, hd, _⟩ := h.writes (h.structural.resident_of_page hlt hp).table
    cases hw.symm.trans hd
  · refine ⟨b, he, h, rfl, rfl, rfl, rfl, fun _ => rfl, fun g hg hclean => ?_⟩
    rcases hclean with hclean | hclean
    · rw [List.mem_singleton.mp hclean] at hg ⊢
      rcases hskip with hinv | hclean
      · exact absurd hinv hg
      · exact hclean
    · exact hclean
  · refine ⟨_, he, h.writtenBack (h.structural.resident_of_page hlt hp).table hw, rfl, rfl, rfl,
      rfl, fun g => ?_, fun g _ hclean => ?_⟩
    · show (Function.update b.pages f { b.pages f with isDirty := false } g).pageId = _
      by_cases hgf : g = f
      · rw [hgf, Function.update_self]
      · rw [Function.update_of_ne hgf]
    show (Function.update b.pages f { b.pages f with isDirty := false } g).isDirty = false
    by_cases hgf : g = f
    · rw [hgf, Function.update_self]
    · rw [Function.update_of_ne hgf]
      rcases hclean with hclean | hclean
      · exact absurd (List.mem_singleton.mp hclean) hgf
      · exact hclean

theorem flushFrames (h : Backs b none held pending store) {fs : List FrameId}
    (hlt : ∀ f ∈ fs, f < b.frameCount) :
    ∃ b', fs.foldlM BufferPoolManager.flushFrame b = .ok b' ∧ Backs b' none held pending store ∧
      Flushed fs b b' := by
  induction fs generalizing b with
  | nil => exact ⟨b, rfl, h, rfl, rfl, rfl, rfl, fun _ => rfl, by simp⟩
  | cons f fs ih =>
      obtain ⟨b₁, hf, h₁, hfl⟩ := h.flushFrame (hlt f List.mem_cons_self)
      have hcount : b₁.frameCount = b.frameCount := congrArg trunc32 hfl.poolSize
      obtain ⟨b', hrest, h', hfl'⟩ := ih h₁ fun g hg => by
        rw [hcount]
        exact hlt g (List.mem_cons_of_mem f hg)
      refine ⟨b', ?_, h', hfl'.table.trans hfl.table, hfl'.poolSize.trans hfl.poolSize,
        hfl'.free.trans hfl.free, hfl'.next.trans hfl.next,
        fun g => (hfl'.pageId g).trans (hfl.pageId g), ?_⟩
      · rw [List.foldlM_cons, hf, ok_bind, hrest]
      · intro g hg hclean
        have hg₁ : (b₁.pages g).pageId ≠ invalidPageId := hfl.pageId g ▸ hg
        rcases hclean with hclean | hclean
        · rcases List.mem_cons.mp hclean with hgf | hgfs
          · exact hfl'.clean g hg₁ (.inr (hfl.clean g hg (.inl (List.mem_singleton.mpr hgf))))
          · exact hfl'.clean g hg₁ (.inl hgfs)
        · exact hfl'.clean g hg₁ (.inr (hfl.clean g hg (.inr hclean)))

/-- After a flush of all pages the disk has every page that is not pending. -/
theorem flushAllPages (h : Backs b none held pending store) :
    ∃ b', b.flushAllPages = .ok b' ∧ Backs b' none held pending store ∧
      b'.pageTable = b.pageTable ∧ b'.poolSize = b.poolSize ∧ b'.freeFrames = b.freeFrames ∧
      b'.nextPageId = b.nextPageId ∧
      ∀ k data, store k = some data → ¬ pending k → content b'.diskManager k = some data := by
  obtain ⟨b', hr, h', hfl⟩ := h.flushFrames fun f hf =>
    List.mem_range.mp hf
  refine ⟨b', hr, h', hfl.table, hfl.poolSize, hfl.free, hfl.next, fun k data hk hno => ?_⟩
  refine h'.on_disk k data hk fun f hf => ⟨?_, hno⟩
  rw [hfl.table] at hf
  have hres := h.structural.resident_of_table hf
  exact hfl.clean f hres.page (.inl (List.mem_range.mpr (h.structural.lt_of_table hf)))

end Backs

end TurtleDb.Buffer.BufferPoolManager
