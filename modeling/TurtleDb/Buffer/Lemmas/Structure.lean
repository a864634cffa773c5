import TurtleDb.Buffer.BufferPoolManager
import TurtleDb.Buffer.Lemmas.Replacer
import TurtleDb.Lib.Result

/-!
# The structures of the pool agree

Page table, free list, frame metadata and replacer describe the same frames. Between finding a frame
and installing a page in it the frame is out of all four; the invariant names that frame.
-/

namespace TurtleDb.Buffer

open TurtleDb.Lib

namespace BufferPoolManager

variable {δ : Type}

/-- A frame on the free list: no page, no pin, not tracked. -/
structure Free (b : BufferPoolManager δ) (f : FrameId) : Prop where
  mem : f ∈ b.freeFrames
  no_page : (b.pages f).pageId = invalidPageId
  no_pin : (b.pages f).pinCount = 0
  untracked : b.replacer.flags f = none

/-- A frame with a page: the page table leads to it, and it is evictable when it has no pin. -/
structure Resident (b : BufferPoolManager δ) (f : FrameId) : Prop where
  not_mem : f ∉ b.freeFrames
  page : (b.pages f).pageId ≠ invalidPageId
  table : b.pageTable (b.pages f).key = some f
  pin_nonneg : 0 ≤ (b.pages f).pinCount
  tracked : b.replacer.flags f = some (decide ((b.pages f).pinCount = 0))

/-- The structures agree on all frames but `out`. -/
structure Structural (b : BufferPoolManager δ) (out : Option FrameId) : Prop where
  tracks : b.replacer.Tracks b.replacer.flags
  nodup_free : b.freeFrames.Nodup
  frames : ∀ f < b.frameCount, some f ≠ out → b.Free f ∨ b.Resident f
  table : ∀ k f, b.pageTable k = some f →
    f < b.frameCount ∧ some f ≠ out ∧ (b.pages f).key = k ∧ k.pageId ≠ invalidPageId
  free_lt : ∀ f ∈ b.freeFrames, f < b.frameCount ∧ some f ≠ out
  tracked_lt : ∀ f, b.replacer.flags f ≠ none → f < b.frameCount ∧ some f ≠ out

variable {b b' : BufferPoolManager δ} {f g : FrameId} {k : PageKey}

/-! ## Frames -/

theorem Free.congr (h : b.Free g) (hfree : g ∈ b'.freeFrames ↔ g ∈ b.freeFrames)
    (hpage : b'.pages g = b.pages g) (hflag : b'.replacer.flags g = b.replacer.flags g) :
    b'.Free g :=
  ⟨hfree.mpr h.mem, hpage ▸ h.no_page, hpage ▸ h.no_pin, hflag.trans h.untracked⟩

theorem Resident.congr (h : b.Resident g) (hfree : g ∈ b'.freeFrames ↔ g ∈ b.freeFrames)
    (hpage : b'.pages g = b.pages g) (htable : b'.pageTable (b.pages g).key = some g)
    (hflag : b'.replacer.flags g = b.replacer.flags g) : b'.Resident g where
  not_mem := fun hm => h.not_mem (hfree.mp hm)
  page := hpage ▸ h.page
  table := hpage ▸ htable
  pin_nonneg := hpage ▸ h.pin_nonneg
  tracked := by rw [hflag, h.tracked, hpage]

namespace Structural

variable {out : Option FrameId}

theorem resident_of_table (h : Structural b out) (hk : b.pageTable k = some f) : b.Resident f := by
  obtain ⟨hlt, hout, hkey, hvalid⟩ := h.table k f hk
  rcases h.frames f hlt hout with hf | hf
  · exact absurd (hkey ▸ hf.no_page) hvalid
  · exact hf

theorem key_of_table (h : Structural b out) (hk : b.pageTable k = some f) : (b.pages f).key = k :=
  (h.table k f hk).2.2.1

theorem lt_of_table (h : Structural b out) (hk : b.pageTable k = some f) : f < b.frameCount :=
  (h.table k f hk).1

theorem table_inj (h : Structural b out) {k' : PageKey} (hk : b.pageTable k = some f)
    (hk' : b.pageTable k' = some f) : k = k' :=
  (h.key_of_table hk).symm.trans (h.key_of_table hk')

theorem resident_of_flag (h : Structural b out) (hf : b.replacer.flags f ≠ none) : b.Resident f := by
  obtain ⟨hlt, hout⟩ := h.tracked_lt f hf
  rcases h.frames f hlt hout with hfree | hres
  · exact absurd hfree.untracked hf
  · exact hres

theorem free_of_mem (h : Structural b out) (hf : f ∈ b.freeFrames) : b.Free f := by
  obtain ⟨hlt, hout⟩ := h.free_lt f hf
  rcases h.frames f hlt hout with hfree | hres
  · exact hfree
  · exact absurd hf hres.not_mem

/-- Bytes and disk play no part. -/
theorem congr (h : Structural b out) (hsize : b'.poolSize = b.poolSize)
    (hpages : b'.pages = b.pages) (htable : b'.pageTable = b.pageTable)
    (hfree : b'.freeFrames = b.freeFrames) (hreplacer : b'.replacer = b.replacer) :
    Structural b' out := by
  have hcount : b'.frameCount = b.frameCount := congrArg trunc32 hsize
  constructor
  case tracks => rw [hreplacer]; exact h.tracks
  case nodup_free => rw [hfree]; exact h.nodup_free
  case frames =>
    intro f hlt hout
    rcases h.frames f (hcount ▸ hlt) hout with hf | hf
    · exact .inl (hf.congr (by rw [hfree]) (by rw [hpages]) (by rw [hreplacer]))
    · exact .inr (hf.congr (by rw [hfree]) (by rw [hpages]) (by rw [htable]; exact hf.table)
        (by rw [hreplacer]))
  case table => rw [htable, hpages, hcount]; exact h.table
  case free_lt => rw [hfree, hcount]; exact h.free_lt
  case tracked_lt => rw [hreplacer, hcount]; exact h.tracked_lt

/-! ## Changing the metadata of one resident frame -/

/-- A resident frame keeps its page; its pin count and flag change together. -/
theorem setPin (h : Structural b out) (hf : b.Resident f) (hout : some f ≠ out) {p : Page}
    {r : ArcReplacer} (hkey : p.key = (b.pages f).key) (hpin : 0 ≤ p.pinCount)
    (hr : r.Tracks (Function.update b.replacer.flags f (some (decide (p.pinCount = 0))))) :
    Structural { b.setPage f p with replacer := r } out := by
  have hflags := hr.eq_flags
  have hpage : ∀ g, g ≠ f → (b.setPage f p).pages g = b.pages g := fun g hg =>
    Function.update_of_ne hg _ _
  have hself : (b.setPage f p).pages f = p := Function.update_self _ _ _
  have hid : p.pageId = (b.pages f).pageId := congrArg PageKey.pageId hkey
  constructor
  case tracks => exact hflags ▸ hr
  case nodup_free => exact h.nodup_free
  case frames =>
    intro g hlt hg
    by_cases hgf : g = f
    · subst hgf
      refine .inr ⟨hf.not_mem, ?_, ?_, ?_, ?_⟩
      · show ((b.setPage g p).pages g).pageId ≠ _
        rw [hself, hid]
        exact hf.page
      · show b.pageTable ((b.setPage g p).pages g).key = _
        rw [hself, hkey]
        exact hf.table
      · show 0 ≤ ((b.setPage g p).pages g).pinCount
        rw [hself]
        exact hpin
      · show r.flags g = some (decide (((b.setPage g p).pages g).pinCount = 0))
        rw [hflags, hself, Function.update_self]
    · have hflag : r.flags g = b.replacer.flags g := by rw [hflags, Function.update_of_ne hgf]
      rcases h.frames g hlt hg with hg' | hg'
      · exact .inl (hg'.congr Iff.rfl (hpage g hgf) hflag)
      · exact .inr (hg'.congr Iff.rfl (hpage g hgf) hg'.table hflag)
  case table =>
    intro k g hk
    obtain ⟨hlt, hg, hkey', hvalid⟩ := h.table k g hk
    refine ⟨hlt, hg, ?_, hvalid⟩
    by_cases hgf : g = f
    · rw [hgf] at hkey' ⊢
      show ((b.setPage f p).pages f).key = k
      rw [hself, hkey, hkey']
    · show ((b.setPage f p).pages g).key = k
      rw [hpage g hgf, hkey']
  case free_lt => exact h.free_lt
  case tracked_lt =>
    intro g hg
    by_cases hgf : g = f
    · rw [hgf]
      exact h.tracked_lt f (by rw [hf.tracked]; simp)
    · refine h.tracked_lt g ?_
      have : r.flags g = b.replacer.flags g := by rw [hflags, Function.update_of_ne hgf]
      exact this ▸ hg

end Structural

/-! ## Finding a frame -/

/-- A frame that has left the free list or the replacer. -/
theorem Structural.takeOut (h : Structural b none) (hlt : f < b.frameCount) {l : List FrameId}
    {r : ArcReplacer} {table : PageKey → Option FrameId} {d : δ} (hnodup : l.Nodup)
    (hfree : ∀ g, g ∈ l ↔ g ∈ b.freeFrames ∧ g ≠ f)
    (hr : r.Tracks (Function.update b.replacer.flags f none))
    (htable : ∀ k, table k = if b.pageTable k = some f then none else b.pageTable k) :
    Structural { b with
      freeFrames := l, replacer := r, pageTable := table, diskManager := d } (some f) := by
  have hflags := hr.eq_flags
  have hflag : ∀ g, g ≠ f → r.flags g = b.replacer.flags g := fun g hg => by
    rw [hflags, Function.update_of_ne hg]
  have hkeep : ∀ k g, table k = some g ↔ b.pageTable k = some g ∧ g ≠ f := by
    intro k g
    rw [htable]
    split
    next hk =>
      simp only [reduceCtorEq, hk, Option.some.injEq, false_iff, not_and]
      exact fun hfg hne => hne hfg.symm
    next hk =>
      constructor
      · exact fun hg => ⟨hg, fun hgf => hk (hgf ▸ hg)⟩
      · exact And.left
  constructor
  case tracks => exact hflags ▸ hr
  case nodup_free => exact hnodup
  case frames =>
    intro g hg hne
    have hgf : g ≠ f := fun he => hne (congrArg some he)
    have hiff : g ∈ l ↔ g ∈ b.freeFrames := by
      rw [hfree]
      exact and_iff_left hgf
    rcases h.frames g hg (by simp) with hg' | hg'
    · exact .inl (hg'.congr hiff rfl (hflag g hgf))
    · exact .inr (hg'.congr hiff rfl ((hkeep _ _).mpr ⟨hg'.table, hgf⟩) (hflag g hgf))
  case table =>
    intro k g hk
    obtain ⟨hk, hgf⟩ := (hkeep k g).mp hk
    obtain ⟨hlt', _, hkey, hvalid⟩ := h.table k g hk
    exact ⟨hlt', fun he => hgf (Option.some.inj he), hkey, hvalid⟩
  case free_lt =>
    intro g hg
    obtain ⟨hg, hgf⟩ := (hfree g).mp hg
    exact ⟨(h.free_lt g hg).1, fun he => hgf (Option.some.inj he)⟩
  case tracked_lt =>
    intro g hg
    have hgf : g ≠ f := by
      rintro rfl
      apply hg
      show r.flags g = none
      rw [hflags, Function.update_self]
    exact ⟨(h.tracked_lt g (hflag g hgf ▸ hg)).1, fun he => hgf (Option.some.inj he)⟩

theorem Structural.table_ne_of_invalid (h : Structural b none)
    (hinv : (b.pages f).pageId = invalidPageId) (k : PageKey) : b.pageTable k ≠ some f := by
  intro hk
  obtain ⟨_, _, hkey, hvalid⟩ := h.table k f hk
  exact hvalid (hkey ▸ hinv)

theorem Structural.table_erase (h : Structural b none) (hf : b.Resident f) (k : PageKey) :
    Function.update b.pageTable (b.pages f).key none k =
      if b.pageTable k = some f then none else b.pageTable k := by
  by_cases hk : k = (b.pages f).key
  · rw [hk, Function.update_self, if_pos hf.table]
  · rw [Function.update_of_ne hk, if_neg]
    exact fun hkf => hk (h.table_inj hkf hf.table)

variable [PageDisk δ]

/-- What `findFrame` does to get frame `f`: the frame comes out of the structures, and a dirty page
that was in it goes to the disk. -/
structure Found (b b' : BufferPoolManager δ) (f : FrameId) : Prop where
  structural : Structural b' (some f)
  lt : f < b.frameCount
  idle : (b.pages f).pinCount = 0
  head : ∀ g, b.freeFrames.head? = some g → f = g
  poolSize : b'.poolSize = b.poolSize
  pages : b'.pages = b.pages
  frameData : b'.frameData = b.frameData
  nextPageId : b'.nextPageId = b.nextPageId
  free : b'.freeFrames = b.freeFrames.tail
  table : ∀ k, b'.pageTable k = if b.pageTable k = some f then none else b.pageTable k
  disk : b'.diskManager = b.diskManager ∧
      (b.pageTable (b.pages f).key = some f → (b.pages f).isDirty = false) ∨
    PageDisk.writePage b.diskManager (b.pages f).fileId (b.pages f).pageId (b.data f) =
      .ok b'.diskManager ∧ b.pageTable (b.pages f).key = some f
  replacer : b.freeFrames ≠ [] ∧ b'.replacer = b.replacer ∨
    b.freeFrames = [] ∧ b.replacer.evict = some (f, b'.replacer)

theorem Found.table_of_some {b b' : BufferPoolManager δ} {f g : FrameId} {k : PageKey}
    (h : Found b b' f) (hk : b'.pageTable k = some g) : b.pageTable k = some g := by
  rw [h.table] at hk
  split at hk
  next => cases hk
  next => exact hk

/-- `vacate` throws, or takes the frame's page out of the page table. -/
theorem vacate_cases (b : BufferPoolManager δ) (f : FrameId) :
    (∃ message, b.vacate f = .error (.raised message) ∧ (b.pages f).pageId ≠ invalidPageId ∧
      PageDisk.writePage b.diskManager (b.pages f).fileId (b.pages f).pageId (b.data f) =
        .error (.raised message)) ∨
      (b.vacate f = .ok b ∧ (b.pages f).pageId = invalidPageId) ∨
      ∃ d, b.vacate f = .ok { b with
          diskManager := d, pageTable := Function.update b.pageTable (b.pages f).key none } ∧
        (b.pages f).pageId ≠ invalidPageId ∧
        (d = b.diskManager ∧ (b.pages f).isDirty = false ∨
          PageDisk.writePage b.diskManager (b.pages f).fileId (b.pages f).pageId (b.data f) =
            .ok d) := by
  unfold vacate
  by_cases hinv : (b.pages f).pageId = invalidPageId
  · exact .inr (.inl ⟨if_pos hinv, hinv⟩)
  · simp only [hinv, if_false]
    cases hdirty : (b.pages f).isDirty with
    | false =>
        simp only [Bool.false_eq_true, if_false, ok_bind]
        exact .inr (.inr ⟨b.diskManager, rfl, hinv, .inl ⟨rfl, trivial⟩⟩)
    | true =>
        simp only [if_true]
        cases hw : PageDisk.writePage b.diskManager (b.pages f).fileId (b.pages f).pageId
            (b.data f) with
        | error fault =>
            obtain ⟨message, rfl⟩ := PageDisk.writePage_throws hw
            exact .inl ⟨message, rfl, hinv, rfl⟩
        | ok d => exact .inr (.inr ⟨d, rfl, hinv, .inr rfl⟩)

/-- `findFrame` throws when a victim cannot be written back, finds all pages pinned, or gets a
frame. -/
theorem findFrame_cases (h : Structural b none) :
    (∃ f message, b.findFrame = .error (.raised message) ∧ b.Resident f ∧
      PageDisk.writePage b.diskManager (b.pages f).fileId (b.pages f).pageId (b.data f) =
        .error (.raised message)) ∨
      (b.findFrame = .ok none ∧ b.freeFrames = [] ∧ ∀ f, b.replacer.flags f ≠ some true) ∨
      ∃ f b', b.findFrame = .ok (some (f, b')) ∧ Found b b' f := by
  unfold findFrame
  split
  next f rest hfree =>
      have hf := h.free_of_mem (f := f) (by rw [hfree]; exact List.mem_cons_self)
      have hnodup := hfree ▸ h.nodup_free
      rcases vacate_cases { b with freeFrames := rest } f with
        ⟨_, _, hvalid, _⟩ | ⟨hv, _⟩ | ⟨_, _, hvalid, _⟩
      · exact absurd hf.no_page hvalid
      · refine .inr (.inr ⟨f, { b with freeFrames := rest }, by simp only [hv, ok_bind]; rfl, ?_⟩)
        have hnone : ∀ k, b.pageTable k = if b.pageTable k = some f then none else b.pageTable k :=
          fun k => by rw [if_neg (h.table_ne_of_invalid hf.no_page k)]
        have hmem : ∀ g, g ∈ rest ↔ g ∈ b.freeFrames ∧ g ≠ f := by
          intro g
          rw [hfree, List.mem_cons]
          constructor
          · intro hg
            exact ⟨.inr hg, fun he => (List.nodup_cons.mp hnodup).1 (he ▸ hg)⟩
          · rintro ⟨hg | hg, hne⟩
            · exact absurd hg hne
            · exact hg
        have hsame : b.replacer.Tracks (Function.update b.replacer.flags f none) := by
          rw [← hf.untracked, Function.update_eq_self]
          exact h.tracks
        have hlt := (h.free_lt f (by rw [hfree]; exact List.mem_cons_self)).1
        refine ⟨h.takeOut hlt (List.nodup_cons.mp hnodup).2 hmem hsame hnone, hlt,
          hf.no_pin, ?_, rfl, rfl, rfl, rfl, ?_, hnone, .inl ⟨rfl, ?_⟩, .inl ⟨?_, rfl⟩⟩
        · intro g hg
          rw [hfree] at hg
          exact Option.some.inj hg
        · rw [hfree]
          rfl
        · exact fun hk => absurd hk (h.table_ne_of_invalid hf.no_page _)
        · rw [hfree]
          exact List.cons_ne_nil f rest
      · exact absurd hf.no_page hvalid
  next hfree =>
      split
      next he => exact .inr (.inl ⟨rfl, hfree, h.tracks.evict_none he⟩)
      next f r he =>
          obtain ⟨hflag, hr⟩ := h.tracks.evict_some he
          have hf := h.resident_of_flag (f := f) (by rw [hflag]; simp)
          have hlt := (h.tracked_lt f (by rw [hflag]; simp)).1
          have hidle : (b.pages f).pinCount = 0 := by
            have := hf.tracked
            rw [hflag] at this
            exact of_decide_eq_true (Option.some.inj this).symm
          rcases vacate_cases { b with replacer := r } f with
            ⟨m, hv, _, hw⟩ | ⟨_, hinv⟩ | ⟨d, hv, _, hd⟩
          · exact .inl ⟨f, m, by simp only [hv, error_bind], hf, hw⟩
          · exact absurd hinv hf.page
          · refine .inr (.inr ⟨f, _, by simp only [hv, ok_bind]; rfl, ?_⟩)
            refine ⟨?_, hlt, hidle, ?_, rfl, rfl, rfl, rfl, ?_, h.table_erase hf, ?_,
              .inr ⟨hfree, he⟩⟩
            · refine h.takeOut (f := f) hlt h.nodup_free ?_ hr (h.table_erase hf)
              intro g
              simp [hfree]
            · intro g hg
              rw [hfree] at hg
              cases hg
            · rw [hfree]
              rfl
            · rcases hd with ⟨hd, hclean⟩ | hd
              · exact .inl ⟨hd, fun _ => hclean⟩
              · exact .inr ⟨hd, hf.table⟩

/-! ## The operations, case by case -/

/-- A fetch throws, overflows a pin count, pins the page where it is, finds all pages pinned, or
reads the page into a frame it found. -/
theorem fetchPage_cases (h : Structural b none) (file : FileId) (page : PageId) :
    (∃ message, b.fetchPage file page = .error (.raised message) ∧
      (b.findFrame = .error (.raised message) ∨ ∃ f b₁, Found b b₁ f ∧
        b.pageTable ⟨file, page⟩ = none ∧
        PageDisk.readPage b₁.diskManager file page = .error (.raised message))) ∨
      (∃ f, b.pageTable ⟨file, page⟩ = some f ∧ (b.pages f).pinCount = intMax ∧
        b.fetchPage file page = .error .overflow) ∨
      (∃ f, b.pageTable ⟨file, page⟩ = some f ∧
        b.fetchPage file page = .ok (some f,
          (b.setPage f { b.pages f with pinCount := (b.pages f).pinCount + 1 }).recordPin f page)) ∨
      (b.pageTable ⟨file, page⟩ = none ∧ b.fetchPage file page = .ok (none, b) ∧
        b.freeFrames = [] ∧ ∀ f, b.replacer.flags f ≠ some true) ∨
      ∃ f b₁ data d, b.pageTable ⟨file, page⟩ = none ∧ Found b b₁ f ∧
        PageDisk.readPage b₁.diskManager file page = .ok (data, d) ∧
        b.fetchPage file page =
          .ok (some f, { b₁.setData f data with diskManager := d }.install f ⟨file, page⟩) := by
  unfold fetchPage
  cases htable : b.pageTable ⟨file, page⟩ with
  | some f =>
      by_cases hmax : (b.pages f).pinCount = intMax
      · exact .inr (.inl ⟨f, rfl, hmax, if_pos hmax⟩)
      · exact .inr (.inr (.inl ⟨f, rfl, if_neg hmax⟩))
  | none =>
      rcases findFrame_cases h with ⟨_, m, hf, _⟩ | ⟨hf, hfree, hflags⟩ | ⟨f, b₁, hf, hfound⟩
      · exact .inl ⟨m, by simp only [hf, error_bind], .inl hf⟩
      · exact .inr (.inr (.inr (.inl ⟨rfl, by simp only [hf, ok_bind]; rfl, hfree, hflags⟩)))
      · cases hr : PageDisk.readPage b₁.diskManager file page with
        | error fault =>
            obtain ⟨m, rfl⟩ := PageDisk.readPage_throws hr
            exact .inl ⟨m, by simp only [hf, ok_bind, hr, error_bind],
              .inr ⟨f, b₁, hfound, rfl, hr⟩⟩
        | ok read =>
            obtain ⟨data, d⟩ := read
            exact .inr (.inr (.inr (.inr ⟨f, b₁, data, d, rfl, hfound, hr,
              by simp only [hf, ok_bind, hr]; rfl⟩)))

/-- `new_page` throws, finds all pages pinned, or puts the next page id into a frame it found and
writes zeros to the disk. -/
theorem newPage_cases (h : Structural b none) (file : FileId) :
    (∃ message, b.newPage file = .error (.raised message) ∧
      (b.findFrame = .error (.raised message) ∨ ∃ f b₁, Found b b₁ f ∧
        PageDisk.writePage b₁.diskManager file b.nextPageId Block.zero =
          .error (.raised message))) ∨
      (b.newPage file = .ok (none, b) ∧ b.freeFrames = [] ∧
        ∀ f, b.replacer.flags f ≠ some true) ∨
      ∃ f b₁ d, Found b b₁ f ∧
        PageDisk.writePage b₁.diskManager file b.nextPageId Block.zero = .ok d ∧
        b.newPage file = .ok (some (f, b.nextPageId),
          { ({ b₁ with nextPageId := add32 b.nextPageId 1 }.setData f Block.zero).install f
              ⟨file, b.nextPageId⟩ with diskManager := d }) := by
  unfold newPage
  rcases findFrame_cases h with ⟨_, m, hf, _⟩ | ⟨hf, hfree, hflags⟩ | ⟨f, b₁, hf, hfound⟩
  · exact .inl ⟨m, by simp only [hf, error_bind], .inl hf⟩
  · exact .inr (.inl ⟨by simp only [hf, ok_bind]; rfl, hfree, hflags⟩)
  · have hdata : (({ b₁ with nextPageId := add32 b.nextPageId 1 }.setData f Block.zero).install f
        ⟨file, b.nextPageId⟩).data f = Block.zero := Function.update_self _ _ _
    cases hw : PageDisk.writePage b₁.diskManager file b.nextPageId Block.zero with
    | error fault =>
        obtain ⟨m, rfl⟩ := PageDisk.writePage_throws hw
        refine .inl ⟨m, ?_, .inr ⟨f, b₁, hfound, hw⟩⟩
        simp only [hf, ok_bind, hfound.nextPageId, hdata]
        exact (congrArg (· >>= _) hw).trans rfl
    | ok d =>
        refine .inr (.inr ⟨f, b₁, d, hfound, hw, ?_⟩)
        simp only [hf, ok_bind, hfound.nextPageId, hdata]
        exact (congrArg (· >>= _) hw).trans rfl

/-! ## The operations keep the structures in agreement -/

omit [PageDisk δ] in
theorem Structural.install (h : Structural b (some f)) (hlt : f < b.frameCount)
    (hk : b.pageTable k = none) (hvalid : k.pageId ≠ invalidPageId) :
    Structural (b.install f k) none := by
  have hr := h.tracks.pin f k.pageId
  have hflags : (b.install f k).replacer.flags = _ := hr.eq_flags
  have hself : (b.install f k).pages f = ⟨k.fileId, k.pageId, 1, false⟩ := Function.update_self _ _ _
  have hpage : ∀ g, g ≠ f → (b.install f k).pages g = b.pages g := fun g hg =>
    Function.update_of_ne hg _ _
  have hnot : f ∉ b.freeFrames := fun hm => (h.free_lt f hm).2 rfl
  have htable : ∀ k' g, (b.install f k).pageTable k' = some g ↔
      k' = k ∧ g = f ∨ k' ≠ k ∧ b.pageTable k' = some g := by
    intro k' g
    show Function.update b.pageTable k (some f) k' = some g ↔ _
    by_cases hk' : k' = k
    · rw [hk', Function.update_self]
      simp [eq_comm]
    · rw [Function.update_of_ne hk']
      simp [hk']
  constructor
  case tracks => exact hflags ▸ hr
  case nodup_free => exact h.nodup_free
  case frames =>
    intro g hg _
    by_cases hgf : g = f
    · subst hgf
      refine .inr ⟨hnot, ?_, ?_, ?_, ?_⟩
      · rw [hself]
        exact hvalid
      · rw [hself]
        exact (htable _ _).mpr (.inl ⟨rfl, rfl⟩)
      · rw [hself]
        exact Int.one_nonneg
      · rw [hflags, hself, Function.update_self]
        rfl
    · have hflag : (b.install f k).replacer.flags g = b.replacer.flags g := by
        rw [hflags, Function.update_of_ne hgf]
      have hout : some g ≠ some f := fun he => hgf (Option.some.inj he)
      rcases h.frames g hg hout with hg' | hg'
      · exact .inl (hg'.congr Iff.rfl (hpage g hgf) hflag)
      · refine .inr (hg'.congr Iff.rfl (hpage g hgf) ((htable _ _).mpr (.inr ⟨?_, hg'.table⟩)) hflag)
        intro hkey
        have htab := hg'.table
        rw [hkey, hk] at htab
        cases htab
  case table =>
    intro k' g hk'
    rcases (htable k' g).mp hk' with ⟨rfl, rfl⟩ | ⟨_, hk'⟩
    · exact ⟨hlt, by simp, by rw [hself]; rfl, hvalid⟩
    · obtain ⟨hlt', hne, hkey, hvalid'⟩ := h.table k' g hk'
      refine ⟨hlt', by simp, ?_, hvalid'⟩
      rw [hpage g fun he => hne (congrArg some he)]
      exact hkey
  case free_lt => exact fun g hg => ⟨(h.free_lt g hg).1, by simp⟩
  case tracked_lt =>
    intro g hg
    refine ⟨?_, by simp⟩
    by_cases hgf : g = f
    · exact hgf ▸ hlt
    · refine (h.tracked_lt g ?_).1
      have : (b.install f k).replacer.flags g = b.replacer.flags g := by
        rw [hflags, Function.update_of_ne hgf]
      exact this ▸ hg

omit [PageDisk δ] in
theorem Structural.repin (h : Structural b none) (hk : b.pageTable k = some f) :
    Structural ((b.setPage f { b.pages f with
      pinCount := (b.pages f).pinCount + 1 }).recordPin f k.pageId) none := by
  have hf := h.resident_of_table hk
  have hpin := hf.pin_nonneg
  refine h.setPin hf (by simp) rfl (by simp only; omega) ?_
  have := h.tracks.pin f k.pageId
  rwa [show decide ((b.pages f).pinCount + 1 = 0) = false from decide_eq_false (by omega)]

theorem Structural.fetchPage (h : Structural b none) {file : FileId} {page : PageId}
    (hvalid : page ≠ invalidPageId) {r : Option FrameId} (hr : b.fetchPage file page = .ok (r, b')) :
    Structural b' none := by
  rcases fetchPage_cases h file page with ⟨m, he, _⟩ | ⟨f, _, _, he⟩ | ⟨f, hk, he⟩ | ⟨_, he, _⟩ |
    ⟨f, b₁, data, d, hk, hfound, _, he⟩
  · cases he.symm.trans hr
  · cases he.symm.trans hr
  · cases he.symm.trans hr
    exact h.repin hk
  · cases he.symm.trans hr
    exact h
  · cases he.symm.trans hr
    have h₁ : Structural { b₁.setData f data with diskManager := d } (some f) :=
      hfound.structural.congr rfl rfl rfl rfl rfl
    refine h₁.install ?_ ?_ hvalid
    · have : b₁.frameCount = b.frameCount := congrArg trunc32 hfound.poolSize
      exact this ▸ hfound.lt
    · show b₁.pageTable _ = none
      rw [hfound.table, hk]
      simp

theorem Structural.newPage (h : Structural b none) {file : FileId}
    (hvalid : b.nextPageId ≠ invalidPageId) (hfresh : b.pageTable ⟨file, b.nextPageId⟩ = none)
    {r : Option (FrameId × PageId)} (hr : b.newPage file = .ok (r, b')) : Structural b' none := by
  rcases newPage_cases h file with ⟨m, he, _⟩ | ⟨he, _⟩ | ⟨f, b₁, d, hfound, _, he⟩
  · cases he.symm.trans hr
  · cases he.symm.trans hr
    exact h
  · cases he.symm.trans hr
    have h₁ : Structural ({ b₁ with nextPageId := add32 b.nextPageId 1 }.setData f Block.zero)
        (some f) := hfound.structural.congr rfl rfl rfl rfl rfl
    refine (h₁.install ?_ ?_ hvalid).congr rfl rfl rfl rfl rfl
    · have : b₁.frameCount = b.frameCount := congrArg trunc32 hfound.poolSize
      exact this ▸ hfound.lt
    · show b₁.pageTable _ = none
      rw [hfound.table, hfresh]
      simp

/-- As long as there is a free frame, `new_page` takes the first one and leaves the others alone. -/
theorem Structural.newPage_head (h : Structural b none) {file : FileId} {rest : List FrameId}
    (hfree : b.freeFrames = g :: rest) {r : Option (FrameId × PageId)}
    (hr : b.newPage file = .ok (r, b')) :
    r = some (g, b.nextPageId) ∧ b'.freeFrames = rest ∧ b'.nextPageId = add32 b.nextPageId 1 ∧
      b'.pageTable = Function.update b.pageTable ⟨file, b.nextPageId⟩ (some g) ∧
      b'.frameData = Function.update b.frameData (frameOffset g) Block.zero := by
  rcases newPage_cases h file with ⟨_, he, _⟩ | ⟨_, hnil, _⟩ | ⟨f, b₁, d, hf, _, he⟩
  · cases he.symm.trans hr
  · cases hfree.symm.trans hnil
  · cases he.symm.trans hr
    obtain rfl := hf.head g (by rw [hfree]; rfl)
    have htable : b₁.pageTable = b.pageTable := by
      funext k
      rw [hf.table, if_neg]
      intro hk
      refine (h.resident_of_table hk).not_mem ?_
      rw [hfree]
      exact List.mem_cons_self
    have hrest := hf.free
    rw [hfree] at hrest
    refine ⟨rfl, hrest, rfl, ?_, ?_⟩
    · show Function.update b₁.pageTable _ _ = _
      rw [htable]
    · show Function.update b₁.frameData _ _ = _
      rw [hf.frameData]

omit [PageDisk δ] in
/-- `unpin_page` answers `false` and changes nothing, or takes one pin off a resident frame. -/
theorem unpinPage_cases (b : BufferPoolManager δ) (file : FileId) (page : PageId) (dirty : Bool) :
    (b.unpinPage file page dirty = (false, b) ∧
        ∀ f, b.pageTable ⟨file, page⟩ = some f → (b.pages f).pinCount ≤ 0) ∨
      ∃ f, b.pageTable ⟨file, page⟩ = some f ∧ 0 < (b.pages f).pinCount ∧
        b.unpinPage file page dirty = (true,
          { b.setPage f { b.pages f with
              pinCount := (b.pages f).pinCount - 1, isDirty := dirty || (b.pages f).isDirty } with
            replacer := if (b.pages f).pinCount - 1 = 0 then b.replacer.setEvictable f true
              else b.replacer }) := by
  unfold unpinPage
  cases htable : b.pageTable ⟨file, page⟩ with
  | none => exact .inl ⟨rfl, by simp⟩
  | some f =>
      by_cases hpin : (b.pages f).pinCount ≤ 0
      · refine .inl ⟨if_pos hpin, ?_⟩
        rintro g ⟨⟩
        exact hpin
      · refine .inr ⟨f, rfl, by omega, ?_⟩
        simp only [hpin, if_false]
        split <;> rfl

omit [PageDisk δ] in
/-- Taking a pin off moves no page and touches no bytes. -/
theorem unpinPage_keeps (b : BufferPoolManager δ) (file : FileId) (page : PageId) (dirty : Bool) :
    (b.unpinPage file page dirty).2.pageTable = b.pageTable ∧
      (b.unpinPage file page dirty).2.frameData = b.frameData ∧
      (b.unpinPage file page dirty).2.nextPageId = b.nextPageId ∧
      (b.unpinPage file page dirty).2.freeFrames = b.freeFrames := by
  rcases unpinPage_cases b file page dirty with ⟨he, _⟩ | ⟨f, _, _, he⟩
  · rw [he]
    exact ⟨rfl, rfl, rfl, rfl⟩
  · rw [he]
    exact ⟨rfl, rfl, rfl, rfl⟩

omit [PageDisk δ] in
theorem Structural.unpinPage (h : Structural b none) (file : FileId) (page : PageId) (dirty : Bool) :
    Structural (b.unpinPage file page dirty).2 none := by
  rcases unpinPage_cases b file page dirty with ⟨he, _⟩ | ⟨f, hk, hpin, he⟩
  · rw [he]
    exact h
  · rw [he]
    have hf := h.resident_of_table hk
    refine h.setPin hf (by simp) rfl (by simp only; omega) ?_
    by_cases hzero : (b.pages f).pinCount - 1 = 0
    · rw [if_pos hzero, decide_eq_true hzero]
      exact h.tracks.setEvictable (by rw [hf.tracked]; simp) true
    · rw [if_neg hzero, decide_eq_false hzero]
      have hflag := hf.tracked
      rw [show decide ((b.pages f).pinCount = 0) = false from decide_eq_false (by omega)] at hflag
      rw [← hflag, Function.update_eq_self]
      exact h.tracks

/-- `writeBack` throws, or the frame is clean and its bytes are on the disk. -/
theorem writeBack_cases (b : BufferPoolManager δ) (f : FrameId) :
    (∃ message, b.writeBack f = .error (.raised message) ∧
      PageDisk.writePage b.diskManager (b.pages f).fileId (b.pages f).pageId (b.data f) =
        .error (.raised message)) ∨
      ∃ d, PageDisk.writePage b.diskManager (b.pages f).fileId (b.pages f).pageId (b.data f) =
          .ok d ∧
        b.writeBack f =
          .ok { b.setPage f { b.pages f with isDirty := false } with diskManager := d } := by
  unfold writeBack
  cases hw : PageDisk.writePage b.diskManager (b.pages f).fileId (b.pages f).pageId (b.data f) with
  | error fault =>
      obtain ⟨m, rfl⟩ := PageDisk.writePage_throws hw
      exact .inl ⟨m, by simp only [hw, error_bind], rfl⟩
  | ok d => exact .inr ⟨d, rfl, by simp only [hw, ok_bind]; rfl⟩

omit [PageDisk δ] in
theorem Structural.clean (h : Structural b none) (hf : b.Resident f) (d : δ) :
    Structural { b.setPage f { b.pages f with isDirty := false } with diskManager := d } none := by
  have := h.setPin (r := b.replacer) hf (by simp) (p := { b.pages f with isDirty := false }) rfl
    hf.pin_nonneg (by rw [← hf.tracked, Function.update_eq_self]; exact h.tracks)
  exact this.congr rfl rfl rfl rfl rfl

theorem flushPage_cases (b : BufferPoolManager δ) (file : FileId) (page : PageId) :
    (∃ f message, b.flushPage file page = .error (.raised message) ∧
      b.pageTable ⟨file, page⟩ = some f ∧
      PageDisk.writePage b.diskManager (b.pages f).fileId (b.pages f).pageId (b.data f) =
        .error (.raised message)) ∨
      (b.pageTable ⟨file, page⟩ = none ∧ b.flushPage file page = .ok (false, b)) ∨
      ∃ f d, b.pageTable ⟨file, page⟩ = some f ∧
        PageDisk.writePage b.diskManager (b.pages f).fileId (b.pages f).pageId (b.data f) = .ok d ∧
        b.flushPage file page =
          .ok (true, { b.setPage f { b.pages f with isDirty := false } with diskManager := d }) := by
  unfold flushPage
  cases htable : b.pageTable ⟨file, page⟩ with
  | none => exact .inr (.inl ⟨rfl, rfl⟩)
  | some f =>
      rcases writeBack_cases b f with ⟨m, he, hw⟩ | ⟨d, hw, he⟩
      · exact .inl ⟨f, m, by simp only [he, error_bind], rfl, hw⟩
      · exact .inr (.inr ⟨f, d, rfl, hw, by simp only [he, ok_bind]; rfl⟩)

theorem Structural.flushPage (h : Structural b none) {file : FileId} {page : PageId} {r : Bool}
    (hr : b.flushPage file page = .ok (r, b')) : Structural b' none := by
  rcases flushPage_cases b file page with ⟨_, m, he, _⟩ | ⟨_, he⟩ | ⟨f, d, hk, _, he⟩
  · cases he.symm.trans hr
  · cases he.symm.trans hr
    exact h
  · cases he.symm.trans hr
    exact h.clean (h.resident_of_table hk) d

theorem flushFrame_cases (b : BufferPoolManager δ) (f : FrameId) :
    (∃ message, b.flushFrame f = .error (.raised message) ∧
      (b.pages f).pageId ≠ invalidPageId ∧
      PageDisk.writePage b.diskManager (b.pages f).fileId (b.pages f).pageId (b.data f) =
        .error (.raised message)) ∨
      (b.flushFrame f = .ok b ∧
        ((b.pages f).pageId = invalidPageId ∨ (b.pages f).isDirty = false)) ∨
      ∃ d, (b.pages f).pageId ≠ invalidPageId ∧ (b.pages f).isDirty = true ∧
        PageDisk.writePage b.diskManager (b.pages f).fileId (b.pages f).pageId (b.data f) = .ok d ∧
        b.flushFrame f =
          .ok { b.setPage f { b.pages f with isDirty := false } with diskManager := d } := by
  by_cases hp : (b.pages f).pageId ≠ invalidPageId ∧ (b.pages f).isDirty = true
  · have hdirty : b.flushFrame f = b.writeBack f := if_pos hp
    rw [hdirty]
    rcases writeBack_cases b f with ⟨m, he, hw⟩ | ⟨d, hw, he⟩
    · exact .inl ⟨m, he, hp.1, hw⟩
    · exact .inr (.inr ⟨d, hp.1, hp.2, hw, he⟩)
  · refine .inr (.inl ⟨if_neg hp, ?_⟩)
    by_cases hinv : (b.pages f).pageId = invalidPageId
    · exact .inl hinv
    · exact .inr (by simpa using fun hd => hp ⟨hinv, hd⟩)

omit [PageDisk δ] in
theorem Structural.resident_of_page (h : Structural b none) (hlt : f < b.frameCount)
    (hp : (b.pages f).pageId ≠ invalidPageId) : b.Resident f := by
  rcases h.frames f hlt (by simp) with hf | hf
  · exact absurd hf.no_page hp
  · exact hf

theorem Structural.flushFrame (h : Structural b none) (hlt : f < b.frameCount)
    (hr : b.flushFrame f = .ok b') : Structural b' none ∧ b'.frameCount = b.frameCount := by
  rcases flushFrame_cases b f with ⟨m, he, _⟩ | ⟨he, _⟩ | ⟨d, hp, _, _, he⟩
  · cases he.symm.trans hr
  · cases he.symm.trans hr
    exact ⟨h, rfl⟩
  · cases he.symm.trans hr
    exact ⟨h.clean (h.resident_of_page hlt hp) d, rfl⟩

theorem Structural.flushFrames (h : Structural b none) {fs : List FrameId}
    (hlt : ∀ f ∈ fs, f < b.frameCount) (hr : fs.foldlM BufferPoolManager.flushFrame b = .ok b') :
    Structural b' none := by
  induction fs generalizing b with
  | nil =>
      cases hr
      exact h
  | cons f fs ih =>
      rw [List.foldlM_cons] at hr
      obtain ⟨b₁, hf, hrest⟩ := bind_eq_ok.mp hr
      obtain ⟨h₁, hcount⟩ := h.flushFrame (hlt f List.mem_cons_self) hf
      exact ih h₁ (fun g hg => hcount ▸ hlt g (List.mem_cons_of_mem f hg)) hrest

theorem Structural.flushAllPages (h : Structural b none) (hr : b.flushAllPages = .ok b') :
    Structural b' none :=
  h.flushFrames (fun _ hf => List.mem_range.mp hf) hr

omit [PageDisk δ] in
/-- `delete_page` never meets a frame that is not evictable. -/
theorem Structural.deletePage (h : Structural b none) (file : FileId) (page : PageId) :
    ∃ r b', b.deletePage file page = .ok (r, b') ∧ Structural b' none := by
  unfold BufferPoolManager.deletePage
  cases hk : b.pageTable ⟨file, page⟩ with
  | none => exact ⟨true, b, rfl, h⟩
  | some f =>
      have hf := h.resident_of_table hk
      have hlt := h.lt_of_table hk
      have hkey := h.key_of_table hk
      by_cases hpin : (b.pages f).pinCount > 0
      · exact ⟨false, b, if_pos hpin, h⟩
      · have hzero : (b.pages f).pinCount = 0 := by
          have := hf.pin_nonneg
          omega
        obtain ⟨r, hr, htracks⟩ := h.tracks.remove
          (hf.tracked.trans (congrArg some (decide_eq_true hzero)))
        simp only [hpin, if_false, hr, ok_bind]
        refine ⟨true, _, rfl, ?_⟩
        have hout := h.takeOut (f := f) (l := b.freeFrames) (d := b.diskManager) hlt h.nodup_free
          (fun g => ⟨fun hg => ⟨hg, fun he => hf.not_mem (he ▸ hg)⟩, And.left⟩) htracks
          (h.table_erase hf)
        rw [hkey] at hout
        have hflags : r.flags = Function.update b.replacer.flags f none := htracks.eq_flags
        have hpage : ∀ g, g ≠ f → Function.update b.pages f Page.empty g = b.pages g := fun g hg =>
          Function.update_of_ne hg _ _
        have hself : Function.update b.pages f Page.empty f = Page.empty := Function.update_self _ _ _
        have hmem : ∀ g, g ≠ f → (g ∈ b.freeFrames ++ [f] ↔ g ∈ b.freeFrames) := by
          intro g hg
          simp [hg]
        constructor
        case tracks => exact hout.tracks
        case nodup_free =>
          exact List.Nodup.append h.nodup_free (List.nodup_singleton f) (by simpa using hf.not_mem)
        case frames =>
          intro g hg _
          by_cases hgf : g = f
          · subst hgf
            refine .inl ⟨by simp [setData, setPage], ?_, ?_, ?_⟩
            · show (Function.update b.pages g Page.empty g).pageId = _
              rw [hself]
              rfl
            · show (Function.update b.pages g Page.empty g).pinCount = _
              rw [hself]
              rfl
            · show r.flags g = none
              rw [hflags, Function.update_self]
          · rcases hout.frames g hg (fun he => hgf (Option.some.inj he)) with hg' | hg'
            · exact .inl (hg'.congr (hmem g hgf) (hpage g hgf) rfl)
            · exact .inr (hg'.congr (hmem g hgf) (hpage g hgf) hg'.table rfl)
        case table =>
          intro k g hk'
          obtain ⟨hlt', hne, hkey', hvalid⟩ := hout.table k g hk'
          refine ⟨hlt', by simp, ?_, hvalid⟩
          show (Function.update b.pages f Page.empty g).key = k
          rw [hpage g fun he => hne (congrArg some he)]
          exact hkey'
        case free_lt =>
          intro g hg
          rcases List.mem_append.mp hg with hg | hg
          · exact ⟨(h.free_lt g hg).1, by simp⟩
          · exact ⟨(List.mem_singleton.mp hg) ▸ hlt, by simp⟩
        case tracked_lt =>
          exact fun g hg => ⟨(hout.tracked_lt g hg).1, by simp⟩

omit [PageDisk δ] in
theorem Structural.create (poolSize : Nat) (d : δ) :
    Structural (BufferPoolManager.create poolSize d) none := by
  constructor
  case tracks => exact ArcReplacer.Tracks.create poolSize
  case nodup_free => exact List.nodup_range
  case frames => exact fun f hf _ => .inl ⟨List.mem_range.mpr hf, rfl, rfl, rfl⟩
  case table => exact fun k f hk => by cases hk
  case free_lt => exact fun f hf => ⟨List.mem_range.mp hf, by simp⟩
  case tracked_lt => exact fun f hf => absurd rfl hf

end BufferPoolManager

end TurtleDb.Buffer
