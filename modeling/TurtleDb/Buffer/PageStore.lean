import TurtleDb.Buffer.Lemmas.Contents

/-!
# The pool refines a page store

A client holds pins, through guards and on the pages `new_page` returned, and changes bytes where it
may. The store is what the client wrote last. The pool shows it through every pin, and a flush of
all pages leaves it on the disk.
-/

namespace TurtleDb.Buffer

open TurtleDb.Lib BufferPoolManager

/-- A read guard, a write guard, or the pin of `new_page` with what the client did to the page. -/
inductive PinKind where
  | read
  | write
  | fresh (changed : Bool)
  deriving DecidableEq, Repr

structure Pin where
  key : PageKey
  frame : FrameId
  kind : PinKind
  deriving DecidableEq, Repr

namespace Pin

/-- Bytes may have been changed through the pin without the dirty flag being set. -/
def Changed (p : Pin) : Prop := p.kind = .write ∨ p.kind = .fresh true

/-- The pin after its holder changed the page. -/
def touch (p : Pin) : Pin :=
  match p.kind with
  | .fresh _ => { p with kind := .fresh true }
  | _ => p

/-- Giving the pin back: a guard drops itself, and a page of `new_page` is unpinned by its client. -/
def release {δ : Type} (p : Pin) (b : BufferPoolManager δ) (isDirty : Bool) :
    BufferPoolManager δ :=
  match p.kind with
  | .read => ReadPageGuard.drop b p.frame
  | .write => WritePageGuard.drop b p.frame
  | .fresh _ => (b.unpinPage p.key.fileId p.key.pageId isDirty).2

end Pin

structure Client (δ : Type) where
  pool : BufferPoolManager δ
  pins : List Pin
  /-- What was last written to each page that was handed out. -/
  store : PageKey → Option PageData

namespace Client

variable {δ : Type} [PageDisk δ] [LawfulPageDisk δ]

/-- The runs of one client: pages it reads and writes were handed out, bytes change through a write
guard or on a new page that will be given back as dirty, and a pin is given back once. -/
inductive Reachable (poolSize : Nat) (d : δ) : Nat → Client δ → Prop where
  | create : Reachable poolSize d 0
      { pool := BufferPoolManager.create poolSize d, pins := [], store := fun _ => none }
  | newPage {n c f page pool file} (h : Reachable poolSize d n c) (hn : n + 1 < invalidPageId)
      (hopen : LawfulPageDisk.opened c.pool.diskManager file)
      (hr : c.pool.newPage file = .ok (some (f, page), pool)) :
      Reachable poolSize d (n + 1)
        { pool
          pins := ⟨⟨file, page⟩, f, .fresh false⟩ :: c.pins
          store := Function.update c.store ⟨file, page⟩ (some Block.zero) }
  | newPageFull {n c pool file} (h : Reachable poolSize d n c) (hn : n + 1 < invalidPageId)
      (hopen : LawfulPageDisk.opened c.pool.diskManager file)
      (hr : c.pool.newPage file = .ok (none, pool)) :
      Reachable poolSize d (n + 1) { c with pool }
  | readPage {n c file page r pool} (h : Reachable poolSize d n c) (hk : c.store ⟨file, page⟩ ≠ none)
      (hr : c.pool.readPage file page = .ok (r, pool)) :
      Reachable poolSize d n
        { c with pool, pins := (r.map fun f => ⟨⟨file, page⟩, f, .read⟩).toList ++ c.pins }
  | writePage {n c file page r pool} (h : Reachable poolSize d n c)
      (hk : c.store ⟨file, page⟩ ≠ none) (hr : c.pool.writePage file page = .ok (r, pool)) :
      Reachable poolSize d n
        { c with pool, pins := (r.map fun f => ⟨⟨file, page⟩, f, .write⟩).toList ++ c.pins }
  | change {n c pre p post} (h : Reachable poolSize d n c) (hp : c.pins = pre ++ p :: post)
      (hkind : p.kind ≠ .read) (data : PageData) :
      Reachable poolSize d n
        { pool := c.pool.setData p.frame data
          pins := pre ++ p.touch :: post
          store := Function.update c.store p.key (some data) }
  | release {n c pre p post} (h : Reachable poolSize d n c) (hp : c.pins = pre ++ p :: post)
      (isDirty : Bool) (hdirty : p.kind = .fresh true → isDirty = true) :
      Reachable poolSize d n { c with pool := p.release c.pool isDirty, pins := pre ++ post }
  | flushPage {n c file page r pool} (h : Reachable poolSize d n c)
      (hr : c.pool.flushPage file page = .ok (r, pool)) : Reachable poolSize d n { c with pool }
  | flushAllPages {n c pool} (h : Reachable poolSize d n c) (hr : c.pool.flushAllPages = .ok pool) :
      Reachable poolSize d n { c with pool }

/-! ## The invariant -/

/-- The pins on a page. -/
def held (pins : List Pin) (k : PageKey) : Nat := pins.countP fun p => p.key == k

/-- Someone may have changed the page without the dirty flag being set. -/
def pending (pins : List Pin) (k : PageKey) : Prop := ∃ p ∈ pins, p.key = k ∧ p.Changed

structure Invariant (poolSize n : Nat) (c : Client δ) : Prop where
  backs : Backs c.pool none (held c.pins) (pending c.pins) c.store
  frames : ∀ p ∈ c.pins, c.pool.pageTable p.key = some p.frame
  poolSize : c.pool.poolSize = poolSize
  next_le : n ≥ c.pool.nextPageId
  store_lt : ∀ k, c.store k ≠ none → k.pageId < c.pool.nextPageId
  calls : n < invalidPageId

theorem held_cons (p : Pin) (pins : List Pin) :
    held (p :: pins) = Function.update (held pins) p.key (held pins p.key + 1) := by
  funext k
  unfold held
  rw [List.countP_cons]
  by_cases hk : k = p.key
  · rw [hk, Function.update_self]
    simp
  · rw [Function.update_of_ne hk]
    simp [Ne.symm hk]

theorem held_middle (pre post : List Pin) (p : Pin) :
    held (pre ++ p :: post) = held (p :: (pre ++ post)) := by
  funext k
  have hperm : (pre ++ p :: post).Perm (p :: (pre ++ post)) := List.perm_middle
  exact hperm.countP_eq _

theorem held_pos {pins : List Pin} {p : Pin} (hp : p ∈ pins) : 0 < held pins p.key :=
  List.countP_pos_iff.mpr ⟨p, hp, by simp⟩

theorem pending_middle (pre post : List Pin) (p : Pin) (k : PageKey) :
    pending (pre ++ p :: post) k ↔ (p.key = k ∧ p.Changed) ∨ pending (pre ++ post) k := by
  unfold pending
  constructor
  · rintro ⟨q, hq, hk, hc⟩
    rw [List.mem_append, List.mem_cons] at hq
    rcases hq with hq | rfl | hq
    · exact .inr ⟨q, List.mem_append_left _ hq, hk, hc⟩
    · exact .inl ⟨hk, hc⟩
    · exact .inr ⟨q, List.mem_append_right _ hq, hk, hc⟩
  · rintro (⟨hk, hc⟩ | ⟨q, hq, hk, hc⟩)
    · exact ⟨p, by simp, hk, hc⟩
    · refine ⟨q, ?_, hk, hc⟩
      rw [List.mem_append, List.mem_cons]
      rcases List.mem_append.mp hq with hq | hq
      · exact .inl hq
      · exact .inr (.inr hq)

theorem touch_key (p : Pin) : p.touch.key = p.key ∧ p.touch.frame = p.frame := by
  cases p with
  | mk key frame kind => cases kind <;> exact ⟨rfl, rfl⟩

theorem touch_changed {p : Pin} (h : p.kind ≠ .read) : p.touch.Changed := by
  cases p with
  | mk key frame kind =>
      cases kind with
      | read => exact absurd rfl h
      | write => exact .inl rfl
      | fresh _ => exact .inr rfl

theorem held_touch (pre post : List Pin) (p : Pin) :
    held (pre ++ p.touch :: post) = held (pre ++ p :: post) := by
  rw [held_middle, held_middle, held_cons, held_cons, (touch_key p).1]

namespace Invariant

variable {poolSize n : Nat} {d : δ} {c : Client δ}

theorem create : Invariant poolSize 0
    { pool := BufferPoolManager.create poolSize d, pins := [], store := fun _ => none } where
  backs := by
    have hpending : (fun _ => False) = pending [] := by
      funext k
      simp [pending]
    rw [← hpending]
    exact .create poolSize d
  frames := fun _ hp => absurd hp List.not_mem_nil
  poolSize := rfl
  next_le := Nat.le_refl 0
  store_lt := fun _ hk => absurd rfl hk
  calls := by decide

theorem head_low (h : Invariant poolSize n c) (hsize : trunc32 poolSize ≤ frameLimit) {g : FrameId}
    (hg : c.pool.freeFrames.head? = some g) : g < frameLimit := by
  have hlt := (h.backs.structural.free_lt g (List.mem_of_mem_head? hg)).1
  have hcount : c.pool.frameCount = trunc32 poolSize := congrArg trunc32 h.poolSize
  exact Nat.lt_of_lt_of_le (hcount ▸ hlt) hsize

/-- The pool moved on; pins and store are as before. -/
theorem setPool (h : Invariant poolSize n c) {pool : BufferPoolManager δ}
    (hback : Backs pool none (held c.pins) (pending c.pins) c.store)
    (htable : pool.pageTable = c.pool.pageTable) (hsize : pool.poolSize = c.pool.poolSize)
    (hnext : pool.nextPageId = c.pool.nextPageId) : Invariant poolSize n { c with pool } where
  backs := hback
  frames := fun p hp => (congrFun htable p.key).trans (h.frames p hp)
  poolSize := hsize.trans h.poolSize
  next_le := hnext ▸ h.next_le
  store_lt := fun k hk => hnext ▸ h.store_lt k hk
  calls := h.calls

theorem newPage (h : Invariant poolSize n c)
    (hlow : ∀ g, c.pool.freeFrames.head? = some g → g < frameLimit)
    (hn : n + 1 < invalidPageId) {file : FileId}
    (hopen : LawfulPageDisk.opened c.pool.diskManager file)
    {r : Option (FrameId × PageId)} {pool : BufferPoolManager δ}
    (hr : c.pool.newPage file = .ok (r, pool)) :
    match r with
    | none => Invariant poolSize (n + 1) { c with pool }
    | some (f, page) => Invariant poolSize (n + 1)
        { pool
          pins := ⟨⟨file, page⟩, f, .fresh false⟩ :: c.pins
          store := Function.update c.store ⟨file, page⟩ (some Block.zero) } := by
  have hle := h.next_le
  have hfresh : c.store ⟨file, c.pool.nextPageId⟩ = none := by
    by_contra hne
    exact Nat.lt_irrefl _ (h.store_lt _ hne)
  have hvalid : c.pool.nextPageId ≠ invalidPageId := fun he => by
    rw [he] at hle
    exact absurd h.calls (Nat.not_lt.mpr hle)
  rcases h.backs.newPage hfresh hvalid hopen hlow with
    ⟨he, _⟩ | ⟨f, b', he, hback, hf, hnext, hund⟩
  · cases he.symm.trans hr
    exact ⟨h.backs, h.frames, h.poolSize, Nat.le_succ_of_le h.next_le, h.store_lt, hn⟩
  · cases he.symm.trans hr
    have hnone : c.pool.pageTable ⟨file, c.pool.nextPageId⟩ = none := by
      by_contra hne
      obtain ⟨g, hg⟩ := Option.ne_none_iff_exists'.mp hne
      exact h.backs.store_ne hg hfresh
    have hadd : pool.nextPageId = c.pool.nextPageId + 1 := by
      rw [hnext]
      exact Nat.mod_eq_of_lt (by simp only [invalidPageId, word32] at *; omega)
    constructor
    case backs =>
      have hheld := h.backs.unpinned _ hnone
      have hpending : pending (⟨⟨file, c.pool.nextPageId⟩, f, .fresh false⟩ :: c.pins) =
          pending c.pins := by
        funext k
        apply propext
        constructor
        · rintro ⟨q, hq, hk, hc⟩
          rcases List.mem_cons.mp hq with rfl | hq
          · rcases hc with hc | hc <;> cases hc
          · exact ⟨q, hq, hk, hc⟩
        · rintro ⟨q, hq, hk, hc⟩
          exact ⟨q, List.mem_cons_of_mem _ hq, hk, hc⟩
      rw [held_cons, hheld, hpending]
      exact hback
    case frames =>
      intro p hp
      rcases List.mem_cons.mp hp with rfl | hp
      · exact hf
      · exact hund.table _ _ (held_pos hp) (h.frames p hp)
    case poolSize => exact hund.poolSize.trans h.poolSize
    case next_le =>
      show n + 1 ≥ pool.nextPageId
      rw [hadd]
      exact Nat.succ_le_succ hle
    case store_lt =>
      intro k hk
      show k.pageId < pool.nextPageId
      rw [hadd]
      by_cases hkk : k = ⟨file, c.pool.nextPageId⟩
      · rw [hkk]
        exact Nat.lt_succ_self _
      · refine Nat.lt_succ_of_lt (h.store_lt k ?_)
        show c.store k ≠ none
        have hk' : Function.update c.store ⟨file, c.pool.nextPageId⟩ (some Block.zero) k ≠ none := hk
        rwa [Function.update_of_ne hkk] at hk'
    case calls => exact hn

theorem fetchPage (h : Invariant poolSize n c) (hsize : trunc32 poolSize ≤ frameLimit)
    {file : FileId} {page : PageId} (hk : c.store ⟨file, page⟩ ≠ none) (kind : PinKind)
    {r : Option FrameId} {pool : BufferPoolManager δ}
    (hr : c.pool.fetchPage file page = .ok (r, pool)) :
    Invariant poolSize n
      { c with pool, pins := (r.map fun f => ⟨⟨file, page⟩, f, kind⟩).toList ++ c.pins } := by
  obtain ⟨data, hdata⟩ := Option.ne_none_iff_exists'.mp hk
  have hmax : held c.pins ⟨file, page⟩ ≠ 2147483647 := by
    intro hmax
    obtain ⟨f, hf⟩ := h.backs.resident (k := ⟨file, page⟩) (by omega)
    have hpin := h.backs.pinned _ f hf
    have hover : c.pool.fetchPage file page = .error .overflow := by
      unfold BufferPoolManager.fetchPage
      simp only [hf]
      exact if_pos (by rw [hpin, hmax]; rfl)
    cases hover.symm.trans hr
  rcases h.backs.fetchPage hdata hmax fun _ g hg => h.head_low hsize hg with
    ⟨he, _⟩ | ⟨f, b', he, hback, hf, hnext, hund⟩
  · cases he.symm.trans hr
    exact h
  · cases he.symm.trans hr
    refine ⟨?_, ?_, hund.poolSize.trans h.poolSize, hnext ▸ h.next_le,
      fun k hk => hnext ▸ h.store_lt k hk, h.calls⟩
    · show Backs pool none (held (⟨⟨file, page⟩, f, kind⟩ :: c.pins)) _ _
      rw [held_cons]
      refine hback.morePending (fun k ⟨q, hq, hk, hc⟩ => ⟨q, List.mem_cons_of_mem _ hq, hk, hc⟩) ?_
      intro k ⟨q, hq, hkey, _⟩
      rw [← held_cons ⟨⟨file, page⟩, f, kind⟩, ← hkey]
      exact held_pos hq
    · intro p hp
      rcases List.mem_cons.mp hp with rfl | hp
      · exact hf
      · exact hund.table _ _ (held_pos hp) (h.frames p hp)

theorem change (h : Invariant poolSize n c) {pre post : List Pin} {p : Pin}
    (hp : c.pins = pre ++ p :: post) (hkind : p.kind ≠ .read) (data : PageData) :
    Invariant poolSize n
      { pool := c.pool.setData p.frame data
        pins := pre ++ p.touch :: post
        store := Function.update c.store p.key (some data) } := by
  have hmem : p ∈ c.pins := by rw [hp]; simp
  have hf := h.frames p hmem
  obtain ⟨hkey, hframe⟩ := touch_key p
  refine ⟨?_, ?_, h.poolSize, h.next_le, ?_, h.calls⟩
  · have hback := h.backs.setData hf (held_pos hmem) data
    have hpending : (fun k' => k' = p.key ∨ pending c.pins k') =
        pending (pre ++ p.touch :: post) := by
      funext k
      rw [hp, pending_middle, pending_middle, hkey]
      have := touch_changed hkind
      grind
    rw [hpending, hp, ← held_touch] at hback
    exact hback
  · intro q hq
    show c.pool.pageTable q.key = some q.frame
    rw [List.mem_append, List.mem_cons] at hq
    rcases hq with hq | rfl | hq
    · exact h.frames q (by rw [hp]; simp [hq])
    · rw [hkey, hframe]
      exact hf
    · exact h.frames q (by rw [hp]; simp [hq])
  · intro k hk
    by_cases hkk : k = p.key
    · rw [hkk]
      exact h.store_lt _ (h.backs.store_ne hf)
    · have hk' : Function.update c.store p.key (some data) k ≠ none := hk
      rw [Function.update_of_ne hkk] at hk'
      exact h.store_lt k hk'

theorem release_eq (h : Invariant poolSize n c) {p : Pin} (hp : p ∈ c.pins) (isDirty : Bool) :
    ∃ dirty, p.release c.pool isDirty = (c.pool.unpinPage p.key.fileId p.key.pageId dirty).2 ∧
      (p.kind = .write → dirty = true) ∧ (∀ changed, p.kind = .fresh changed → dirty = isDirty) := by
  have hkey := h.backs.structural.key_of_table (h.frames p hp)
  unfold Pin.release ReadPageGuard.drop WritePageGuard.drop
  cases hkind : p.kind with
  | read => exact ⟨false, by rw [← hkey]; rfl, by simp, by simp⟩
  | write => exact ⟨true, by rw [← hkey]; rfl, by simp, by simp⟩
  | fresh _ => exact ⟨isDirty, rfl, by simp, by simp⟩

theorem release (h : Invariant poolSize n c) {pre post : List Pin} {p : Pin}
    (hp : c.pins = pre ++ p :: post) (isDirty : Bool)
    (hdirty : p.kind = .fresh true → isDirty = true) :
    Invariant poolSize n { c with pool := p.release c.pool isDirty, pins := pre ++ post } := by
  have hmem : p ∈ c.pins := by rw [hp]; simp
  obtain ⟨dirty, hrel, hwrite, hfresh⟩ := h.release_eq hmem isDirty
  have hheld : Function.update (held c.pins) p.key (held c.pins p.key - 1) = held (pre ++ post) := by
    rw [hp, held_middle, held_cons, Function.update_self, Function.update_idem,
      Nat.add_sub_cancel, Function.update_eq_self]
  obtain ⟨b', he, hback, htable, _, hsize, hnext, _⟩ :=
    h.backs.unpinPage (held_pos hmem) dirty (P := pending (pre ++ post))
      (fun k ⟨q, hq, hk, _⟩ => by rw [hheld, ← hk]; exact held_pos hq) fun k hk => by
        rw [hp, pending_middle] at hk
        rcases hk with ⟨hk, hc | hc⟩ | hk
        · exact .inr ⟨hk.symm, hwrite hc⟩
        · exact .inr ⟨hk.symm, (hfresh true hc).trans (hdirty hc)⟩
        · exact .inl hk
  rw [hheld] at hback
  rw [hrel, he]
  refine ⟨hback, ?_, hsize.trans h.poolSize, hnext ▸ h.next_le,
    fun k hk => hnext ▸ h.store_lt k hk, h.calls⟩
  intro q hq
  refine (congrFun htable q.key).trans (h.frames q ?_)
  rw [hp]
  rcases List.mem_append.mp hq with hq | hq
  · simp [hq]
  · simp [hq]

end Invariant

variable {poolSize n : Nat} {d : δ} {c : Client δ}

theorem Reachable.invariant (hsize : trunc32 poolSize ≤ frameLimit)
    (h : Reachable poolSize d n c) : Invariant poolSize n c := by
  induction h with
  | create => exact .create
  | newPage h hn hopen hr ih => exact ih.newPage (fun _ hg => ih.head_low hsize hg) hn hopen hr
  | newPageFull h hn hopen hr ih => exact ih.newPage (fun _ hg => ih.head_low hsize hg) hn hopen hr
  | readPage h hk hr ih => exact ih.fetchPage hsize hk .read hr
  | writePage h hk hr ih => exact ih.fetchPage hsize hk .write hr
  | change h hp hkind data ih => exact ih.change hp hkind data
  | release h hp isDirty hdirty ih => exact ih.release hp isDirty hdirty
  | flushPage h hr ih =>
      obtain ⟨r', b', hr', hback, htable, hsize, hnext⟩ := ih.backs.flushPage _ _
      cases hr'.symm.trans hr
      exact ih.setPool hback htable hsize hnext
  | flushAllPages h hr ih =>
      obtain ⟨b', hr', hback, htable, hsize, _, hnext, _⟩ := ih.backs.flushAllPages
      cases hr'.symm.trans hr
      exact ih.setPool hback htable hsize hnext

/-- With at most 1048576 frames, every pin shows what was last written to its page, and once no one
may have unmarked changes a flush of all pages leaves the store on the disk. -/
theorem reachable_shows_store (poolSize : Nat) (hsize : trunc32 poolSize ≤ frameLimit) (d : δ)
    (n : Nat) (c : Client δ) (h : Reachable poolSize d n c) :
    (∀ p ∈ c.pins, c.store p.key = some (c.pool.data p.frame)) ∧
      ((∀ p ∈ c.pins, ¬ p.Changed) → ∃ pool, c.pool.flushAllPages = .ok pool ∧
        ∀ k data, c.store k = some data →
          LawfulPageDisk.content pool.diskManager k = some data) := by
  have hinv := h.invariant hsize
  refine ⟨fun p hp => hinv.backs.bytes _ _ (hinv.frames p hp), fun hno => ?_⟩
  obtain ⟨pool, hr, _, _, _, _, _, hdisk⟩ := hinv.backs.flushAllPages
  exact ⟨pool, hr, fun k data hk => hdisk k data hk fun ⟨p, hp, _, hc⟩ => hno p hp hc⟩

/-- A page of ones. -/
def ones : PageData := fun _ => 1

theorem zero_ne_ones : (Block.zero : PageData) ≠ ones := fun h =>
  absurd (congrFun h (0 : Fin 4096)) (by decide)

theorem reachable_shows_store_reloaded :
    ∃ c, Reachable 1 Disk.PageMap.zero 2 c ∧ c.store ⟨0, 0⟩ = some ones ∧
      (∀ p ∈ c.pins, c.store p.key = some (c.pool.data p.frame)) ∧
      ((∀ p ∈ c.pins, ¬ p.Changed) → ∃ pool, c.pool.flushAllPages = .ok pool ∧
        ∀ k data, c.store k = some data →
          LawfulPageDisk.content pool.diskManager k = some data) := by
  have h₁ := @Reachable.newPage _ _ _ 1 Disk.PageMap.zero _ _ _ _ _ 0 .create (by decide) trivial rfl
  have h₂ := Reachable.change h₁ (List.nil_append _).symm (by decide) ones
  have h₃ := Reachable.release h₂ (List.nil_append _).symm true (fun _ => rfl)
  have h₄ := @Reachable.newPage _ _ _ _ _ _ _ _ _ _ 0 h₃ (by decide) trivial rfl
  have h₅ := Reachable.release h₄ (List.nil_append _).symm false (by decide)
  have h₆ := @Reachable.readPage _ _ _ _ _ _ _ 0 0 _ _ h₅ (by decide) rfl
  exact ⟨_, h₆, rfl, reachable_shows_store 1 (by decide) Disk.PageMap.zero 2 _ h₆⟩

/-- A page of `new_page` that was changed but not given back is not dirty, and a flush of all pages
leaves it out. -/
theorem flush_misses_changed : ∃ (c : Client Disk.PageMap) (pool : BufferPoolManager Disk.PageMap),
    Reachable 1 Disk.PageMap.zero 1 c ∧ (∀ p ∈ c.pins, p.kind ≠ .write) ∧
      c.pool.flushAllPages = .ok pool ∧ c.store ⟨0, 0⟩ = some ones ∧
      pool.diskManager ⟨0, 0⟩ ≠ ones := by
  have h₁ := @Reachable.newPage _ _ _ 1 Disk.PageMap.zero _ _ _ _ _ 0 .create (by decide) trivial rfl
  have h₂ := Reachable.change h₁ (List.nil_append _).symm (by decide) ones
  exact ⟨_, _, h₂, by simp [Pin.touch], rfl, rfl, zero_ne_ones⟩

theorem newPage_head {b : BufferPoolManager Disk.PageMap} (h : Structural b none) {g : FrameId}
    {rest : List FrameId} (hfree : b.freeFrames = g :: rest) (file : FileId) :
    ∃ b', b.newPage file = .ok (some (g, b.nextPageId), b') ∧ b'.freeFrames = rest ∧
      b'.nextPageId = add32 b.nextPageId 1 ∧ b'.data g = Block.zero := by
  rcases newPage_cases h file with ⟨_, _, ⟨hf⟩ | ⟨f, b₁, _, hw⟩⟩ | ⟨_, hnil, _⟩ |
    ⟨f, b₁, d, hf, _, he⟩
  · unfold findFrame at hf
    rw [hfree] at hf
    rcases vacate_cases { b with freeFrames := rest } g with ⟨_, _, _, hw⟩ | ⟨hv, _⟩ | ⟨_, hv, _⟩
    · cases hw
    · simp only [hv, ok_bind] at hf
      cases hf
    · simp only [hv, ok_bind] at hf
      cases hf
  · cases hw
  · rw [hfree] at hnil
    cases hnil
  · rw [← hf.head g (by rw [hfree]; rfl)]
    refine ⟨_, he, ?_, rfl, data_setData_self _⟩
    have hrest := hf.free
    rw [hfree] at hrest
    exact hrest

/-- A client that has called `new_page` `m` times, with the other frames of the pool still free. -/
structure Filling (size m : Nat) (c : Client Disk.PageMap) : Prop where
  reachable : Reachable size Disk.PageMap.zero m c
  invariant : Invariant size m c
  free : c.pool.freeFrames = List.range' m (trunc32 size - m)
  next : c.pool.nextPageId = m

theorem Filling.create (size : Nat) : Filling size 0
    { pool := BufferPoolManager.create size Disk.PageMap.zero, pins := [],
      store := fun _ => none } :=
  ⟨.create, .create, List.range_eq_range', rfl⟩

theorem Filling.newPage {size m : Nat} {c : Client Disk.PageMap} (h : Filling size m c)
    (hlt : m < trunc32 size) (hlow : m < frameLimit) :
    ∃ pool, Filling size (m + 1)
      { pool
        pins := ⟨⟨0, m⟩, m, .fresh false⟩ :: c.pins
        store := Function.update c.store ⟨0, m⟩ (some Block.zero) } := by
  have hrange : trunc32 size - m = (trunc32 size - (m + 1)) + 1 := by omega
  have hfree := h.free
  rw [hrange, List.range'_succ] at hfree
  obtain ⟨pool, hr, hrest, hnext, _⟩ := newPage_head h.invariant.backs.structural hfree 0
  have hcall : m + 1 < invalidPageId := by
    simp only [frameLimit, invalidPageId] at *
    omega
  rw [h.next] at hr hnext
  refine ⟨pool, h.reachable.newPage hcall trivial hr, h.invariant.newPage ?_ hcall trivial hr,
    hrest, ?_⟩
  · intro g hg
    rw [hfree] at hg
    exact (Option.some.inj hg) ▸ hlow
  · rw [hnext]
    exact Nat.mod_eq_of_lt (by simp only [frameLimit, word32] at *; omega)

/-- The first page was changed and is still held. -/
theorem exists_filling {size m : Nat} (hpos : 0 < m) (hle : m ≤ trunc32 size)
    (hlow : m ≤ frameLimit) :
    ∃ c, Filling size m c ∧ ⟨⟨0, 0⟩, 0, .fresh true⟩ ∈ c.pins ∧ c.store ⟨0, 0⟩ = some ones := by
  induction m with
  | zero => exact absurd hpos (Nat.lt_irrefl 0)
  | succ m ih =>
      rcases Nat.eq_zero_or_pos m with hm | hm
      · rw [hm] at hle hlow ⊢
        obtain ⟨pool, h⟩ := (Filling.create size).newPage hle hlow
        exact ⟨_, ⟨h.reachable.change (List.nil_append _).symm (by decide) ones,
          h.invariant.change (List.nil_append _).symm (by decide) ones, h.free, h.next⟩,
          List.mem_cons_self, rfl⟩
      · obtain ⟨c, h, hp, hstore⟩ := ih hm (Nat.le_of_succ_le hle) (Nat.le_of_succ_le hlow)
        obtain ⟨pool, h'⟩ := h.newPage hle hlow
        refine ⟨_, h', List.mem_cons_of_mem _ hp, ?_⟩
        show Function.update c.store ⟨0, m⟩ (some Block.zero) ⟨0, 0⟩ = some ones
        rw [Function.update_of_ne, hstore]
        intro he
        have : 0 = m := congrArg PageKey.pageId he
        omega

/-- With 1048577 frames the last one has the bytes of the first: the pin on the first page shows
the zeros of the last. -/
theorem last_frame_overlaps : ∃ c, ∃ p ∈ c.pins,
    Reachable 1048577 Disk.PageMap.zero 1048577 c ∧ c.store p.key = some ones ∧
      c.pool.data p.frame = Block.zero := by
  obtain ⟨c, h, hp, hstore⟩ : ∃ c, Filling 1048577 1048576 c ∧ _ :=
    exists_filling (by decide) (by decide) (by decide)
  have hfree := h.free
  rw [show trunc32 1048577 - 1048576 = 1 by decide, List.range'_one] at hfree
  obtain ⟨pool, hr, _, _, hdata⟩ := newPage_head h.invariant.backs.structural hfree 0
  have hoff : pool.data 0 = pool.data 1048576 :=
    congrArg pool.frameData (by decide : frameOffset 0 = frameOffset 1048576)
  refine ⟨_, _, List.mem_cons_of_mem _ hp, h.reachable.newPage (by decide) trivial hr, ?_, ?_⟩
  case refine_2 =>
    show pool.data 0 = Block.zero
    rw [hoff]
    exact hdata
  show Function.update c.store ⟨0, c.pool.nextPageId⟩ (some Block.zero) ⟨0, 0⟩ = some ones
  rw [h.next, Function.update_of_ne (by decide), hstore]

/-- The two ways a page differs from what was last written to it. -/
theorem store_not_shown :
    (∃ (c : Client Disk.PageMap) (pool : BufferPoolManager Disk.PageMap),
      Reachable 1 Disk.PageMap.zero 1 c ∧ (∀ p ∈ c.pins, p.kind ≠ .write) ∧
        c.pool.flushAllPages = .ok pool ∧ c.store ⟨0, 0⟩ = some ones ∧
        pool.diskManager ⟨0, 0⟩ ≠ ones) ∧
      ∃ c, ∃ p ∈ c.pins, Reachable 1048577 Disk.PageMap.zero 1048577 c ∧
        c.store p.key ≠ some (c.pool.data p.frame) := by
  refine ⟨flush_misses_changed, ?_⟩
  obtain ⟨c, p, hp, h, hstore, hdata⟩ := last_frame_overlaps
  refine ⟨c, p, hp, h, ?_⟩
  rw [hstore, hdata]
  exact fun he => zero_ne_ones (Option.some.inj he).symm

end Client

end TurtleDb.Buffer
