import TurtleDb.Buffer.BufferPoolManager

/-!
# Page guards of many clients

`storage/page/{read,write}_page_guard.{hpp,cpp}` over one pool. A call of the pool is one step, and
so is each thing a guard does: its frame is fetched, its latch locked, its bytes are accessed, the
latch is unlocked, the frame unpinned. Any step may come next, whichever client takes it.
-/

namespace TurtleDb.Buffer

open TurtleDb.Lib

/-! ## A disk that remembers which pages were written -/

structure Logged (δ : Type) where
  disk : δ
  writes : List PageKey

variable {δ : Type} [PageDisk δ]

instance : PageDisk (Logged δ) where
  readPage l file page := do
    let (data, d) ← PageDisk.readPage l.disk file page
    return (data, { l with disk := d })
  writePage l file page data := do
    let d ← PageDisk.writePage l.disk file page data
    return { disk := d, writes := ⟨file, page⟩ :: l.writes }
  readPage_throws := by
    intro l file page fault h
    cases hr : PageDisk.readPage l.disk file page with
    | ok r =>
        rw [hr] at h
        cases h
    | error fault' =>
        rw [hr] at h
        cases h
        exact PageDisk.readPage_throws hr
  writePage_throws := by
    intro l file page data fault h
    cases hw : PageDisk.writePage l.disk file page data with
    | ok d =>
        rw [hw] at h
        cases h
    | error fault' =>
        rw [hw] at h
        cases h
        exact PageDisk.writePage_throws hw

/-! ## Guards -/

inductive Mode where
  | read
  | write
  deriving DecidableEq, Repr

/-- How far a guard has come. A page of `new_page` waits in `fetched` for the guard that wraps it. -/
inductive Phase where
  | fetched
  | locked
  | unlocked
  deriving DecidableEq, Repr

/-- A guard with a page. Which fetch it comes from and the page asked for are not fields of the
source. -/
structure Guard where
  serial : Nat
  key : PageKey
  page : FrameId
  mode : Mode
  phase : Phase
  deriving DecidableEq, Repr

/-- The second half of `drop`, when the latch is unlocked. -/
def Guard.unpin {δ : Type} (g : Guard) (b : BufferPoolManager δ) : BufferPoolManager δ :=
  match g.mode with
  | .read => ReadPageGuard.drop b g.page
  | .write => WritePageGuard.drop b g.page

/-- Where a guard object is. -/
abbrev Address := Nat

/-- The pool and the guards with a page. The other fields record the run: the pages `new_page` has
handed out, how many frames were fetched, which fetches were unpinned, and the frames that a write
guard has given back and whose page has not been saved since. -/
structure System (δ : Type) where
  pool : BufferPoolManager (Logged δ)
  guards : List (Address × Guard)
  allocated : Nat
  handed : List PageKey
  fetches : Nat
  unpins : List Nat
  unsaved : FrameId → Bool

namespace System

omit [PageDisk δ] in
def create (poolSize : Nat) (d : δ) : System δ where
  pool := .create poolSize { disk := d, writes := [] }
  guards := []
  allocated := 0
  handed := []
  fetches := 0
  unpins := []
  unsaved := fun _ => false

/-- Between the two states the page was written to the disk. -/
def written (b b' : BufferPoolManager (Logged δ)) (k : PageKey) : Bool :=
  b.diskManager.writes.count k < b'.diskManager.writes.count k

/-- The pool has moved on: a frame is saved when its page was written. -/
def setPool (s : System δ) (pool : BufferPoolManager (Logged δ)) : System δ :=
  { s with
    pool
    unsaved := fun f => s.unsaved f && !written s.pool pool (s.pool.pages f).key }

/-- A frame was fetched for the object at `a`. -/
def fetched (s : System δ) (a : Address) (mode : Mode) (k : PageKey) (f : FrameId) : System δ :=
  { s with
    guards := (a, ⟨s.fetches, k, f, mode, .fetched⟩) :: s.guards
    fetches := s.fetches + 1 }

/-- A write guard excludes every other guard that is locked, a read guard the write guards. -/
def LatchFree (s : System δ) (g : Guard) : Prop :=
  ∀ p ∈ s.guards, p.2.page = g.page → p.2.phase = .locked → g.mode = .read ∧ p.2.mode = .read

inductive Event where
  | fetch (a : Address) (mode : Mode) (k : PageKey)
  | newPage (a : Address) (mode : Mode) (file : FileId)
  | lock (a : Address)
  | access (a : Address) (data : PageData)
  | unlock (a : Address)
  | unpin (a : Address)
  | move (source target : Address)
  | flushPage (file : FileId) (page : PageId)
  | flushAllPages
  | deletePage (file : FileId) (page : PageId)

/-- One step of one client. -/
inductive Step : System δ → Event → System δ → Prop where
  | fetch {s : System δ} {a mode k f pool} (ha : a ∉ s.guards.map Prod.fst) (hk : k ∈ s.handed)
      (hr : s.pool.fetchPage k.fileId k.pageId = .ok (some f, pool)) :
      Step s (.fetch a mode k) ((s.setPool pool).fetched a mode k f)
  | fetchFull {s : System δ} {a mode k pool} (hk : k ∈ s.handed)
      (hr : s.pool.fetchPage k.fileId k.pageId = .ok (none, pool)) :
      Step s (.fetch a mode k) (s.setPool pool)
  | newPage {s : System δ} {a mode file f page pool} (ha : a ∉ s.guards.map Prod.fst)
      (hr : s.pool.newPage file = .ok (some (f, page), pool)) :
      Step s (.newPage a mode file) { (s.setPool pool).fetched a mode ⟨file, page⟩ f with
        allocated := s.allocated + 1, handed := ⟨file, page⟩ :: s.handed }
  | newPageFull {s : System δ} {a mode file pool} (hr : s.pool.newPage file = .ok (none, pool)) :
      Step s (.newPage a mode file) (s.setPool pool)
  | lock {s : System δ} {a g pre post} (hg : s.guards = pre ++ (a, g) :: post)
      (hphase : g.phase = .fetched) (hfree : s.LatchFree g) :
      Step s (.lock a) { s with guards := pre ++ (a, { g with phase := .locked }) :: post }
  | access {s : System δ} {a g pre post} (hg : s.guards = pre ++ (a, g) :: post)
      (hphase : g.phase = .locked) (hmode : g.mode = .write) (data : PageData) :
      Step s (.access a data) { s with pool := s.pool.setData g.page data }
  | unlock {s : System δ} {a g pre post} (hg : s.guards = pre ++ (a, g) :: post)
      (hphase : g.phase = .locked) :
      Step s (.unlock a) { s with guards := pre ++ (a, { g with phase := .unlocked }) :: post }
  | unpin {s : System δ} {a g pre post} (hg : s.guards = pre ++ (a, g) :: post)
      (hphase : g.phase = .unlocked) :
      Step s (.unpin a) { s with
        pool := g.unpin s.pool
        guards := pre ++ post
        unpins := g.serial :: s.unpins
        unsaved := fun f => s.unsaved f || (f = g.page ∧ g.mode = .write) }
  | move {s : System δ} {source target g pre post} (hg : s.guards = pre ++ (source, g) :: post)
      (hphase : g.phase = .locked) (htarget : target ∉ s.guards.map Prod.fst) :
      Step s (.move source target) { s with guards := pre ++ (target, g) :: post }
  | flushPage {s : System δ} {file page r pool} (hr : s.pool.flushPage file page = .ok (r, pool)) :
      Step s (.flushPage file page) (s.setPool pool)
  | flushAllPages {s : System δ} {pool} (hr : s.pool.flushAllPages = .ok pool) :
      Step s .flushAllPages (s.setPool pool)
  | deletePage {s : System δ} {file page r pool}
      (hr : s.pool.deletePage file page = .ok (r, pool)) :
      Step s (.deletePage file page) { s.setPool pool with
        unsaved := fun f => (s.setPool pool).unsaved f && !(r && (s.pool.pages f).key = ⟨file, page⟩) }

/-- The runs of all clients together. -/
inductive Run (s : System δ) : List Event → System δ → Prop where
  | nil : Run s [] s
  | snoc {es e t u} (h : Run s es t) (hstep : Step t e u) : Run s (es ++ [e]) u

/-! ## What the guards do in the source -/

/-- `drop`, and the destructor. A guard without a page does nothing. -/
def drop (s : System δ) (a : Address) : List Event :=
  if a ∈ s.guards.map Prod.fst then [.unlock a, .unpin a] else []

/-- The move constructor. The source has no page afterwards. -/
def moveConstruct (s : System δ) (target source : Address) : List Event :=
  if source ∈ s.guards.map Prod.fst then [.move source target] else []

/-! ## Specification -/

/-- The guards on a frame that were fetched and not yet unpinned. -/
def holders (s : System δ) (f : FrameId) : Nat := s.guards.countP fun p => p.2.page == f

/-- Pins and guards match. -/
structure Balanced (s : System δ) : Prop where
  pins : ∀ f < s.pool.frameCount, (s.pool.pages f).pinCount = s.holders f
  /-- Each fetch is unpinned once, or its guard is still there. -/
  matched : (s.guards.map (fun p => p.2.serial) ++ s.unpins).Perm (List.range s.fetches)
  /-- The unpin of a guard is never refused. -/
  unpins : ∀ p ∈ s.guards, ∀ isDirty, (s.pool.unpinPage (s.pool.pages p.2.page).fileId
    (s.pool.pages p.2.page).pageId isDirty).1 = true
  /-- The frame of a guard has the page that was asked for, and is not up for eviction. -/
  stays : ∀ p ∈ s.guards, (s.pool.pages p.2.page).key = p.2.key ∧
    s.pool.pageTable p.2.key = some p.2.page ∧ p.2.page ∉ s.pool.freeFrames ∧
    (s.pool.replacer.aliveMap p.2.page).map FrameStatus.evictable = some false
  dirty : ∀ f, s.unsaved f = true → (s.pool.pages f).isDirty = true

end System

end TurtleDb.Buffer
