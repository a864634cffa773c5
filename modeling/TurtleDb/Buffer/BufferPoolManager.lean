import TurtleDb.Buffer.ArcReplacer

/-!
# The buffer pool

`buffer/buffer_pool_manager.{hpp,cpp}`, `storage/page/page.hpp` and the two page guards. A page
guard and a `Page *` are the frame they point at; latches are left out. The pool works on any disk
manager.
-/

namespace TurtleDb.Buffer

open TurtleDb.Lib

/-- What the pool asks of a disk manager: two calls that fail by throwing and in no other way. -/
class PageDisk (δ : Type) where
  readPage : δ → FileId → PageId → Except Fault (PageData × δ)
  writePage : δ → FileId → PageId → PageData → Except Fault δ
  readPage_throws : ∀ {d file page fault}, readPage d file page = .error fault →
    ∃ message, fault = .raised message
  writePage_throws : ∀ {d file page data fault}, writePage d file page data = .error fault →
    ∃ message, fault = .raised message

/-- The fields of a `Page` but its address. -/
structure Page where
  fileId : FileId
  pageId : PageId
  pinCount : Int
  isDirty : Bool
  deriving DecidableEq, Repr

namespace Page

/-- A default-constructed page. -/
def empty : Page := { fileId := 0, pageId := invalidPageId, pinCount := 0, isDirty := false }

def key (p : Page) : PageKey := ⟨p.fileId, p.pageId⟩

end Page

structure BufferPoolManager (δ : Type) where
  poolSize : Nat
  pages : FrameId → Page
  /-- `frame_data_`, by the offset at which a frame's bytes begin. -/
  frameData : Nat → PageData
  pageTable : PageKey → Option FrameId
  freeFrames : List FrameId
  replacer : ArcReplacer
  diskManager : δ
  nextPageId : PageId

namespace BufferPoolManager

variable {δ : Type}

/-- `static_cast<FrameId>(pool_size_)`, the bound of the loops over the frames. -/
def frameCount (b : BufferPoolManager δ) : Nat := trunc32 b.poolSize

/-- `i * PAGE_SIZE`. Both factors have 32 bits, and so has the product. -/
def frameOffset (i : FrameId) : Nat := trunc32 (i * pageSize)

/-- The bytes at the `data_` of a frame. -/
def data (b : BufferPoolManager δ) (fid : FrameId) : PageData := b.frameData (frameOffset fid)

def setData (b : BufferPoolManager δ) (fid : FrameId) (data : PageData) : BufferPoolManager δ :=
  { b with frameData := Function.update b.frameData (frameOffset fid) data }

def setPage (b : BufferPoolManager δ) (fid : FrameId) (page : Page) : BufferPoolManager δ :=
  { b with pages := Function.update b.pages fid page }

/-- The constructor. The bytes of `new char[]` are never read before they are written. -/
def create (poolSize : Nat) (diskManager : δ) : BufferPoolManager δ where
  poolSize := poolSize
  pages := fun _ => Page.empty
  frameData := fun _ => Block.zero
  pageTable := fun _ => none
  freeFrames := List.range (trunc32 poolSize)
  replacer := ArcReplacer.create poolSize
  diskManager := diskManager
  nextPageId := 0

/-- The replacer is told of a pinned access. -/
def recordPin (b : BufferPoolManager δ) (fid : FrameId) (pageId : PageId) : BufferPoolManager δ :=
  { b with replacer := (b.replacer.recordAccess fid pageId).setEvictable fid false }

/-- The new page's metadata, its entry in the page table and the pinned access. -/
def install (b : BufferPoolManager δ) (fid : FrameId) (key : PageKey) : BufferPoolManager δ :=
  let b := b.setPage fid
    { fileId := key.fileId, pageId := key.pageId, pinCount := 1, isDirty := false }
  let b := { b with pageTable := Function.update b.pageTable key (some fid) }
  b.recordPin fid key.pageId

variable [PageDisk δ]

/-- "Evict old page if needed". -/
def vacate (b : BufferPoolManager δ) (fid : FrameId) : Except Fault (BufferPoolManager δ) :=
  let frame := b.pages fid
  if frame.pageId = invalidPageId then .ok b
  else do
    let d ←
      if frame.isDirty then
        PageDisk.writePage b.diskManager frame.fileId frame.pageId (b.data fid)
      else .ok b.diskManager
    return { b with
      diskManager := d, pageTable := Function.update b.pageTable frame.key none }

/-- How `fetch_page` and `new_page` find a frame: a free one, or a victim. `none` is `nullptr`, when
all pages are pinned. -/
def findFrame (b : BufferPoolManager δ) : Except Fault (Option (FrameId × BufferPoolManager δ)) :=
  match b.freeFrames with
  | fid :: rest => do
      let b ← vacate { b with freeFrames := rest } fid
      return some (fid, b)
  | [] =>
      match b.replacer.evict with
      | none => .ok none
      | some (fid, replacer) => do
          let b ← vacate { b with replacer } fid
          return some (fid, b)

def fetchPage (b : BufferPoolManager δ) (fileId : FileId) (pageId : PageId) :
    Except Fault (Option FrameId × BufferPoolManager δ) :=
  match b.pageTable ⟨fileId, pageId⟩ with
  | some fid =>
      let page := b.pages fid
      if page.pinCount = intMax then .error .overflow
      else .ok (some fid,
        (b.setPage fid { page with pinCount := page.pinCount + 1 }).recordPin fid pageId)
  | none => do
      match ← b.findFrame with
      | none => return (none, b)
      | some (fid, b) =>
          let (data, d) ← PageDisk.readPage b.diskManager fileId pageId
          let b := { b.setData fid data with diskManager := d }
          return (some fid, b.install fid ⟨fileId, pageId⟩)

/-- `none` is `std::nullopt`. -/
def readPage (b : BufferPoolManager δ) (fileId : FileId) (pageId : PageId) :
    Except Fault (Option FrameId × BufferPoolManager δ) := b.fetchPage fileId pageId

def writePage (b : BufferPoolManager δ) (fileId : FileId) (pageId : PageId) :
    Except Fault (Option FrameId × BufferPoolManager δ) := b.fetchPage fileId pageId

omit [PageDisk δ] in
def unpinPage (b : BufferPoolManager δ) (fileId : FileId) (pageId : PageId) (isDirty : Bool) :
    Bool × BufferPoolManager δ :=
  match b.pageTable ⟨fileId, pageId⟩ with
  | none => (false, b)
  | some fid =>
      let page := b.pages fid
      if page.pinCount ≤ 0 then (false, b)
      else
        let b := b.setPage fid { page with
          pinCount := page.pinCount - 1, isDirty := isDirty || page.isDirty }
        if page.pinCount - 1 = 0 then
          (true, { b with replacer := b.replacer.setEvictable fid true })
        else (true, b)

/-- `write_page` of a frame's page, which is then clean. -/
def writeBack (b : BufferPoolManager δ) (fid : FrameId) : Except Fault (BufferPoolManager δ) := do
  let page := b.pages fid
  let d ← PageDisk.writePage b.diskManager page.fileId page.pageId (b.data fid)
  return { b.setPage fid { page with isDirty := false } with diskManager := d }

def flushPage (b : BufferPoolManager δ) (fileId : FileId) (pageId : PageId) :
    Except Fault (Bool × BufferPoolManager δ) :=
  match b.pageTable ⟨fileId, pageId⟩ with
  | none => .ok (false, b)
  | some fid => do
      let b ← b.writeBack fid
      return (true, b)

def flushFrame (b : BufferPoolManager δ) (fid : FrameId) : Except Fault (BufferPoolManager δ) :=
  let page := b.pages fid
  if page.pageId ≠ invalidPageId ∧ page.isDirty then b.writeBack fid else .ok b

def flushAllPages (b : BufferPoolManager δ) : Except Fault (BufferPoolManager δ) :=
  (List.range b.frameCount).foldlM flushFrame b

/-- The frame and the id of the new page. -/
def newPage (b : BufferPoolManager δ) (fileId : FileId) :
    Except Fault (Option (FrameId × PageId) × BufferPoolManager δ) := do
  match ← b.findFrame with
  | none => return (none, b)
  | some (fid, b) =>
      let pageId := b.nextPageId
      let b := { b with nextPageId := add32 b.nextPageId 1 }
      let b := (b.setData fid Block.zero).install fid ⟨fileId, pageId⟩
      let d ← PageDisk.writePage b.diskManager fileId pageId (b.data fid)
      return (some (fid, pageId), { b with diskManager := d })

omit [PageDisk δ] in
def deletePage (b : BufferPoolManager δ) (fileId : FileId) (pageId : PageId) :
    Except Fault (Bool × BufferPoolManager δ) :=
  match b.pageTable ⟨fileId, pageId⟩ with
  | none => .ok (true, b)
  | some fid =>
      if (b.pages fid).pinCount > 0 then .ok (false, b)
      else do
        let replacer ← b.replacer.remove fid
        let b := { b with
          pageTable := Function.update b.pageTable ⟨fileId, pageId⟩ none
          replacer
          freeFrames := b.freeFrames ++ [fid] }
        return (true, (b.setData fid Block.zero).setPage fid Page.empty)

end BufferPoolManager

/-! ## Guards -/

namespace ReadPageGuard

/-- The guard asks its frame which page to unpin. -/
def drop {δ : Type} (b : BufferPoolManager δ) (page : FrameId) : BufferPoolManager δ :=
  (b.unpinPage (b.pages page).fileId (b.pages page).pageId false).2

end ReadPageGuard

namespace WritePageGuard

def drop {δ : Type} (b : BufferPoolManager δ) (page : FrameId) : BufferPoolManager δ :=
  (b.unpinPage (b.pages page).fileId (b.pages page).pageId true).2

end WritePageGuard

end TurtleDb.Buffer
