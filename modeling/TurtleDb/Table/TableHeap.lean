import TurtleDb.Buffer.BufferPoolManager
import TurtleDb.Page.SlottedPage
import TurtleDb.Table.Tuple

/-!
# Table heaps

`storage/table/table_heap.{hpp,cpp}`. A call gets the pool and gives it back. A fault of the pool
ends a call; an exception of the page is part of its answer, since the guard is dropped on the way
out and the caller may go on.
-/

namespace TurtleDb.Table

open TurtleDb.Lib TurtleDb.Buffer TurtleDb.Page

structure TableHeap where
  fileId : FileId
  firstPageId : PageId
  lastPageId : PageId
  freeSpaceMap : PageId → Option Nat

namespace TableHeap

variable {δ : Type} [PageDisk δ]

/-- `free_space_map_[page_id] = usable_bytes`. -/
def updateFreeSpace (h : TableHeap) (pageId : PageId) (usableBytes : Nat) : TableHeap :=
  { h with freeSpaceMap := Function.update h.freeSpaceMap pageId (some usableBytes) }

/-- "Creating a brand new table". The loop over the pages initialises the page it stands at, which
then has no next page. -/
def create (b : BufferPoolManager δ) (fileId : FileId) :
    Except Fault (TableHeap × BufferPoolManager δ) := do
  match ← b.newPage fileId with
  | (none, _) =>
      .error (.raised "Out of memory: Cannot allocate first page for TableHeap.")
  | (some (frame, firstPageId), b) =>
      let h := {
        fileId, firstPageId, lastPageId := invalidPageId, freeSpaceMap := fun _ => none }
      if firstPageId = invalidPageId then return (h, b)
      else
        let page := SlottedPage.init (b.data frame) firstPageId
        let h := h.updateFreeSpace firstPageId (SlottedPage.usableSpace page)
        return ({ h with lastPageId := firstPageId },
          WritePageGuard.drop (b.setData frame page) frame)

/-- The loop that follows the pages to the last one. `none` when a page cannot be read. -/
def findLastPage (fileId : FileId) : Nat → BufferPoolManager δ → PageId →
    Except Fault (Option PageId × BufferPoolManager δ)
  | 0, _, _ => .error .outOfFuel
  | fuel + 1, b, currentPageId => do
      match ← b.readPage fileId currentPageId with
      | (none, b) => return (none, b)
      | (some frame, b) =>
          let nextPageId := SlottedPage.getNextPageId (b.data frame)
          let b := ReadPageGuard.drop b frame
          if nextPageId ≠ invalidPageId then findLastPage fileId fuel b nextPageId
          else return (some currentPageId, b)

/-- "Opening an existing table from disk". -/
def openExisting (fuel : Nat) (b : BufferPoolManager δ) (fileId : FileId) (firstPageId : PageId) :
    Except Fault (TableHeap × BufferPoolManager δ) := do
  let (last, b) ← findLastPage fileId fuel b firstPageId
  return ({
    fileId, firstPageId, lastPageId := last.getD invalidPageId, freeSpaceMap := fun _ => none }, b)

/-- The loop of `insert_tuple`, with a write guard on the page in `frame`. -/
def insertLoop (tuple : Tuple) : Nat → BufferPoolManager δ → TableHeap → FrameId →
    Except Fault (Option RecordId × BufferPoolManager δ × TableHeap)
  | 0, _, _, _ => .error .outOfFuel
  | fuel + 1, b, h, frame => do
      match ← SlottedPage.insertTuple (b.data frame) tuple.serializeTo with
      | (some rid, page) =>
          let h := h.updateFreeSpace (b.pages frame).pageId (SlottedPage.usableSpace page)
          return (some rid, WritePageGuard.drop (b.setData frame page) frame, h)
      | (none, page) =>
          if SlottedPage.tupleCount page = 0 then
            .error (.terminated "Tuple too large to fit in a single page")
          else
            -- "If it failed, the page is full. Create a new page."
            match ← (b.setData frame page).newPage h.fileId with
            | (none, b) => return (none, WritePageGuard.drop b frame, h)
            | (some (newFrame, newPageId), b) =>
                let page := SlottedPage.setNextPageId (b.data frame) newPageId
                let b := b.setData frame page
                let h := h.updateFreeSpace (b.pages frame).pageId (SlottedPage.usableSpace page)
                let b := b.setData newFrame (SlottedPage.init (b.data newFrame) newPageId)
                insertLoop tuple fuel (WritePageGuard.drop b frame)
                  { h with lastPageId := newPageId } newFrame

/-- `none` is `false`. The candidate page found in the free space map is never used. A tuple either
fits into a page that was just initialised or ends the process there, so two rounds are enough. -/
def insertTuple (b : BufferPoolManager δ) (h : TableHeap) (tuple : Tuple) :
    Except Fault (Option RecordId × BufferPoolManager δ × TableHeap) := do
  match ← b.writePage h.fileId h.lastPageId with
  | (none, b) => return (none, b, h)
  | (some frame, b) => insertLoop tuple 2 b h frame

def markDelete (b : BufferPoolManager δ) (h : TableHeap) (rid : RecordId) :
    Except Fault (Except Fault Bool × BufferPoolManager δ × TableHeap) := do
  match ← b.writePage h.fileId rid.pageId with
  | (none, b) => return (.ok false, b, h)
  | (some frame, b) =>
      match SlottedPage.deleteTuple (b.data frame) rid with
      | .error fault => return (.error fault, WritePageGuard.drop b frame, h)
      | .ok page =>
          return (.ok true, WritePageGuard.drop (b.setData frame page) frame,
            h.updateFreeSpace rid.pageId (SlottedPage.usableSpace page))

/-- The answer has the tuple as it is after the call, or `none` for `false`. -/
def getTuple (b : BufferPoolManager δ) (h : TableHeap) (rid : RecordId) (tuple : Tuple) :
    Except Fault (Except Fault (Option Tuple) × BufferPoolManager δ) := do
  match ← b.readPage h.fileId rid.pageId with
  | (none, b) => return (.ok none, b)
  | (some frame, b) =>
      match SlottedPage.tuple (b.data frame) rid with
      | .error fault => return (.error fault, ReadPageGuard.drop b frame)
      | .ok bytes =>
          return (.ok (some (tuple.deserializeFrom bytes bytes.length)), ReadPageGuard.drop b frame)

end TableHeap

end TurtleDb.Table
