import TurtleDb.Buffer.Calls
import TurtleDb.Table.TableIterator

/-!
# A heap with the guards of its calls

`storage/table/table_heap.cpp` and `storage/table/table_iterator.cpp` once more, now with the guard
objects of each call: where they are made, moved and destroyed, also when an exception leaves the
call. Their addresses are those from `stack` on.
-/

namespace TurtleDb.Table

open TurtleDb.Lib TurtleDb.Buffer TurtleDb.Page

namespace GuardedHeap

variable {δ : Type} [PageDisk δ] (stack : Address)

/-- "Creating a brand new table". If the new page has the invalid id, no guard is made for it. -/
def create (c : Caller δ) (fileId : FileId) :
    Except Fault (Except Fault TableHeap × Caller δ) := do
  match ← c.newPage stack fileId with
  | (none, c) =>
      return (.error (.raised "Out of memory: Cannot allocate first page for TableHeap."), c)
  | (some (frame, firstPageId), c) =>
      let h : TableHeap := {
        fileId, firstPageId, lastPageId := invalidPageId, freeSpaceMap := fun _ => none }
      if firstPageId = invalidPageId then return (.ok h, c)
      else
        let c ← c.lock stack
        let page := SlottedPage.init (c.pool.data frame) firstPageId
        let h := h.updateFreeSpace firstPageId (SlottedPage.usableSpace page)
        return (.ok { h with lastPageId := firstPageId }, (c.access stack page).drop stack)

/-- Each round has a guard of its own. -/
def findLastPage (fileId : FileId) : Nat → Caller δ → PageId →
    Except Fault (Option PageId × Caller δ)
  | 0, _, _ => .error .outOfFuel
  | fuel + 1, c, currentPageId => do
      match ← c.request stack .read ⟨fileId, currentPageId⟩ with
      | (none, c) => return (none, c)
      | (some frame, c) =>
          let nextPageId := SlottedPage.getNextPageId (c.pool.data frame)
          let c := c.drop stack
          if nextPageId ≠ invalidPageId then findLastPage fileId fuel c nextPageId
          else return (some currentPageId, c)

/-- "Opening an existing table from disk". -/
def openExisting (fuel : Nat) (c : Caller δ) (fileId : FileId) (firstPageId : PageId) :
    Except Fault (TableHeap × Caller δ) := do
  let (last, c) ← findLastPage stack fileId fuel c firstPageId
  return ({
    fileId, firstPageId, lastPageId := last.getD invalidPageId, freeSpaceMap := fun _ => none }, c)

/-- The guard `write_page` is the second object, `next_page` the third. -/
def insertLoop (tuple : Tuple) : Nat → Caller δ → TableHeap → FrameId →
    Except Fault (Option RecordId × Caller δ × TableHeap)
  | 0, _, _, _ => .error .outOfFuel
  | fuel + 1, c, h, frame => do
      match ← SlottedPage.insertTuple (c.pool.data frame) tuple.serializeTo with
      | (some rid, page) =>
          let h := h.updateFreeSpace (c.pool.pages frame).pageId (SlottedPage.usableSpace page)
          return (some rid, ((c.access (stack + 1) page).drop (stack + 1)).drop stack, h)
      | (none, page) =>
          if SlottedPage.tupleCount page = 0 then
            .error (.terminated "Tuple too large to fit in a single page")
          else
            match ← (c.access (stack + 1) page).newPage (stack + 2) h.fileId with
            | (none, c) => return (none, (c.drop (stack + 1)).drop stack, h)
            | (some (newFrame, newPageId), c) =>
                let page := SlottedPage.setNextPageId (c.pool.data frame) newPageId
                let c := c.access (stack + 1) page
                let h := h.updateFreeSpace (c.pool.pages frame).pageId
                  (SlottedPage.usableSpace page)
                let c ← c.lock (stack + 2)
                let c := c.access (stack + 2)
                  (SlottedPage.init (c.pool.data newFrame) newPageId)
                insertLoop tuple fuel (c.moveAssign (stack + 1) (stack + 2))
                  { h with lastPageId := newPageId } newFrame

def insertTuple (c : Caller δ) (h : TableHeap) (tuple : Tuple) :
    Except Fault (Option RecordId × Caller δ × TableHeap) := do
  match ← c.request stack .write ⟨h.fileId, h.lastPageId⟩ with
  | (none, c) => return (none, c, h)
  | (some frame, c) => insertLoop stack tuple 2 (c.move (stack + 1) stack) h frame

def markDelete (c : Caller δ) (h : TableHeap) (rid : RecordId) :
    Except Fault (Except Fault Bool × Caller δ × TableHeap) := do
  match ← c.request stack .write ⟨h.fileId, rid.pageId⟩ with
  | (none, c) => return (.ok false, c, h)
  | (some frame, c) =>
      let c := c.move (stack + 1) stack
      match SlottedPage.deleteTuple (c.pool.data frame) rid with
      | .error fault => return (.error fault, (c.drop (stack + 1)).drop stack, h)
      | .ok page =>
          return (.ok true, ((c.access (stack + 1) page).drop (stack + 1)).drop stack,
            h.updateFreeSpace rid.pageId (SlottedPage.usableSpace page))

def getTuple (c : Caller δ) (h : TableHeap) (rid : RecordId) (tuple : Tuple) :
    Except Fault (Except Fault (Option Tuple) × Caller δ) := do
  match ← c.request stack .read ⟨h.fileId, rid.pageId⟩ with
  | (none, c) => return (.ok none, c)
  | (some frame, c) =>
      match SlottedPage.tuple (c.pool.data frame) rid with
      | .error fault => return (.error fault, c.drop stack)
      | .ok bytes =>
          return (.ok (some (tuple.deserializeFrom bytes bytes.length)), c.drop stack)

/-- Each round has a guard of its own. -/
def advanceToValid (h : TableHeap) : Nat → Caller δ → TableIterator →
    Except Fault (Except Fault TableIterator × Caller δ)
  | 0, _, _ => .error .outOfFuel
  | fuel + 1, c, it =>
      if it.currentId.pageId = invalidPageId then
        .ok (.ok { it with currentId := ⟨invalidPageId, 0⟩ }, c)
      else do
        match ← c.request stack .read ⟨h.fileId, it.currentId.pageId⟩ with
        | (none, c) => return (.ok it, c)
        | (some frame, c) =>
            let page := c.pool.data frame
            let slotCount := SlottedPage.slotCount page
            let slot := TableIterator.skipDeleted page it.currentId.slotNum
              (slotCount - it.currentId.slotNum)
            if slot < slotCount then
              let rid := ⟨it.currentId.pageId, slot⟩
              match SlottedPage.tuple page rid with
              | .error fault => return (.error fault, c.drop stack)
              | .ok bytes =>
                  return (.ok {
                    currentId := rid
                    currentTuple := it.currentTuple.deserializeFrom bytes bytes.length },
                    c.drop stack)
            else
              advanceToValid h fuel (c.drop stack)
                { it with currentId := ⟨SlottedPage.getNextPageId page, 0⟩ }

/-- The constructor of the iterator. -/
def makeIterator (fuel : Nat) (h : TableHeap) (c : Caller δ) (rid : RecordId) :
    Except Fault (Except Fault TableIterator × Caller δ) :=
  let it := { currentId := rid, currentTuple := .empty }
  if rid.pageId ≠ invalidPageId then advanceToValid stack h fuel c it else .ok (.ok it, c)

/-- `operator++`. -/
def increment (fuel : Nat) (h : TableHeap) (c : Caller δ) (it : TableIterator) :
    Except Fault (Except Fault TableIterator × Caller δ) :=
  advanceToValid stack h fuel c
    { it with currentId := { it.currentId with slotNum := add32 it.currentId.slotNum 1 } }

end GuardedHeap

end TurtleDb.Table
