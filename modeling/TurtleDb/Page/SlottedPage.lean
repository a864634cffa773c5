import TurtleDb.Common

/-!
# Slotted pages

`storage/page/slotted_page.{hpp,cpp}`. The header and the slot array are laid over the raw bytes of
a page: the header in bytes 0–23, slot `i` in the eight bytes from `24 + 8 * i`, and the tuples
from the end of the page downwards. Every write names the bytes it touches; one outside the page is
`Fault.outOfBounds`.
-/

namespace TurtleDb.Page

open TurtleDb.Lib

/-- `sizeof(Header)`. -/
def headerSize : Nat := 24

/-- `SLOT_SIZE`. -/
def slotSize : Nat := 8

namespace SlottedPage

/-! ## Header and slots -/

def pageId (p : PageData) : PageId := p.u32 0
def getNextPageId (p : PageData) : PageId := p.u32 4
def slotCount (p : PageData) : Nat := p.u32 8
def tupleCount (p : PageData) : Nat := p.u32 12
def freeSpacePointer (p : PageData) : Nat := p.u32 16
def deadSpace (p : PageData) : Nat := p.u32 20

def setPageId (p : PageData) (v : PageId) : PageData := p.putU32 0 v
def setNextPageId (p : PageData) (v : PageId) : PageData := p.putU32 4 v
def setSlotCount (p : PageData) (v : Nat) : PageData := p.putU32 8 v
def setTupleCount (p : PageData) (v : Nat) : PageData := p.putU32 12 v
def setFreeSpacePointer (p : PageData) (v : Nat) : PageData := p.putU32 16 v
def setDeadSpace (p : PageData) (v : Nat) : PageData := p.putU32 20 v

/-- The address of slot `i` in the page. -/
def slotAddr (i : Nat) : Nat := headerSize + slotSize * i

def slotOffset (p : PageData) (i : Nat) : Nat := p.u32 (slotAddr i)
def slotLength (p : PageData) (i : Nat) : Nat := p.u32 (slotAddr i + 4)

/-- Write `bs` at `off`. -/
def store (p : PageData) (off : Nat) (bs : List UInt8) : Except Fault PageData :=
  if off + bs.length ≤ pageSize then .ok (p.put off bs) else .error .outOfBounds

/-- Read `len` bytes at `off`. -/
def load (p : PageData) (off len : Nat) : Except Fault (List UInt8) :=
  if off + len ≤ pageSize then .ok (p.slice off len) else .error .outOfBounds

/-! ## Operations -/

/-- `init` sets five header fields. `dead_space_` keeps the bytes that were there. -/
def init (p : PageData) (page : PageId) : PageData :=
  let p := setPageId p page
  let p := setNextPageId p invalidPageId
  let p := setSlotCount p 0
  let p := setTupleCount p 0
  setFreeSpacePointer p pageSize

def freeSpaceRemaining (p : PageData) : Nat :=
  let slotArrayEnd := trunc32 (headerSize + slotCount p * slotSize)
  sub32 (freeSpacePointer p) slotArrayEnd

def usableSpace (p : PageData) : Nat := add32 (freeSpaceRemaining p) (deadSpace p)

def isSlotOccupied (p : PageData) (slot : Nat) : Bool :=
  slot < slotCount p && slotLength p slot != 0

def validateRecordId (p : PageData) (rid : RecordId) : Except Fault Unit :=
  if rid.pageId ≠ pageId p ∨ rid.slotNum ≥ slotCount p then
    .error (.raised "Invalid RID for this page")
  else .ok ()

def deleteTuple (p : PageData) (rid : RecordId) : Except Fault PageData := do
  validateRecordId p rid
  let length := slotLength p rid.slotNum
  if length > 0 then
    let p := setDeadSpace p (add32 (deadSpace p) length)
    let p ← store p (slotAddr rid.slotNum + 4) (leBytes 4 0)
    return setTupleCount p (sub32 (tupleCount p) 1)
  else return p

/-- The state of the packing loop of `compact`: the page, `temp_data` and `new_free_space_ptr`. -/
structure Compaction where
  page : PageData
  temp : PageData
  ptr : Nat

def compactStep (c : Compaction) (i : Nat) : Except Fault Compaction :=
  if slotLength c.page i > 0 then do
    let ptr := sub32 c.ptr (slotLength c.page i)
    let bytes ← load c.page (slotOffset c.page i) (slotLength c.page i)
    let temp ← store c.temp ptr bytes
    let page ← store c.page (slotAddr i) (leBytes 4 ptr)
    return { page, temp, ptr }
  else return c

/-- The loop over the slots below `count`. `temp_data` starts uninitialised; no byte of it is read
before it is written, so the zero block stands for it. -/
def compactLoop (p : PageData) (count : Nat) : Except Fault Compaction :=
  (List.range count).foldlM compactStep { page := p, temp := Block.zero, ptr := pageSize }

def compact (p : PageData) : Except Fault PageData :=
  if deadSpace p = 0 then .ok p
  else do
    let c ← compactLoop p (slotCount p)
    let packed ← load c.temp c.ptr (sub32 pageSize c.ptr)
    let p ← store c.page c.ptr packed
    return setDeadSpace (setFreeSpacePointer p c.ptr) 0

/-- The first slot of length zero, if there is one. -/
def reusableSlot (p : PageData) : Option Nat :=
  (List.range (slotCount p)).find? fun i => slotLength p i == 0

/-- The space a tuple of `size` bytes needs: a reused slot costs nothing. -/
def spaceNeeded (p : PageData) (size : Nat) : Nat :=
  trunc32 (size + if reusableSlot p = none then slotSize else 0)

/-- "Prepare the new slot": a new slot is counted, a reused one is not. -/
def prepareSlot (p : PageData) (reusable : Option Nat) : PageData :=
  if reusable.isNone then setSlotCount p (add32 (slotCount p) 1) else p

/-- "Allocate space in the data area", "Write data" and "Update slot info". -/
def writeTuple (p : PageData) (slot : Nat) (tuple : List UInt8) : Except Fault PageData := do
  let p := setFreeSpacePointer p (sub32 (freeSpacePointer p) tuple.length)
  let offset := freeSpacePointer p
  let p ← store p offset tuple
  let p ← store p (slotAddr slot) (leBytes 4 offset)
  let p ← store p (slotAddr slot + 4) (leBytes 4 tuple.length)
  return setTupleCount p (add32 (tupleCount p) 1)

/-- The allocation of `insert_tuple`, in a page that has room for `tuple`. -/
def place (p : PageData) (reusable : Option Nat) (tuple : List UInt8) :
    Except Fault (RecordId × PageData) := do
  let slot := reusable.getD (slotCount p)
  let p ← writeTuple (prepareSlot p reusable) slot tuple
  return (⟨pageId p, slot⟩, p)

/-- The check of `insert_tuple` in front of the allocation: the page to allocate in, compacted if
that is what makes the tuple fit, or `none` when there is not enough space. -/
def makeRoom (p : PageData) (needed : Nat) : Except Fault (Option PageData) :=
  if freeSpaceRemaining p < needed then
    if usableSpace p ≥ needed then do
      let q ← compact p
      return some q
    else .ok none
  else .ok (some p)

/-- `none` is the source's `false`. The slot to reuse is looked up before any compaction. -/
def insertTuple (p : PageData) (tuple : List UInt8) :
    Except Fault (Option RecordId × PageData) := do
  match ← makeRoom p (spaceNeeded p tuple.length) with
  | none => return (none, p)
  | some q =>
      let (rid, q) ← place q (reusableSlot p) tuple
      return (some rid, q)

/-- The bytes `tuple` deserialises from the page. -/
def tuple (p : PageData) (rid : RecordId) : Except Fault (List UInt8) := do
  validateRecordId p rid
  if slotLength p rid.slotNum = 0 then
    .error (.raised "Slot is empty (deleted tuple)")
  else load p (slotOffset p rid.slotNum) (slotLength p rid.slotNum)

end SlottedPage

end TurtleDb.Page
