import Mathlib.Logic.Function.Basic
import TurtleDb.Common

/-!
# The ARC replacer

`buffer/arc_replacer.{hpp,cpp}`. The two live lists hold frames, the two ghost lists page ids; every
list has its most recent entry in front. A `FrameStatus` is in one of the two maps at a time, so the
shared pointers are values here. The access type is not used by the source.
-/

namespace TurtleDb.Buffer

inductive ArcStatus where
  | mru
  | mfu
  | mruGhost
  | mfuGhost
  deriving DecidableEq, Repr

structure FrameStatus where
  pageId : PageId
  frameId : FrameId
  evictable : Bool
  arcStatus : ArcStatus
  deriving DecidableEq, Repr

structure ArcReplacer where
  mru : List FrameId
  mfu : List FrameId
  mruGhost : List PageId
  mfuGhost : List PageId
  aliveMap : FrameId → Option FrameStatus
  ghostMap : PageId → Option FrameStatus
  currSize : Nat
  /-- `mru_target_size_`. -/
  mruTargetSize : Nat
  replacerSize : Nat

namespace ArcReplacer

/-- The constructor. -/
def create (numFrames : Nat) : ArcReplacer where
  mru := []
  mfu := []
  mruGhost := []
  mfuGhost := []
  aliveMap := fun _ => none
  ghostMap := fun _ => none
  currSize := 0
  mruTargetSize := 0
  replacerSize := numFrames

/-- `--n` on a `size_t`. -/
def decrement (n : Nat) : Nat := if n = 0 then 2 ^ 64 - 1 else n - 1

/-! ## Eviction -/

/-- Walking a live list from its back: the first frame that is evictable. -/
def findVictim (r : ArcReplacer) (live : List FrameId) : Option (FrameId × FrameStatus) :=
  live.reverse.findSome? fun fid =>
    match r.aliveMap fid with
    | some status => if status.evictable then some (fid, status) else none
    | none => none

/-- `live.erase(it)`, the entry found from the back. -/
def eraseLast (live : List FrameId) (fid : FrameId) : List FrameId :=
  (live.reverse.erase fid).reverse

/-- What `try_evict` does to the maps and the size, whichever list the victim is from. -/
def demote (r : ArcReplacer) (fid : FrameId) (status : FrameStatus) (ghost : ArcStatus) :
    ArcReplacer :=
  { r with
    ghostMap := Function.update r.ghostMap status.pageId
      (some { status with arcStatus := ghost, frameId := invalidFrameId })
    aliveMap := Function.update r.aliveMap fid none
    currSize := decrement r.currSize }

/-- `try_evict(mru_, mru_ghost_, MRU_GHOST)`. -/
def tryEvictMru (r : ArcReplacer) : Option (FrameId × ArcReplacer) :=
  match r.findVictim r.mru with
  | none => none
  | some (fid, status) =>
      some (fid, { r.demote fid status .mruGhost with
        mruGhost := status.pageId :: r.mruGhost, mru := eraseLast r.mru fid })

/-- `try_evict(mfu_, mfu_ghost_, MFU_GHOST)`. -/
def tryEvictMfu (r : ArcReplacer) : Option (FrameId × ArcReplacer) :=
  match r.findVictim r.mfu with
  | none => none
  | some (fid, status) =>
      some (fid, { r.demote fid status .mfuGhost with
        mfuGhost := status.pageId :: r.mfuGhost, mfu := eraseLast r.mfu fid })

/-- `none` is `std::nullopt`; nothing has changed then. -/
def evict (r : ArcReplacer) : Option (FrameId × ArcReplacer) :=
  if r.currSize = 0 then none
  else if r.mru.length > r.mruTargetSize then r.tryEvictMru.or r.tryEvictMfu
  else r.tryEvictMfu.or r.tryEvictMru

/-! ## Accesses -/

/-- `std::list::remove`. -/
def removeAll (l : List Nat) (a : Nat) : List Nat := l.filter (· ≠ a)

/-- A hit on a live list. -/
def promote (r : ArcReplacer) (fid : FrameId) (status : FrameStatus) : ArcReplacer :=
  let r := if status.arcStatus = .mru then { r with mru := removeAll r.mru fid }
    else { r with mfu := removeAll r.mfu fid }
  { r with
    mfu := fid :: r.mfu
    aliveMap := Function.update r.aliveMap fid (some { status with arcStatus := .mfu }) }

/-- A hit in a ghost list: the target moves, and the page comes back into MFU. -/
def resurrect (r : ArcReplacer) (fid : FrameId) (pid : PageId) (status : FrameStatus) :
    ArcReplacer :=
  let b1 := r.mruGhost.length
  let b2 := r.mfuGhost.length
  let r :=
    if status.arcStatus = .mruGhost then
      let delta := max 1 (b2 / max b1 1)
      { r with
        mruTargetSize := min (r.mruTargetSize + delta) r.replacerSize
        mruGhost := removeAll r.mruGhost pid }
    else
      let delta := max 1 (b1 / max b2 1)
      { r with
        mruTargetSize := if r.mruTargetSize > delta then r.mruTargetSize - delta else 0
        mfuGhost := removeAll r.mfuGhost pid }
  { r with
    ghostMap := Function.update r.ghostMap pid none
    mfu := fid :: r.mfu
    aliveMap := Function.update r.aliveMap fid
      (some { pageId := pid, frameId := fid, evictable := false, arcStatus := .mfu }) }

/-- The ghost entry a total miss drops, if the lists are full. -/
def trimGhosts (r : ArcReplacer) : ArcReplacer :=
  let t1 := r.mru.length
  let b1 := r.mruGhost.length
  if t1 + b1 = r.replacerSize then
    match r.mruGhost.getLast? with
    | some dropped =>
        { r with
          mruGhost := r.mruGhost.dropLast, ghostMap := Function.update r.ghostMap dropped none }
    | none => r
  else if t1 + b1 < r.replacerSize ∧
      t1 + r.mfu.length + b1 + r.mfuGhost.length ≥ 2 * r.replacerSize then
    match r.mfuGhost.getLast? with
    | some dropped =>
        { r with
          mfuGhost := r.mfuGhost.dropLast, ghostMap := Function.update r.ghostMap dropped none }
    | none => r
  else r

/-- A total miss: the page enters MRU. -/
def admitNew (r : ArcReplacer) (fid : FrameId) (pid : PageId) : ArcReplacer :=
  let r := r.trimGhosts
  { r with
    mru := fid :: r.mru
    aliveMap := Function.update r.aliveMap fid
      (some { pageId := pid, frameId := fid, evictable := false, arcStatus := .mru }) }

def recordAccess (r : ArcReplacer) (fid : FrameId) (pid : PageId) : ArcReplacer :=
  match r.aliveMap fid with
  | some status => r.promote fid status
  | none =>
      match r.ghostMap pid with
      | some status => r.resurrect fid pid status
      | none => r.admitNew fid pid

/-! ## Pins -/

def setEvictable (r : ArcReplacer) (fid : FrameId) (evictable : Bool) : ArcReplacer :=
  match r.aliveMap fid with
  | none => r
  | some status =>
      if status.evictable = evictable then r
      else
        { r with
          aliveMap := Function.update r.aliveMap fid (some { status with evictable })
          currSize := if evictable then r.currSize + 1 else decrement r.currSize }

def remove (r : ArcReplacer) (fid : FrameId) : Except Fault ArcReplacer :=
  match r.aliveMap fid with
  | none => .ok r
  | some status =>
      if status.evictable then
        let r := if status.arcStatus = .mru then { r with mru := removeAll r.mru fid }
          else { r with mfu := removeAll r.mfu fid }
        .ok { r with
          aliveMap := Function.update r.aliveMap fid none, currSize := decrement r.currSize }
      else .error (.terminated "ArcReplacer::remove called on a non-evictable frame.")

end ArcReplacer

end TurtleDb.Buffer
