import TurtleDb.Lib.Block
import TurtleDb.Lib.Result

/-!
# Identifiers, constants and faults

The names of `common/config.hpp`, `common/record_id.hpp` and `common/pagekey.hpp`. An identifier is
a natural number; where the source lets one wrap around, the model says so.
-/

namespace TurtleDb

open TurtleDb.Lib

abbrev PageId := Nat
abbrev FrameId := Nat
abbrev FileId := Nat

def pageSize : Nat := 4096

/-- `static_cast<PageId>(-1)`. -/
def invalidPageId : PageId := 4294967295

/-- `static_cast<FrameId>(-1)`. -/
def invalidFrameId : FrameId := 4294967295

/-- `INT_MAX`. -/
def intMax : Int := 2147483647

/-- The bytes of one page. -/
abbrev PageData := Block pageSize

structure RecordId where
  pageId : PageId
  slotNum : Nat
  deriving DecidableEq, Repr

/-- `RecordId{}`. -/
def RecordId.invalid : RecordId := ⟨invalidPageId, 0⟩

structure PageKey where
  fileId : FileId
  pageId : PageId
  deriving DecidableEq, Repr

/-- The ways a call does not return normally. -/
inductive Fault where
  /-- A C++ exception with its message. -/
  | raised (message : String)
  /-- `std::terminate`, reached through `TURTLE_ENSURE`. -/
  | terminated (message : String)
  /-- An access outside the object it was meant for: undefined behaviour. -/
  | outOfBounds
  /-- A signed integer beyond its range: undefined behaviour. -/
  | overflow
  /-- The given fuel did not suffice for a loop. -/
  | outOfFuel
  deriving DecidableEq, Repr

end TurtleDb
