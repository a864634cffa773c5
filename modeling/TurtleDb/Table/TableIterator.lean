import TurtleDb.Table.TableHeap

/-!
# Iterating over a heap

`storage/table/table_iterator.{hpp,cpp}`. The heap and the pool behind the iterator's pointer are
arguments.
-/

namespace TurtleDb.Table

open TurtleDb.Lib TurtleDb.Buffer TurtleDb.Page

structure TableIterator where
  currentId : RecordId
  currentTuple : Tuple

namespace TableIterator

/-- "Skip over deleted slots on this page": `left` slots from `slot` on are still on it. -/
def skipDeleted (p : PageData) (slot : Nat) : Nat → Nat
  | 0 => slot
  | left + 1 =>
      if SlottedPage.isSlotOccupied p slot then slot else skipDeleted p (add32 slot 1) left

variable {δ : Type} [PageDisk δ]

/-- `none` as the tuple of the page: the iterator stays where it is when a page cannot be read. -/
def advanceToValid (h : TableHeap) : Nat → BufferPoolManager δ → TableIterator →
    Except Fault (TableIterator × BufferPoolManager δ)
  | 0, _, _ => .error .outOfFuel
  | fuel + 1, b, it =>
      if it.currentId.pageId = invalidPageId then
        .ok ({ it with currentId := ⟨invalidPageId, 0⟩ }, b)
      else do
        match ← b.readPage h.fileId it.currentId.pageId with
        | (none, b) => return (it, b)
        | (some frame, b) =>
            let page := b.data frame
            let slotCount := SlottedPage.slotCount page
            let slot := skipDeleted page it.currentId.slotNum (slotCount - it.currentId.slotNum)
            let b := ReadPageGuard.drop b frame
            if slot < slotCount then
              let rid := ⟨it.currentId.pageId, slot⟩
              let bytes ← SlottedPage.tuple page rid
              return ({
                currentId := rid
                currentTuple := it.currentTuple.deserializeFrom bytes bytes.length }, b)
            else
              advanceToValid h fuel b
                { it with currentId := ⟨SlottedPage.getNextPageId page, 0⟩ }

/-- The constructor. -/
def make (fuel : Nat) (h : TableHeap) (b : BufferPoolManager δ) (rid : RecordId) :
    Except Fault (TableIterator × BufferPoolManager δ) :=
  let it := { currentId := rid, currentTuple := .empty }
  if rid.pageId ≠ invalidPageId then advanceToValid h fuel b it else .ok (it, b)

/-- `operator++`. -/
def increment (fuel : Nat) (h : TableHeap) (b : BufferPoolManager δ) (it : TableIterator) :
    Except Fault (TableIterator × BufferPoolManager δ) :=
  advanceToValid h fuel b
    { it with currentId := { it.currentId with slotNum := add32 it.currentId.slotNum 1 } }

end TableIterator

namespace TableHeap

variable {δ : Type} [PageDisk δ]

/-- `begin`. -/
def start (fuel : Nat) (h : TableHeap) (b : BufferPoolManager δ) :
    Except Fault (TableIterator × BufferPoolManager δ) :=
  TableIterator.make fuel h b ⟨h.firstPageId, 0⟩

/-- The record id of `end`, which is all that a comparison with it looks at. -/
def finish : RecordId := ⟨invalidPageId, 0⟩

/-- The loop `for (auto it = begin(); it != end(); ++it)`, with the record ids and tuples it
visits. -/
def visit (fuel : Nat) (h : TableHeap) : Nat → BufferPoolManager δ → TableIterator →
    Except Fault (List (RecordId × Tuple) × BufferPoolManager δ)
  | 0, _, _ => .error .outOfFuel
  | steps + 1, b, it =>
      if it.currentId = finish then .ok ([], b)
      else do
        let (it', b) ← it.increment fuel h b
        let (rest, b) ← visit fuel h steps b it'
        return ((it.currentId, it.currentTuple) :: rest, b)

/-- A whole iteration; `fuel` bounds the pages gone over and the rows visited. -/
def scan (fuel : Nat) (h : TableHeap) (b : BufferPoolManager δ) :
    Except Fault (List (RecordId × Tuple) × BufferPoolManager δ) := do
  let (it, b) ← h.start fuel b
  visit fuel h fuel b it

end TableHeap

/-! ## More fuel -/

section
variable {δ : Type} [PageDisk δ] {h : TableHeap} {b : BufferPoolManager δ} {it : TableIterator}
  {fuel fuel' : Nat}

theorem TableIterator.advanceToValid_mono {r : TableIterator × BufferPoolManager δ}
    (hr : advanceToValid h fuel b it = .ok r) (hle : fuel ≤ fuel') :
    advanceToValid h fuel' b it = .ok r := by
  induction fuel generalizing fuel' b it with
  | zero => cases hr
  | succ fuel ih =>
      match fuel', hle with
      | fuel' + 1, hle =>
        rw [advanceToValid] at hr ⊢
        split at hr
        · rwa [if_pos ‹_›]
        · rw [if_neg ‹_›]
          obtain ⟨⟨frame, b'⟩, hread, hr⟩ := bind_eq_ok.mp hr
          rw [hread, ok_bind]
          cases frame with
          | none => exact hr
          | some frame =>
              dsimp only at hr ⊢
              split at hr
              · rwa [if_pos ‹_›]
              · rw [if_neg ‹_›]
                exact ih hr (Nat.le_of_succ_le_succ hle)

theorem TableIterator.increment_mono {r : TableIterator × BufferPoolManager δ}
    (hr : it.increment fuel h b = .ok r) (hle : fuel ≤ fuel') :
    it.increment fuel' h b = .ok r := advanceToValid_mono hr hle

theorem TableHeap.start_mono {r : TableIterator × BufferPoolManager δ}
    (hr : h.start fuel b = .ok r) (hle : fuel ≤ fuel') : h.start fuel' b = .ok r := by
  rw [start, TableIterator.make] at hr ⊢
  split at hr
  · rw [if_pos ‹_›]
    exact TableIterator.advanceToValid_mono hr hle
  · rwa [if_neg ‹_›]

theorem TableHeap.visit_mono {steps steps' : Nat}
    {r : List (RecordId × Tuple) × BufferPoolManager δ}
    (hr : h.visit fuel steps b it = .ok r) (hle : fuel ≤ fuel') (hsteps : steps ≤ steps') :
    h.visit fuel' steps' b it = .ok r := by
  induction steps generalizing steps' b it r with
  | zero => cases hr
  | succ steps ih =>
      match steps', hsteps with
      | steps' + 1, hsteps =>
        rw [visit] at hr ⊢
        split at hr
        · rwa [if_pos ‹_›]
        · rw [if_neg ‹_›]
          obtain ⟨⟨it', b'⟩, hinc, hr⟩ := bind_eq_ok.mp hr
          obtain ⟨⟨rest, b''⟩, hvisit, hr⟩ := bind_eq_ok.mp hr
          rw [TableIterator.increment_mono hinc hle, ok_bind]
          dsimp only
          rw [ih hvisit (Nat.le_of_succ_le_succ hsteps)]
          exact hr

theorem TableHeap.scan_mono {r : List (RecordId × Tuple) × BufferPoolManager δ}
    (hr : h.scan fuel b = .ok r) (hle : fuel ≤ fuel') : h.scan fuel' b = .ok r := by
  rw [scan] at hr ⊢
  obtain ⟨⟨it, b'⟩, hstart, hr⟩ := bind_eq_ok.mp hr
  rw [start_mono hstart hle, ok_bind]
  exact visit_mono hr hle hle

end

end TurtleDb.Table
