import TurtleDb.Page.Theorems

/-!
# What `init` makes of a buffer

The header is laid over the bytes of the page, so its default member initialisers never run. `init`
sets every field but `dead_space_`: the accounting of a page that is laid over a buffer is right
from the start, and in every run, exactly if the bytes of that field were zero.
-/

namespace TurtleDb.Page.SlottedPage

open TurtleDb.Lib

/-- `free_space_pointer_`, the live bytes and `dead_space_` make up the page. -/
def Balanced (p : PageData) : Prop :=
  freeSpacePointer p + liveBytes p (slotCount p) + deadSpace p = pageSize

/-- An insertion that reports success had room for the tuple. -/
def InsertsWithRoom (p : PageData) : Prop :=
  ∀ tuple rid q, 1 ≤ tuple.length → tuple.length ≤ maxInsertSize →
    insertTuple p tuple = .ok (some rid, q) → Fits (slots p) tuple.length

/-- After `init`, and after any operations that follow, the page balances and inserts only where
there is room. -/
def StartsBalanced (p : PageData) (page : PageId) : Prop :=
  Balanced (init p page) ∧
    ∀ ops : List PageOp, (∀ op ∈ ops, op.InRange) →
      ∃ replies q, run step (init p page) ops = .ok (replies, q) ∧ Balanced q ∧ InsertsWithRoom q

theorem RepInv.insertsWithRoom {p : PageData} (h : RepInv p) : InsertsWithRoom p := by
  intro tuple rid q _ hmax hq
  by_contra hfull
  rw [insertTuple_full h hmax hfull] at hq
  cases hq

/-- Right after `init` the page balances exactly if `dead_space_` was zero. -/
theorem balanced_init_iff (p : PageData) {page : PageId} (hpage : page < word32) :
    Balanced (init p page) ↔ deadSpace p = 0 := by
  obtain ⟨_, _, hcount, _, hptr, hdead⟩ := init_fields p page hpage
  have hlive : liveBytes (init p page) 0 = 0 := Finset.sum_range_zero _
  rw [Balanced, hcount, hptr, hdead, hlive]
  omega

theorem startsBalanced_of_deadSpace {p : PageData} {page : PageId} (hp : deadSpace p = 0)
    (hpage : page < word32) : StartsBalanced p page := by
  refine ⟨(balanced_init_iff p hpage).mpr hp, fun ops hops => ?_⟩
  obtain ⟨replies, q, hrun, hq⟩ := run_repInv hp hpage hops
  exact ⟨replies, q, hrun, hq.accounting, hq.insertsWithRoom⟩

/-- `init` makes an empty page of a buffer exactly if the bytes of `dead_space_` are zero. -/
theorem startsBalanced_iff (p : PageData) (page : PageId) (hpage : page < word32) :
    StartsBalanced p page ↔ deadSpace p = 0 :=
  ⟨fun h => (balanced_init_iff p hpage).mp h.1, fun hp => startsBalanced_of_deadSpace hp hpage⟩

theorem startsBalanced_iff_zero : StartsBalanced (Block.zero : PageData) 7 :=
  (startsBalanced_iff Block.zero 7 (by decide)).mpr (by decide)

/-- A buffer that says 100 bytes are dead. -/
def stale : PageData := setDeadSpace Block.zero 100

theorem deadSpace_stale : deadSpace stale = 100 :=
  Block.u32_putU32_self (by decide) (by decide)

theorem stale_not_startsBalanced :
    ¬ ∀ (p : PageData) (page : PageId), page < word32 → StartsBalanced p page := by
  intro h
  have hbalanced := (balanced_init_iff stale (by decide)).mp (h stale 7 (by decide)).1
  rw [deadSpace_stale] at hbalanced
  cases hbalanced

end TurtleDb.Page.SlottedPage
