import TurtleDb.Lib.Run
import TurtleDb.Page.Lemmas.Operations

/-!
# Runs of a slotted page

Any sequence of operations on a fresh page keeps the representation invariant, and from every page
so reached each further operation computes without wrapping and writes only where it may.
-/

namespace TurtleDb.Page.SlottedPage

open TurtleDb.Lib

inductive PageOp where
  | insert (tuple : List UInt8)
  | delete (rid : RecordId)
  | compact
  deriving DecidableEq

inductive PageReply where
  | inserted (rid : Option RecordId)
  | deleted
  | refused (message : String)
  | compacted
  deriving DecidableEq

/-- `delete_tuple` throws before it writes anything, so the page is then as it was. -/
def step (p : PageData) : PageOp → Except Fault (PageReply × PageData)
  | .insert tuple => do
      let (rid, q) ← insertTuple p tuple
      return (.inserted rid, q)
  | .delete rid =>
      match deleteTuple p rid with
      | .error (.raised message) => .ok (.refused message, p)
      | .error fault => .error fault
      | .ok q => .ok (.deleted, q)
  | .compact => do
      let q ← compact p
      return (.compacted, q)

/-- The tuple sizes for which `tuple_size + SLOT_SIZE` does not itself wrap around. -/
def PageOp.InRange : PageOp → Prop
  | .insert tuple => 1 ≤ tuple.length ∧ tuple.length ≤ maxInsertSize
  | _ => True

/-- The slot an operation may empty. -/
def PageOp.Empties : PageOp → Nat → Prop
  | .delete rid, i => rid.slotNum = i
  | _, _ => False

/-- Writing `tuple` into page `r` through slot `s` keeps clear of everything else. -/
structure WriteSafe (r : PageData) (s : Nat) (tuple : List UInt8) : Prop where
  /-- `free_space_pointer_ -= tuple_size` does not wrap. -/
  no_wrap : tuple.length ≤ freeSpacePointer r
  /-- The data goes above the header and the slot array, the new slot included. -/
  above_slots : headerSize + slotSize * max (slotCount r) (s + 1) ≤ freeSpacePointer r - tuple.length
  in_page : freeSpacePointer r ≤ pageSize
  /-- The data ends where the live tuples begin. -/
  below_tuples : ∀ i < slotCount r, 0 < slotLength r i → freeSpacePointer r ≤ slotOffset r i
  slot_empty : ¬ (s < slotCount r ∧ 0 < slotLength r s)

/-- An insertion into `p` allocates safely in the page its check settles on. -/
def InsertSafe (p : PageData) (tuple : List UInt8) : Prop :=
  ∀ r, makeRoom p (spaceNeeded p tuple.length) = .ok (some r) →
    WriteSafe r ((reusableSlot p).getD (slotCount r)) tuple

/-- Every iteration of the packing loop of `p` subtracts without wrapping and stays above the slot
array, and so does the final copy. -/
def CompactSafe (p : PageData) : Prop :=
  ∀ k ≤ slotCount p, ∀ c, compactLoop p k = .ok c →
    headerSize + slotSize * slotCount p ≤ c.ptr ∧ c.ptr ≤ pageSize ∧
      (k < slotCount p → headerSize + slotSize * slotCount p + slotLength c.page k ≤ c.ptr)

/-- A step answers, keeps the page's identity and every live tuple it does not delete, and
computes and writes safely on the way. -/
structure StepSafe (p : PageData) (op : PageOp) : Prop where
  answers : ∃ reply q, step p op = .ok (reply, q) ∧ Keeps p q ∧
    ∀ i bytes, slotBytes p i = some bytes → ¬ op.Empties i → slotBytes q i = some bytes
  insert_safe : ∀ tuple, op = .insert tuple → InsertSafe p tuple
  compact_safe : CompactSafe p

/-! ## One step -/

theorem insertSafe_of_repInv {p : PageData} (h : RepInv p) {tuple : List UInt8}
    (hmax : tuple.length ≤ maxInsertSize) : InsertSafe p tuple := by
  intro r hr
  have hu : spaceNeeded p tuple.length ≤ usableSpace p := by
    by_contra hn
    rw [makeRoom_none h (by omega)] at hr
    exact absurd hr (by simp)
  obtain ⟨r', hr', hroomy⟩ := makeRoom_roomy h hu
  cases (hr.symm.trans hr')
  have hroom := hroomy.room hmax
  have hslot := hroomy.slotFor
  rw [hslot.getD]
  constructor
  case no_wrap => omega
  case above_slots => omega
  case in_page => exact hroomy.keeps.inv.pointer_le
  case below_tuples => exact fun i hi hl => (hroomy.keeps.inv.bounds i hi hl).1
  case slot_empty => exact slotBytes_eq_none_iff.mp hslot.empty

theorem compactSafe_of_repInv {p : PageData} (h : RepInv p) : CompactSafe p := by
  intro k hk c hc
  obtain ⟨c', hc', hp⟩ := compactLoop_ok h hk
  cases (hc.symm.trans hc')
  have hptr := hp.ptr
  have hmono := liveBytes_mono p hk
  have hacc := h.accounting
  have hslots := h.slots_le
  refine ⟨by omega, by omega, ?_⟩
  intro hlt
  have hsucc := liveBytes_succ p k
  have hnext := liveBytes_mono p (show k + 1 ≤ slotCount p from hlt)
  rw [hp.slotLength_eq]
  omega

theorem step_answers {p : PageData} (h : RepInv p) {op : PageOp} (hop : op.InRange) :
    ∃ reply q, step p op = .ok (reply, q) ∧ Keeps p q ∧
      ∀ i bytes, slotBytes p i = some bytes → ¬ op.Empties i → slotBytes q i = some bytes := by
  cases op with
  | insert tuple =>
      by_cases hfits : Fits (slots p) tuple.length
      · obtain ⟨q, hq, hk, hslots⟩ := insertTuple_fits h hop.1 hop.2 hfits
        refine ⟨_, q, by simp only [step, hq, ok_bind]; rfl, hk, ?_⟩
        intro i bytes hb _
        rw [← get_slots] at hb ⊢
        have hne : i ≠ (slots p).free := by
          rintro rfl
          rw [SlotTable.get_free] at hb
          exact absurd hb (by simp)
        rw [hslots, SlotTable.get_insert, if_neg hne, hb]
      · have hq := insertTuple_full h hop.2 hfits
        exact ⟨_, p, by simp only [step, hq, ok_bind]; rfl, ⟨rfl, rfl, h⟩, fun _ _ hb _ => hb⟩
  | delete rid =>
      by_cases hv : rid.pageId = pageId p ∧ rid.slotNum < slotCount p
      · obtain ⟨q, hq, hk, hslots⟩ := deleteTuple_valid h hv.1 hv.2
        refine ⟨_, q, by simp only [step, hq]; rfl, hk, ?_⟩
        intro i bytes hb hne
        rw [← get_slots] at hb ⊢
        rw [hslots, SlotTable.get_erase, if_neg (fun he => hne he.symm), hb]
      · have hq := deleteTuple_invalid hv
        exact ⟨_, p, by simp only [step, hq]; rfl, ⟨rfl, rfl, h⟩, fun _ _ hb _ => hb⟩
  | compact =>
      obtain ⟨q, hq, hc⟩ := compact_ok h
      refine ⟨_, q, by simp only [step, hq, ok_bind]; rfl, ⟨hc.page_id, hc.next, hc.inv⟩, ?_⟩
      intro i bytes hb _
      rw [hc.slotBytes_eq, hb]

theorem stepSafe_of_repInv {p : PageData} (h : RepInv p) {op : PageOp} (hop : op.InRange) :
    StepSafe p op := by
  refine ⟨step_answers h hop, ?_, compactSafe_of_repInv h⟩
  rintro tuple rfl
  exact insertSafe_of_repInv h hop.2

/-! ## Every run -/

theorem run_repInv {p : PageData} {page : PageId} {ops : List PageOp} (hp : deadSpace p = 0)
    (hpage : page < word32) (hops : ∀ op ∈ ops, op.InRange) :
    ∃ replies q, run step (init p page) ops = .ok (replies, q) ∧ RepInv q := by
  refine run_invariant (fun q op hq hop => ?_) (init_repInv hp hpage) hops
  obtain ⟨reply, r, hr, hk, _⟩ := step_answers hq hop
  exact ⟨reply, r, hr, hk.inv⟩

/-- A page starts from zeros and keeps the representation invariant under every sequence of
operations; the next operation is safe again. -/
theorem run_safe (page : PageId) (ops : List PageOp) (hpage : page < word32)
    (hops : ∀ op ∈ ops, op.InRange) :
    ∃ replies q, run step (init Block.zero page) ops = .ok (replies, q) ∧ RepInv q ∧
      ∀ op, op.InRange → StepSafe q op := by
  have hzero : deadSpace (Block.zero : PageData) = 0 := by decide
  obtain ⟨replies, q, hrun, hq⟩ := run_repInv hzero hpage hops
  exact ⟨replies, q, hrun, hq, fun op hop => stepSafe_of_repInv hq hop⟩

theorem run_safe_compacting :
    ∃ replies q, run step (init Block.zero 7)
        [.insert [1, 2, 3], .insert [4], .delete ⟨7, 0⟩, .compact, .insert [5]] =
          .ok (replies, q) ∧ RepInv q ∧ ∀ op, PageOp.InRange op → StepSafe q op :=
  run_safe 7 _ (by decide) (by
    simp only [List.mem_cons, List.not_mem_nil, or_false, forall_eq_or_imp, forall_eq,
      PageOp.InRange, maxInsertSize]
    decide)

end TurtleDb.Page.SlottedPage
