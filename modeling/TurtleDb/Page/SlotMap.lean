import TurtleDb.Page.Lemmas.Operations

/-!
# A page as a map

From its initialisation on a slotted page stands for a map from slots to bytes. `Reaches` follows
the page and the map through any sequence of calls, and `Serves` says what a call answers and does.
-/

namespace TurtleDb.Page.SlottedPage

open TurtleDb.Lib

abbrev SlotMap := Nat → Option (List UInt8)

/-- The pages and maps that sequences of calls lead to. `tuple` and a call that throws leave both as
they are. -/
inductive Reaches (page : PageId) : PageData → SlotMap → Prop where
  | init : Reaches page (init Block.zero page) fun _ => none
  | insert {p q m bytes rid} (h : Reaches page p m) (hpos : 1 ≤ bytes.length)
      (hmax : bytes.length ≤ maxInsertSize) (hr : insertTuple p bytes = .ok (some rid, q)) :
      Reaches page q (Function.update m rid.slotNum (some bytes))
  | insertFull {p q m bytes} (h : Reaches page p m) (hpos : 1 ≤ bytes.length)
      (hmax : bytes.length ≤ maxInsertSize) (hr : insertTuple p bytes = .ok (none, q)) :
      Reaches page q m
  | delete {p q m rid} (h : Reaches page p m) (hr : deleteTuple p rid = .ok q) :
      Reaches page q (Function.update m rid.slotNum none)
  | compact {p q m} (h : Reaches page p m) (hr : compact p = .ok q) : Reaches page q m

/-- A page serves a map: every call on it answers from the map and changes it as it should. -/
structure Serves (page : PageId) (p : PageData) (m : SlotMap) : Prop where
  content : ∀ i, slotBytes p i = m i
  /-- The call succeeds exactly when the space suffices; the slot it returns was not live. -/
  insert : ∀ bytes : List UInt8, 1 ≤ bytes.length → bytes.length ≤ maxInsertSize →
    ∃ r q, insertTuple p bytes = .ok (r, q) ∧
      (r.isSome ↔ usableSpace p ≥
        bytes.length + if ∃ i < slotCount p, m i = none then 0 else slotSize) ∧
      (∀ rid, r = some rid → rid.pageId = page ∧ m rid.slotNum = none ∧
        ∀ i, slotBytes q i = if i = rid.slotNum then some bytes else m i) ∧
      (r = none → q = p)
  delete : ∀ rid : RecordId, rid.pageId = page → rid.slotNum < slotCount p →
    ∃ q, deleteTuple p rid = .ok q ∧ (∀ i, slotBytes q i = if i = rid.slotNum then none else m i) ∧
      (m rid.slotNum = none → q = p)
  delete_invalid : ∀ rid : RecordId, ¬ (rid.pageId = page ∧ rid.slotNum < slotCount p) →
    ∃ message, deleteTuple p rid = .error (.raised message)
  compact : ∃ q, compact p = .ok q ∧ ∀ i, slotBytes q i = m i
  tuple_live : ∀ rid bytes, rid.pageId = page → m rid.slotNum = some bytes →
    tuple p rid = .ok bytes
  tuple_dead : ∀ rid, rid.pageId ≠ page ∨ m rid.slotNum = none →
    ∃ message, tuple p rid = .error (.raised message)

/-! ## One page -/

section
variable {p : PageData}

theorem reusableSlot_eq_none_iff :
    reusableSlot p = none ↔ ¬ ∃ i < slotCount p, slotBytes p i = none := by
  constructor
  · rintro hnone ⟨i, hi, hb⟩
    exact slotBytes_eq_none_iff.mp hb ⟨hi, reusableSlot_none hnone i hi⟩
  · intro hno
    cases hr : reusableSlot p with
    | none => rfl
    | some s =>
        obtain ⟨hs, hz, _⟩ := reusableSlot_some hr
        exact absurd ⟨s, hs, slotBytes_eq_none_iff.mpr (by omega)⟩ hno

/-- The space the check of `insert_tuple` asks for does not wrap. -/
theorem spaceNeeded_of_le {size : Nat} (h : size ≤ maxInsertSize) :
    spaceNeeded p size = size + if ∃ i < slotCount p, slotBytes p i = none then 0 else slotSize := by
  unfold maxInsertSize at h
  unfold spaceNeeded
  by_cases hfree : ∃ i < slotCount p, slotBytes p i = none
  · rw [if_pos hfree, if_neg (fun hr => reusableSlot_eq_none_iff.mp hr hfree)]
    exact trunc32_of_lt (by rw [word32_eq]; omega)
  · rw [if_neg hfree, if_pos (reusableSlot_eq_none_iff.mpr hfree)]
    exact trunc32_of_lt (by rw [word32_eq, slotSize_eq]; omega)

theorem serves_of_repInv (h : RepInv p) : Serves (pageId p) p (slotBytes p) := by
  constructor
  case content => exact fun _ => rfl
  case insert =>
    intro bytes hpos hmax
    have hspace := h.fits_iff hmax
    rw [spaceNeeded_of_le hmax] at hspace
    by_cases hfits : Fits (slots p) bytes.length
    · obtain ⟨q, hq, _, hslots⟩ := insertTuple_fits h hpos hmax hfits
      refine ⟨_, q, hq, ?_, ?_, by simp⟩
      · exact iff_of_true rfl (hspace.mp hfits)
      · rintro rid ⟨⟩
        refine ⟨rfl, ?_, fun i => ?_⟩
        · rw [← get_slots, SlotTable.get_free]
        · rw [← get_slots, hslots, SlotTable.get_insert, get_slots]
    · refine ⟨none, p, insertTuple_full h hmax hfits, ?_, by simp, fun _ => rfl⟩
      exact iff_of_false (by simp) fun hle => hfits (hspace.mpr hle)
  case delete =>
    intro rid hid hs
    by_cases hl : 0 < slotLength p rid.slotNum
    · obtain ⟨q, hq, _, hslots⟩ := deleteTuple_valid h hid hs
      refine ⟨q, hq, fun i => ?_, fun hnone => ?_⟩
      · rw [← get_slots, hslots, SlotTable.get_erase, get_slots]
      · exact absurd ⟨hs, hl⟩ (slotBytes_eq_none_iff.mp hnone)
    · have hnone : slotBytes p rid.slotNum = none := slotBytes_eq_none_iff.mpr fun hlive => hl hlive.2
      refine ⟨p, deleteTuple_empty hid hs (Nat.eq_zero_of_not_pos hl), fun i => ?_, fun _ => rfl⟩
      by_cases hi : i = rid.slotNum
      · rw [if_pos hi, hi, hnone]
      · rw [if_neg hi]
  case delete_invalid => exact fun rid hv => ⟨_, deleteTuple_invalid hv⟩
  case compact =>
    obtain ⟨q, hq, hc⟩ := compact_ok h
    exact ⟨q, hq, hc.slotBytes_eq⟩
  case tuple_live =>
    intro rid bytes hid hb
    exact SlottedPage.tuple_live h hid (by rw [get_slots, hb])
  case tuple_dead =>
    rintro rid (hid | hb)
    · refine ⟨"Invalid RID for this page", ?_⟩
      rw [tuple, validateRecordId_error fun hv => hid hv.1, error_bind]
    · exact SlottedPage.tuple_dead (by rw [get_slots, hb])

end

/-! ## Every run -/

theorem Reaches.repInv {page : PageId} (hpage : page < word32) {p : PageData} {m : SlotMap}
    (h : Reaches page p m) : RepInv p ∧ pageId p = page ∧ slotBytes p = m := by
  induction h with
  | init =>
      refine ⟨init_repInv (by decide) hpage, (init_fields _ page hpage).1, ?_⟩
      funext i
      rw [← get_slots, init_slots _ hpage]
      rfl
  | @insert p q m bytes rid h hpos hmax hr ih =>
      obtain ⟨hinv, hid, rfl⟩ := ih
      by_cases hfits : Fits (slots p) bytes.length
      · obtain ⟨q', hq, hkeeps, hslots⟩ := insertTuple_fits hinv hpos hmax hfits
        cases hr.symm.trans hq
        refine ⟨hkeeps.inv, hkeeps.page_id.trans hid, ?_⟩
        funext i
        rw [← get_slots, hslots, SlotTable.get_insert, get_slots, Function.update_apply]
      · cases hr.symm.trans (insertTuple_full hinv hmax hfits)
  | @insertFull p q m bytes h hpos hmax hr ih =>
      obtain ⟨hinv, hid, rfl⟩ := ih
      by_cases hfits : Fits (slots p) bytes.length
      · obtain ⟨q', hq, _⟩ := insertTuple_fits hinv hpos hmax hfits
        cases hr.symm.trans hq
      · cases hr.symm.trans (insertTuple_full hinv hmax hfits)
        exact ⟨hinv, hid, rfl⟩
  | @delete p q m rid h hr ih =>
      obtain ⟨hinv, hid, rfl⟩ := ih
      by_cases hv : rid.pageId = pageId p ∧ rid.slotNum < slotCount p
      · obtain ⟨q', hq, hkeeps, hslots⟩ := deleteTuple_valid hinv hv.1 hv.2
        cases hr.symm.trans hq
        refine ⟨hkeeps.inv, hkeeps.page_id.trans hid, ?_⟩
        funext i
        rw [← get_slots, hslots, SlotTable.get_erase, get_slots, Function.update_apply]
      · cases hr.symm.trans (deleteTuple_invalid hv)
  | compact h hr ih =>
      obtain ⟨hinv, hid, rfl⟩ := ih
      obtain ⟨q', hq, hc⟩ := compact_ok hinv
      cases hr.symm.trans hq
      exact ⟨hc.inv, hc.page_id.trans hid, funext hc.slotBytes_eq⟩

/-- After every sequence of calls the page serves the map that the calls built up. -/
theorem reaches_serves (page : PageId) (hpage : page < word32) (p : PageData) (m : SlotMap)
    (h : Reaches page p m) : Serves page p m := by
  obtain ⟨hinv, hid, rfl⟩ := h.repInv hpage
  exact hid ▸ serves_of_repInv hinv

theorem reaches_serves_inserted : ∃ q,
    Reaches 7 q (Function.update (fun _ => none) 0 (some [1, 2, 3])) ∧
      Serves 7 q (Function.update (fun _ => none) 0 (some [1, 2, 3])) := by
  have hslots := init_slots Block.zero (show (7 : PageId) < word32 by decide)
  have hinv : RepInv (init Block.zero 7) := init_repInv (by decide) (by decide)
  have hfits : Fits (slots (init Block.zero 7)) [1, 2, 3].length := by
    rw [hslots]
    decide
  obtain ⟨q, hq, _⟩ := @insertTuple_fits _ hinv [1, 2, 3] (by decide) (by decide) hfits
  rw [hslots] at hq
  have h := Reaches.init.insert (by decide) (by decide) hq
  exact ⟨q, h, reaches_serves 7 (by decide) q _ h⟩

end TurtleDb.Page.SlottedPage
