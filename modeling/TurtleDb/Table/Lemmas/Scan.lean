import TurtleDb.Buffer.Sharing
import TurtleDb.Table.Lemmas.Chain
import TurtleDb.Table.TableIterator

/-!
# The iterator of a heap

An iterator stands at the first of the entries it has still to read. `advance_to_valid` finds that
entry, over empty slots and over pages with nothing left, and a whole iteration visits the entries
of the heap in their order, as long as it can read the pages. It never gets past a page that it
cannot read.
-/

namespace TurtleDb.Table

open TurtleDb.Lib TurtleDb.Buffer TurtleDb.Buffer.BufferPoolManager TurtleDb.Page

/-- An entry of a paged table. -/
abbrev Entry := (PageId × Nat) × List UInt8

def Entry.rid (e : Entry) : RecordId := ⟨e.1.1, e.1.2⟩

/-- The tuple an iterator loads for the entry. -/
def Entry.tuple (e : Entry) : Tuple := { data := e.2, recordId := .invalid }

/-- What a scan has of the entry. -/
def Entry.row (e : Entry) : RecordId × Tuple := (e.rid, e.tuple)

theorem nodup_rids {c : PagedTable PageId (List UInt8)} (hnodup : (c.map Prod.fst).Nodup) :
    ((PagedTable.entries c).map Entry.rid).Nodup := by
  have hkeys := PagedTable.nodup_entries hnodup
  rw [List.Nodup, List.pairwise_map] at hkeys ⊢
  refine hkeys.imp fun hne he => hne ?_
  obtain ⟨hi, hj⟩ := RecordId.mk.inj he
  exact Prod.ext hi hj

/-- The iterator has still to read `rows`, and stands at the first of them. -/
structure Reads (c : PagedTable PageId (List UInt8)) (it : TableIterator) (rows : List Entry) :
    Prop where
  ahead : PagedTable.ahead c it.currentId.pageId it.currentId.slotNum = rows
  recordId : it.currentTuple.recordId = .invalid
  current : ∀ e rest, rows = e :: rest → it.currentId = e.rid ∧ it.currentTuple = e.tuple
  finished : rows = [] → it.currentId = TableHeap.finish

theorem Reads.mem_entries {c : PagedTable PageId (List UInt8)} {it : TableIterator} {e : Entry}
    {rows : List Entry} (hr : Reads c it (e :: rows)) : e ∈ PagedTable.entries c := by
  have hsub := (PagedTable.ahead_suffix c it.currentId.pageId it.currentId.slotNum).subset
  rw [hr.ahead] at hsub
  exact hsub List.mem_cons_self

namespace TableIterator

/-- The loop stops at the first tuple of the page at or behind its slot. -/
theorem skipDeleted_cases {p : PageData} (hp : SlottedPage.RepInv p) (slot : Nat) :
    (∃ bytes rest, skipDeleted p slot (SlottedPage.slotCount p - slot) < SlottedPage.slotCount p ∧
        (SlottedPage.slots p).entriesFrom slot =
          (skipDeleted p slot (SlottedPage.slotCount p - slot), bytes) :: rest) ∨
      SlottedPage.slotCount p ≤ skipDeleted p slot (SlottedPage.slotCount p - slot) ∧
        (SlottedPage.slots p).entriesFrom slot = [] := by
  induction hleft : SlottedPage.slotCount p - slot generalizing slot with
  | zero =>
      refine .inr ⟨by rw [skipDeleted]; omega, SlotTable.entriesFrom_of_le ?_⟩
      rw [SlottedPage.length_slots]
      omega
  | succ left ih =>
      have hlt : slot < SlottedPage.slotCount p := by omega
      have hstep := SlotTable.entriesFrom_step (SlottedPage.slots p)
        (by rwa [SlottedPage.length_slots])
      rw [SlottedPage.get_slots, SlottedPage.slotBytes] at hstep
      rw [skipDeleted]
      cases hocc : SlottedPage.isSlotOccupied p slot with
      | true =>
          rw [hocc] at hstep
          exact .inl ⟨_, _, hlt, hstep⟩
      | false =>
          rw [hocc] at hstep
          have hadd : add32 slot 1 = slot + 1 := by
            have := hp.slotCount_le
            exact Nat.mod_eq_of_lt (by rw [SlottedPage.word32_eq]; omega)
          rw [if_neg Bool.false_ne_true, hadd]
          have hstep' : (SlottedPage.slots p).entriesFrom slot =
            (SlottedPage.slots p).entriesFrom (slot + 1) := hstep
          rw [hstep']
          exact ih (slot + 1) (by omega)

end TableIterator

/-- The next `n` tuples from a record id on, or the end, can be had: a frame has no pin, or else the
pages on the way are in the pool. -/
inductive Served {δ : Type} (b : BufferPoolManager δ) (file : FileId) : Nat → RecordId → Prop where
  | frame {n rid} (h : ¬ Full b) : Served b file n rid
  | enough {rid} : Served b file 0 rid
  | finish {n s} : Served b file n ⟨invalidPageId, s⟩
  | tuple {n i s f k} (hf : b.pageTable ⟨file, i⟩ = some f)
      (hk : TableIterator.skipDeleted (b.data f) s (SlottedPage.slotCount (b.data f) - s) = k)
      (hlt : k < SlottedPage.slotCount (b.data f)) (hrest : Served b file n ⟨i, add32 k 1⟩) :
      Served b file (n + 1) ⟨i, s⟩
  | page {n i s f} (hf : b.pageTable ⟨file, i⟩ = some f)
      (hge : SlottedPage.slotCount (b.data f) ≤
        TableIterator.skipDeleted (b.data f) s (SlottedPage.slotCount (b.data f) - s))
      (hrest : Served b file (n + 1) ⟨SlottedPage.getNextPageId (b.data f), 0⟩) :
      Served b file (n + 1) ⟨i, s⟩

variable {δ : Type} [PageDisk δ] [LawfulPageDisk δ] {b b' : BufferPoolManager δ} {file : FileId}
  {n s : Nat} {rid : RecordId}
  {held : PageKey → Nat} {pending : PageKey → Prop} {store : PageKey → Option PageData}
  {h : TableHeap} {l pre post : Pages} {i j : PageId} {p p' : PageData} {f : FrameId}
  {it : TableIterator} {rows : List Entry} {e : Entry} {fuel : Nat}

/-! ## Pages that can be read -/

theorem readPage_none (hp : Pool b held pending store)
    (he : b.readPage file i = .ok (none, b')) :
    b' = b ∧ Full b ∧ b.pageTable ⟨file, i⟩ = none := by
  obtain ⟨hb, hnone, hfull⟩ := (hp.backs.structural.fetchPage_none_iff file i).mp he
  exact ⟨hb, hfull, hnone⟩

namespace Served

theorem kept (hp : Pool b held pending store) (hk : Kept b b' held pending store)
    (h : Served b file n rid) : Served b' file n rid := by
  have htable : ∀ {i f}, Full b → b.pageTable ⟨file, i⟩ = some f →
      b'.pageTable ⟨file, i⟩ = some f ∧ b'.data f = b.data f := by
    intro i f hfull hf
    have hf' := hk.steady.table _ f (hp.held_pos_of_full hfull hf) hf
    refine ⟨hf', Option.some.inj ?_⟩
    rw [← hk.pool.backs.bytes _ f hf', ← hp.backs.bytes _ f hf]
  induction h with
  | frame hno => exact .frame (hp.not_full_steady hk.pool hk.steady hno)
  | enough => exact .enough
  | finish => exact .finish
  | tuple hf hslot hlt _ ih =>
      by_cases hfull : Full b
      · obtain ⟨hf', hdata⟩ := htable hfull hf
        exact .tuple hf' (hdata ▸ hslot) (hdata ▸ hlt) ih
      · exact .frame (hp.not_full_steady hk.pool hk.steady hfull)
  | page hf hge _ ih =>
      by_cases hfull : Full b
      · obtain ⟨hf', hdata⟩ := htable hfull hf
        exact .page hf' (hdata ▸ hge) (hdata ▸ ih)
      · exact .frame (hp.not_full_steady hk.pool hk.steady hfull)

/-- What is served on one page, and what is served behind it. -/
theorem on_page (hp : Pool b held pending store) (hstored : store ⟨file, i⟩ = some p)
    (hi : i ≠ invalidPageId) (h : Served b file (n + 1) ⟨i, s⟩) :
    ¬ (Full b ∧ b.pageTable ⟨file, i⟩ = none) ∧
      (TableIterator.skipDeleted p s (SlottedPage.slotCount p - s) < SlottedPage.slotCount p →
        Served b file n
          ⟨i, add32 (TableIterator.skipDeleted p s (SlottedPage.slotCount p - s)) 1⟩) ∧
      (SlottedPage.slotCount p ≤ TableIterator.skipDeleted p s (SlottedPage.slotCount p - s) →
        Served b file (n + 1) ⟨SlottedPage.getNextPageId p, 0⟩) := by
  cases h with
  | frame hno => exact ⟨fun h => hno h.1, fun _ => .frame hno, fun _ => .frame hno⟩
  | finish => exact absurd rfl hi
  | tuple hf hslot hlt hrest =>
      have hdata := hp.data_eq hstored hf
      subst hdata
      subst hslot
      refine ⟨fun h => ?_, fun _ => hrest, fun hge => absurd hlt (Nat.not_lt.mpr hge)⟩
      cases hf.symm.trans h.2
  | page hf hge hrest =>
      have hdata := hp.data_eq hstored hf
      subst hdata
      refine ⟨fun h => ?_, fun hlt => absurd hlt (Nat.not_lt.mpr hge), fun _ => hrest⟩
      cases hf.symm.trans h.2

/-- A page in the pool serves its tuples and leads to the next page. -/
theorem of_page (hp : Pool b held pending store) (hstored : store ⟨file, i⟩ = some p)
    (hres : b.pageTable ⟨file, i⟩ ≠ none) (htuple : ∀ s, Served b file n ⟨i, s⟩)
    (hnext : Served b file (n + 1) ⟨SlottedPage.getNextPageId p, 0⟩) :
    Served b file (n + 1) ⟨i, s⟩ := by
  obtain ⟨f, hf⟩ := Option.ne_none_iff_exists'.mp hres
  have hdata := hp.data_eq hstored hf
  subst hdata
  by_cases hlt : TableIterator.skipDeleted (b.data f) s (SlottedPage.slotCount (b.data f) - s) <
      SlottedPage.slotCount (b.data f)
  · exact .tuple hf rfl hlt (htuple _)
  · exact .page hf (Nat.not_lt.mp hlt) hnext

end Served

namespace Chain

omit [PageDisk δ] [LawfulPageDisk δ] in
theorem next_middle (hc : Chain h store (pre ++ (i, p) :: (j, p') :: post)) :
    SlottedPage.getNextPageId p = j := by
  cases hc.linked.at_middle with
  | cons _ _ hnext =>
      generalize SlottedPage.getNextPageId p = next at hnext
      cases hnext
      rfl

theorem contents_middle (pre : Pages) (i : PageId) (p : PageData) (post : Pages) :
    Pages.contents (pre ++ (i, p) :: post) =
      pre.contents ++ (i, SlottedPage.slots p) :: post.contents := by
  simp [Pages.contents]

theorem fst_ne (hc : Chain h store (pre ++ (i, p) :: post)) : ∀ x ∈ pre.contents, x.1 ≠ i := by
  have hnodup := hc.nodup_contents
  rw [contents_middle] at hnodup
  exact (PagedTable.fst_ne_of_nodup hnodup).1

theorem invalid_not_mem (hc : Chain h store l) : invalidPageId ∉ l.contents.map Prod.fst := by
  rw [Pages.map_fst_contents]
  intro hmem
  obtain ⟨x, hx, he⟩ := List.mem_map.mp hmem
  exact (hc.linked.node_eq hx).2 he

omit [PageDisk δ] [LawfulPageDisk δ] in
theorem first_eq {x : PageId × PageData} (hc : Chain h store (x :: post)) :
    h.firstPageId = x.1 := by
  have hlinked := hc.linked
  generalize h.firstPageId = first at hlinked
  cases hlinked
  rfl

/-- On one page the iterator stops at its next entry, or goes on to the next page. -/
theorem advanceToValid_page (hp : Pool b held pending store)
    (hc : Chain h store (pre ++ (i, p) :: post)) (hheld : held ⟨h.fileId, i⟩ ≠ 2147483647)
    (hserved : Served b h.fileId (n + 1) ⟨i, s⟩) (hid : it.currentId = ⟨i, s⟩)
    (hrid : it.currentTuple.recordId = .invalid) (fuel : Nat) :
    (∃ it' b', TableIterator.advanceToValid h (fuel + 1) b it = .ok (it', b') ∧
        Kept b b' held pending store ∧
        Reads (Pages.contents (pre ++ (i, p) :: post)) it'
          (PagedTable.ahead (Pages.contents (pre ++ (i, p) :: post)) i s) ∧
        Served b' h.fileId n ⟨it'.currentId.pageId, add32 it'.currentId.slotNum 1⟩) ∨
      (SlottedPage.slots p).entriesFrom s = [] ∧ ∃ b', Kept b b' held pending store ∧
        Served b' h.fileId (n + 1) ⟨SlottedPage.getNextPageId p, 0⟩ ∧
        TableIterator.advanceToValid h (fuel + 1) b it =
          TableIterator.advanceToValid h fuel b'
            { it with currentId := ⟨SlottedPage.getNextPageId p, 0⟩ } := by
  obtain ⟨hreadable, htuple, hnext⟩ := hserved.on_page hp hc.stored.1 hc.stored.2
  rcases hp.readPage hc.stored.1 hheld with ⟨he, _⟩ | ⟨g, b₁, he, hdata, hkept⟩
  · exact absurd (readPage_none hp he).2 hreadable
  rcases TableIterator.skipDeleted_cases hc.page.1 s with ⟨bytes, rest, hlt, hrows⟩ | ⟨hge, hnil⟩
  · have hbehind := (htuple hlt).kept hp hkept
    generalize hk : TableIterator.skipDeleted p s (SlottedPage.slotCount p - s) = k at *
    have hget := (SlotTable.entriesFrom_of_cons hrows).2.2.1
    have hpage : (⟨i, k⟩ : RecordId).pageId = SlottedPage.pageId p := hc.page.2.symm
    have ht := SlottedPage.tuple_live hc.page.1 hpage hget
    obtain ⟨hcons, hat⟩ : _ ∧ PagedTable.ahead (Pages.contents pre ++ (i, SlottedPage.slots p) ::
        Pages.contents post) i k = _ := PagedTable.ahead_of_cons hc.fst_ne hrows
    rw [← contents_middle] at hcons hat
    refine .inl ⟨⟨⟨i, k⟩, ⟨bytes, .invalid⟩⟩, _, ?_, hkept, ⟨hat, rfl, ?_, ?_⟩, hbehind⟩
    · simp only [TableIterator.advanceToValid, hid, hc.stored.2, if_false, he, ok_bind, hdata, hk,
        hlt, if_true, ht, Tuple.deserializeFrom, List.take_length, hrid]
      rfl
    · intro e rest' hrest
      rw [hcons] at hrest
      cases hrest
      exact ⟨rfl, rfl⟩
    · intro hnil
      rw [hcons] at hnil
      cases hnil
  · refine .inr ⟨hnil, _, hkept, (hnext hge).kept hp hkept, ?_⟩
    simp only [TableIterator.advanceToValid, hid, hc.stored.2, if_false, he, ok_bind, hdata,
      Nat.not_lt.mpr hge]

/-- From a slot of one of its pages on, the iterator finds the first entry. -/
theorem advanceToValid (hp : Pool b held pending store) (hc : Chain h store (pre ++ (i, p) :: post))
    (hheld : ∀ k, held k ≠ 2147483647) (hserved : Served b h.fileId (n + 1) ⟨i, s⟩)
    (hid : it.currentId = ⟨i, s⟩) (hrid : it.currentTuple.recordId = .invalid)
    (hfuel : post.length + 1 < fuel) :
    ∃ it' b', TableIterator.advanceToValid h fuel b it = .ok (it', b') ∧
      Kept b b' held pending store ∧
      Reads (Pages.contents (pre ++ (i, p) :: post)) it'
        (PagedTable.ahead (Pages.contents (pre ++ (i, p) :: post)) i s) ∧
      Served b' h.fileId n ⟨it'.currentId.pageId, add32 it'.currentId.slotNum 1⟩ := by
  induction post generalizing pre i p s it b fuel with
  | nil =>
      obtain ⟨fuel, rfl⟩ : ∃ m, fuel = m + 2 := ⟨fuel - 2, by rw [List.length_nil] at hfuel; omega⟩
      · rcases hc.advanceToValid_page hp (hheld _) hserved hid hrid (fuel + 1) with hdone |
          ⟨hnil, b', hkept, _, he⟩
        · exact hdone
        · refine ⟨{ it with currentId := ⟨invalidPageId, 0⟩ }, b', ?_, hkept, ?_, .finish⟩
          · rw [he, hc.next_last, TableIterator.advanceToValid, if_pos rfl]
          · have hrows : PagedTable.ahead (Pages.contents (pre ++ [(i, p)])) i s = [] := by
              rw [contents_middle, PagedTable.ahead_middle hc.fst_ne, PagedTable.pageEntries, hnil]
              rfl
            rw [hrows]
            refine ⟨PagedTable.ahead_of_not_mem hc.invalid_not_mem 0, hrid, ?_, fun _ => rfl⟩
            intro e rest hrest
            cases hrest
  | cons x post ih =>
      obtain ⟨j, p'⟩ := x
      cases fuel with
      | zero => exact absurd hfuel (Nat.not_lt_zero _)
      | succ m =>
        have hm : post.length + 1 < m := by
          rw [List.length_cons] at hfuel
          omega
        rcases hc.advanceToValid_page hp (hheld _) hserved hid hrid m with hdone |
          ⟨hnil, b₁, h₁, hserved₁, he⟩
        · exact hdone
        · have hsplit : pre ++ (i, p) :: (j, p') :: post = (pre ++ [(i, p)]) ++ (j, p') :: post := by
            simp
          have hahead : PagedTable.ahead (Pages.contents (pre ++ (i, p) :: (j, p') :: post)) i s =
              PagedTable.ahead (Pages.contents (pre ++ (i, p) :: (j, p') :: post)) j 0 := by
            have hnodup := hc.nodup_contents
            rw [contents_middle] at hnodup ⊢
            exact PagedTable.ahead_next hnodup hnil
          rw [hc.next_middle] at hserved₁
          rw [he, hc.next_middle, hahead]
          rw [hsplit] at hc ⊢
          have hid' : ({ it with currentId := ⟨j, 0⟩ } : TableIterator).currentId = ⟨j, 0⟩ := rfl
          obtain ⟨it', b', hrun, hkept, hreads⟩ := ih h₁.pool hc hserved₁ hid' hrid hm
          exact ⟨it', b', hrun, h₁.trans hkept, hreads⟩

theorem page_of_entry (he : e ∈ PagedTable.entries l.contents) :
    ∃ pre p post, l = pre ++ (e.1.1, p) :: post ∧ (SlottedPage.slots p).get e.1.2 = some e.2 := by
  obtain ⟨t, ht, hget⟩ := PagedTable.mem_entries.mp he
  obtain ⟨⟨i, p⟩, hx, hxe⟩ := List.mem_map.mp ht
  cases hxe
  obtain ⟨pre, post, rfl⟩ := List.append_of_mem hx
  exact ⟨pre, p, post, rfl, hget⟩

theorem rid_ne_finish (hc : Chain h store l) (he : e ∈ PagedTable.entries l.contents) :
    e.rid ≠ TableHeap.finish := by
  intro hfin
  obtain ⟨t, ht, _⟩ := PagedTable.mem_entries.mp he
  have hpage : e.1.1 = invalidPageId := congrArg RecordId.pageId hfin
  exact hc.invalid_not_mem (List.mem_map.mpr ⟨_, ht, hpage⟩)

theorem increment (hp : Pool b held pending store) (hc : Chain h store l)
    (hheld : ∀ k, held k ≠ 2147483647)
    (hserved : Served b h.fileId (n + 1) ⟨it.currentId.pageId, add32 it.currentId.slotNum 1⟩)
    (hr : Reads l.contents it (e :: rows)) (hfuel : l.length < fuel) :
    ∃ it' b', it.increment fuel h b = .ok (it', b') ∧ Kept b b' held pending store ∧
      Reads l.contents it' rows ∧
      Served b' h.fileId n ⟨it'.currentId.pageId, add32 it'.currentId.slotNum 1⟩ := by
  obtain ⟨hid, _⟩ := hr.current e rows rfl
  have hahead := hr.ahead
  rw [hid] at hahead
  obtain ⟨pre, p, post, rfl, hget⟩ := page_of_entry hr.mem_entries
  have hlt := SlotTable.lt_length_of_get hget
  rw [SlottedPage.length_slots] at hlt
  have hadd : add32 e.1.2 1 = e.1.2 + 1 := by
    have := hc.page.1.slotCount_le
    exact Nat.mod_eq_of_lt (by rw [SlottedPage.word32_eq]; omega)
  have hrows : rows = PagedTable.ahead (Pages.contents (pre ++ (e.1.1, p) :: post)) e.1.1
      (e.1.2 + 1) := by
    have hget' : PagedTable.ahead (Pages.contents pre ++ (e.1.1, SlottedPage.slots p) ::
        Pages.contents post) e.1.1 e.1.2 = _ := PagedTable.ahead_of_get hc.fst_ne hget
    rw [← contents_middle] at hget'
    exact (List.cons.inj (hahead.symm.trans hget')).2
  rw [hid, Entry.rid, hadd] at hserved
  rw [hrows]
  refine hc.advanceToValid hp hheld hserved ?_ hr.recordId ?_
  · simp only [hid, Entry.rid, hadd]
  · simp only [List.length_append, List.length_cons] at hfuel
    omega

theorem start (hp : Pool b held pending store) (hc : Chain h store l)
    (hheld : ∀ k, held k ≠ 2147483647) (hserved : Served b h.fileId (n + 1) ⟨h.firstPageId, 0⟩)
    (hfuel : l.length < fuel) :
    ∃ it b', h.start fuel b = .ok (it, b') ∧ Kept b b' held pending store ∧
      Reads l.contents it (PagedTable.entries l.contents) ∧
      Served b' h.fileId n ⟨it.currentId.pageId, add32 it.currentId.slotNum 1⟩ := by
  cases l with
  | nil => cases hc.last
  | cons x post =>
      obtain ⟨i, p⟩ := x
      have hfirst : h.firstPageId = i := hc.first_eq
      have hcons : Pages.contents ((i, p) :: post) =
          (i, SlottedPage.slots p) :: Pages.contents post := rfl
      have hid : (TableIterator.mk ⟨i, 0⟩ .empty).currentId = ⟨i, 0⟩ := rfl
      rw [hfirst] at hserved
      obtain ⟨it, b', hrun, hkept, hreads, hbehind⟩ :=
        (show Chain h store ([] ++ (i, p) :: post) from hc).advanceToValid hp hheld hserved hid rfl
          hfuel
      rw [List.nil_append, hcons, PagedTable.ahead_cons, ← hcons] at hreads
      refine ⟨it, b', ?_, hkept, hreads, hbehind⟩
      have hvalid : i ≠ invalidPageId := (hc.linked.node_eq List.mem_cons_self).2
      rw [TableHeap.start, TableIterator.make, hfirst, if_pos hvalid]
      exact hrun

theorem visit (hp : Pool b held pending store) (hc : Chain h store l)
    (hheld : ∀ k, held k ≠ 2147483647)
    (hserved : Served b h.fileId rows.length ⟨it.currentId.pageId, add32 it.currentId.slotNum 1⟩)
    (hr : Reads l.contents it rows) (hfuel : l.length < fuel) {steps : Nat}
    (hsteps : rows.length < steps) :
    ∃ b', h.visit fuel steps b it = .ok (rows.map Entry.row, b') ∧
      Kept b b' held pending store := by
  induction rows generalizing b it steps with
  | nil =>
      cases steps with
      | zero => exact absurd hsteps (Nat.not_lt_zero _)
      | succ steps =>
        refine ⟨b, ?_, hp, .refl _ _, rfl⟩
        rw [TableHeap.visit, if_pos (hr.finished rfl)]
        rfl
  | cons e rows ih =>
      cases steps with
      | zero => exact absurd hsteps (Nat.not_lt_zero _)
      | succ steps =>
        obtain ⟨hid, htuple⟩ := hr.current e rows rfl
        obtain ⟨it', b₁, hrun, h₁, hr', hbehind⟩ := hc.increment hp hheld hserved hr hfuel
        obtain ⟨b', hvisit, hkept⟩ := ih h₁.pool hbehind hr' (Nat.lt_of_succ_lt_succ hsteps)
        refine ⟨b', ?_, h₁.trans hkept⟩
        have hne : e.rid ≠ TableHeap.finish := hc.rid_ne_finish hr.mem_entries
        rw [TableHeap.visit, hid, htuple, if_neg hne, hrun, ok_bind]
        simp only [hvisit, ok_bind]
        rfl

theorem scan (hp : Pool b held pending store) (hc : Chain h store l)
    (hheld : ∀ k, held k ≠ 2147483647)
    (hserved : Served b h.fileId ((PagedTable.entries l.contents).length + 1) ⟨h.firstPageId, 0⟩)
    (hfuel : l.length < fuel) (hrows : (PagedTable.entries l.contents).length < fuel) :
    ∃ b', h.scan fuel b = .ok ((PagedTable.entries l.contents).map Entry.row, b') ∧
      Kept b b' held pending store := by
  obtain ⟨it, b₁, hrun, h₁, hr, hbehind⟩ := hc.start hp hheld hserved hfuel
  obtain ⟨b', hvisit, hkept⟩ := hc.visit h₁.pool hheld hbehind hr hfuel hrows
  refine ⟨b', ?_, h₁.trans hkept⟩
  rw [TableHeap.scan, hrun, ok_bind]
  exact hvisit

/-- From a page of a chain in the pool on, everything can be had. -/
theorem served (hp : Pool b held pending store) (hc : Chain h store (pre ++ (i, p) :: post))
    (hres : ∀ x ∈ (i, p) :: post, b.pageTable ⟨h.fileId, x.1⟩ ≠ none) (n s : Nat) :
    Served b h.fileId n ⟨i, s⟩ := by
  induction n generalizing pre i p post s with
  | zero => exact .enough
  | succ n ih =>
      induction post generalizing pre i p s with
      | nil =>
          refine .of_page hp hc.stored.1 (hres _ List.mem_cons_self) (fun s => ih hc hres s) ?_
          rw [hc.next_last]
          exact .finish
      | cons x post ihpost =>
          obtain ⟨j, p'⟩ := x
          refine .of_page hp hc.stored.1 (hres _ List.mem_cons_self) (fun s => ih hc hres s) ?_
          rw [hc.next_middle]
          rw [List.append_cons] at hc
          exact ihpost hc (fun x hx => hres x (List.mem_cons_of_mem _ hx)) 0

/-! ## Pages that cannot be read -/

theorem invalid_ne (hc : Chain h store l) (hi : i ∈ l.map Prod.fst) : i ≠ invalidPageId := by
  rintro rfl
  rw [← Pages.map_fst_contents] at hi
  exact hc.invalid_not_mem hi

omit [PageDisk δ] [LawfulPageDisk δ] in
/-- Behind a page in front of `j` comes another one, or `j`. -/
theorem next_mem (hc : Chain h store (pre ++ (j, p) :: post)) {q : PageData} (hq : (i, q) ∈ pre) :
    SlottedPage.getNextPageId q ∈ (pre ++ [(j, p)]).map Prod.fst := by
  obtain ⟨pre₁, pre₂, rfl⟩ := List.append_of_mem hq
  rw [List.append_assoc, List.cons_append] at hc
  cases pre₂ with
  | nil =>
      rw [hc.next_middle]
      simp
  | cons x pre₂ =>
      rw [List.cons_append] at hc
      rw [hc.next_middle]
      simp

/-- The iterator does not get past a page that cannot be read. -/
theorem advanceToValid_blocked (hp : Pool b held pending store)
    (hc : Chain h store (pre ++ (j, p) :: post)) (hheld : ∀ k, held k ≠ 2147483647)
    (hfull : Full b) (hnone : b.pageTable ⟨h.fileId, j⟩ = none)
    (hit : it.currentId.pageId ∈ (pre ++ [(j, p)]).map Prod.fst) {it' : TableIterator}
    (he : TableIterator.advanceToValid h fuel b it = .ok (it', b')) :
    it'.currentId.pageId ∈ (pre ++ [(j, p)]).map Prod.fst ∧ Kept b b' held pending store := by
  induction fuel generalizing b it with
  | zero => cases he
  | succ fuel ih =>
      obtain ⟨⟨i, q⟩, hx, hi⟩ := List.mem_map.mp hit
      dsimp only at hi
      have hmem : (i, q) ∈ pre ++ (j, p) :: post := by
        rw [List.append_cons]
        exact List.mem_append_left _ hx
      obtain ⟨hstored, hvalid⟩ := hc.linked.node_eq hmem
      rw [TableIterator.advanceToValid, ← hi, if_neg hvalid] at he
      rcases hp.readPage (k := ⟨h.fileId, i⟩) hstored (hheld _) with ⟨hr, _⟩ | ⟨g, b₁, hr, hdata, h₁⟩
      · rw [hr] at he
        cases he
        exact ⟨hit, hp, .refl _ _, rfl⟩
      · have hpre : (i, q) ∈ pre := by
          rcases List.mem_append.mp hx with hx | hx
          · exact hx
          · cases List.mem_singleton.mp hx
            have hblocked := (hp.backs.structural.fetchPage_none_iff h.fileId _).mpr
              ⟨rfl, hnone, hfull⟩
            cases hblocked.symm.trans hr
        rw [hr, ok_bind] at he
        simp only [hdata] at he
        split at he
        · cases ht : SlottedPage.tuple q ⟨i, TableIterator.skipDeleted q it.currentId.slotNum
              (SlottedPage.slotCount q - it.currentId.slotNum)⟩ with
          | error fault =>
              rw [ht] at he
              cases he
          | ok bytes =>
              rw [ht] at he
              cases he
              exact ⟨List.mem_map.mpr ⟨_, hx, rfl⟩, h₁⟩
        · obtain ⟨hfull₁, hnone₁⟩ := hp.blocked_kept h₁ hfull hnone
          obtain ⟨hit', hkept⟩ := ih h₁.pool hfull₁ hnone₁ (hc.next_mem hpre) he
          exact ⟨hit', h₁.trans hkept⟩

theorem increment_blocked (hp : Pool b held pending store)
    (hc : Chain h store (pre ++ (j, p) :: post)) (hheld : ∀ k, held k ≠ 2147483647)
    (hfull : Full b) (hnone : b.pageTable ⟨h.fileId, j⟩ = none)
    (hit : it.currentId.pageId ∈ (pre ++ [(j, p)]).map Prod.fst) {it' : TableIterator}
    (he : it.increment fuel h b = .ok (it', b')) :
    it'.currentId.pageId ∈ (pre ++ [(j, p)]).map Prod.fst ∧ Kept b b' held pending store := by
  have hrun : TableIterator.advanceToValid h fuel b { it with
    currentId := { it.currentId with slotNum := add32 it.currentId.slotNum 1 } } =
      .ok (it', b') := he
  exact hc.advanceToValid_blocked hp hheld hfull hnone (by exact hit) hrun

omit [PageDisk δ] [LawfulPageDisk δ] in
theorem ne_finish (hc : Chain h store (pre ++ (j, p) :: post))
    (hit : it.currentId.pageId ∈ (pre ++ [(j, p)]).map Prod.fst) :
    it.currentId ≠ TableHeap.finish := by
  intro hfin
  refine hc.invalid_ne (i := it.currentId.pageId) ?_ (congrArg RecordId.pageId hfin)
  rw [List.append_cons, List.map_append]
  exact List.mem_append_left _ hit

theorem start_blocked (hp : Pool b held pending store)
    (hc : Chain h store (pre ++ (j, p) :: post)) (hheld : ∀ k, held k ≠ 2147483647)
    (hfull : Full b) (hnone : b.pageTable ⟨h.fileId, j⟩ = none)
    (he : h.start fuel b = .ok (it, b')) :
    it.currentId.pageId ∈ (pre ++ [(j, p)]).map Prod.fst ∧ Kept b b' held pending store := by
  have hfirst : h.firstPageId ∈ (pre ++ [(j, p)]).map Prod.fst := by
    cases pre with
    | nil =>
        rw [List.nil_append] at hc
        rw [hc.first_eq]
        simp
    | cons x pre =>
        rw [List.cons_append] at hc
        rw [hc.first_eq]
        simp
  have hvalid : h.firstPageId ≠ invalidPageId := by
    refine hc.invalid_ne ?_
    rw [List.append_cons, List.map_append]
    exact List.mem_append_left _ hfirst
  rw [TableHeap.start, TableIterator.make, if_pos hvalid] at he
  exact hc.advanceToValid_blocked hp hheld hfull hnone (by exact hfirst) he

theorem visit_blocked (hp : Pool b held pending store)
    (hc : Chain h store (pre ++ (j, p) :: post)) (hheld : ∀ k, held k ≠ 2147483647)
    (hfull : Full b) (hnone : b.pageTable ⟨h.fileId, j⟩ = none)
    (hit : it.currentId.pageId ∈ (pre ++ [(j, p)]).map Prod.fst) (steps : Nat)
    (r : List (RecordId × Tuple) × BufferPoolManager δ) : h.visit fuel steps b it ≠ .ok r := by
  intro he
  induction steps generalizing b it r with
  | zero => cases he
  | succ steps ih =>
      rw [TableHeap.visit, if_neg (hc.ne_finish hit)] at he
      cases hr : it.increment fuel h b with
      | error fault =>
          rw [hr] at he
          cases he
      | ok next =>
          obtain ⟨it', b₁⟩ := next
          obtain ⟨hit', h₁⟩ := hc.increment_blocked hp hheld hfull hnone hit hr
          obtain ⟨hfull₁, hnone₁⟩ := hp.blocked_kept h₁ hfull hnone
          rw [hr, ok_bind] at he
          cases hv : h.visit fuel steps b₁ it' with
          | error fault =>
              simp only [hv] at he
              cases he
          | ok r' => exact ih h₁.pool hfull₁ hnone₁ hit' r' hv

end Chain

end TurtleDb.Table
