import TurtleDb.Table.HeapRuns

/-!
# Runs that can be made

With two frames to spare, and ids and bytes for another page, a run goes on as the table says. The
lemmas build runs to heaps with given entries.
-/

namespace TurtleDb.Table

open TurtleDb.Lib TurtleDb.Buffer TurtleDb.Buffer.BufferPoolManager TurtleDb.Page LawfulPageDisk

namespace HeapState

variable {δ : Type} [PageDisk δ] [LawfulPageDisk δ]

/-- The heap holds what is in the table. -/
def mapOf (c : PagedTable PageId (List UInt8)) (rid : RecordId) : Option (List UInt8) :=
  PagedTable.get c rid.pageId rid.slotNum

/-- A run in which the map always meets `P` has led to a heap with the table `c`. The pool is small,
two frames can be had, and the next page gets the id `n`. -/
structure LedTo (file : FileId) (P : (RecordId → Option (List UInt8)) → Prop) (s : HeapState δ)
    (c : PagedTable PageId (List UInt8)) (n : PageId) : Prop where
  within : Within file (fun s => P s.map) s
  holds : ∃ store l, Holds file s store l ∧ l.contents = c
  next : s.pool.nextPageId = n
  two : TwoObtainable s.pool s.held
  small : s.pool.frameCount ≤ frameLimit

/-- The pool has no other pages. -/
abbrev Led (file : FileId) (P : (RecordId → Option (List UInt8)) → Prop) (s : HeapState δ)
    (c : PagedTable PageId (List UInt8)) : Prop := LedTo file P s c c.length

variable {file : FileId} {P : (RecordId → Option (List UInt8)) → Prop} {s : HeapState δ}
  {c pre : PagedTable PageId (List UInt8)} {i : PageId} {t : SlotTable (List UInt8)}
  {bytes : List UInt8} {rid : RecordId} {n : PageId}

/-! ## The last page -/

theorem exists_last_of_contents {l : Pages} (h : l.contents = pre ++ [(i, t)]) :
    ∃ pre' p, l = pre' ++ [(i, p)] ∧ SlottedPage.slots p = t := by
  obtain ⟨pre', last, rfl, _, hlast⟩ := List.map_eq_append_iff.mp h
  obtain ⟨⟨j, p⟩, rest, rfl, hx, hrest⟩ := List.map_eq_cons_iff.mp hlast
  obtain rfl := List.map_eq_nil_iff.mp hrest
  cases hx
  exact ⟨pre', p, rfl, rfl⟩

theorem lastFits_iff {l : Pages} (h : l.contents = pre ++ [(i, t)]) {size : Nat} :
    LastFits l size ↔ SlottedPage.Fits t size := by
  obtain ⟨pre', p, rfl, rfl⟩ := exists_last_of_contents h
  exact lastFits_concat

theorem tupleCount_eq_zero_iff {p : PageData} (hp : SlottedPage.RepInv p) :
    SlottedPage.tupleCount p = 0 ↔ ∀ k, (SlottedPage.slots p).get k = none := by
  rw [hp.tuple_count, SlottedPage.liveCount, Finset.sum_eq_zero_iff]
  constructor
  · intro h k
    rw [SlottedPage.get_slots, SlottedPage.slotBytes_eq_none_iff]
    rintro ⟨hk, hlen⟩
    have hzero := h k (Finset.mem_range.mpr hk)
    rw [if_pos hlen] at hzero
    cases hzero
  · intro h k hk
    have hnone := h k
    rw [SlottedPage.get_slots, SlottedPage.slotBytes_eq_none_iff] at hnone
    rw [if_neg fun hlen => hnone ⟨Finset.mem_range.mp hk, hlen⟩]

theorem lastEmpty_iff {store : PageKey → Option PageData} {h : TableHeap} {l : Pages}
    (hc : Chain h store l) (hl : l.contents = pre ++ [(i, t)]) :
    LastEmpty l ↔ ∀ k, t.get k = none := by
  obtain ⟨pre', p, rfl, rfl⟩ := exists_last_of_contents hl
  rw [← tupleCount_eq_zero_iff hc.page.1]
  exact lastEmpty_concat

/-! ## The runs -/

theorem Within.mem_issued {Q : HeapState δ → Prop} (hr : Within file Q s)
    (hlive : s.map rid ≠ none) : rid ∈ s.issued := by
  induction hr with
  | create _ _ _ _ _ => exact absurd rfl hlive
  | step _ hstep _ ih =>
      cases hstep with
      | others _ => exact ih hlive
      | getTuple _ _ => exact ih hlive
      | @insertTuple tuple r b h _ _ _ _ =>
          rcases r with _ | rid'
          · exact ih hlive
          · by_cases he : rid = rid'
            · exact he ▸ List.mem_cons_self
            · exact List.mem_cons_of_mem _ (ih ((Function.update_of_ne he _ _).symm.trans_ne hlive))
      | @markDelete rid' r b h _ _ =>
          rcases r with _ | _ | _
          · exact ih hlive
          · exact ih hlive
          · by_cases he : rid = rid'
            · subst he
              exact absurd (Function.update_self _ _ _) hlive
            · exact ih ((Function.update_of_ne he _ _).symm.trans_ne hlive)

/-- An insert succeeds if the tuple fits, or else the last page has a tuple. -/
theorem Holds.insert_last {store : PageKey → Option PageData} {l : Pages}
    (hs : Holds file s store l) (hl : l.contents = pre ++ [(i, t)]) (bytes : List UInt8)
    (hpos : 0 < bytes.length) (hmax : bytes.length ≤ 4064) (htwo : TwoObtainable s.pool s.held)
    (hroom : ¬ SlottedPage.Fits t bytes.length → s.pool.HasRoom)
    (hok : SlottedPage.Fits t bytes.length ∨ ∃ k, t.get k ≠ none) :
    ∃ rid b h' store' l', s.heap.insertTuple s.pool ⟨bytes, .invalid⟩ = .ok (some rid, b, h') ∧
      Step file s (s.inserted file ⟨bytes, .invalid⟩ (some rid) b h') ∧ Steady s.pool b s.held ∧
      Holds file (s.inserted file ⟨bytes, .invalid⟩ (some rid) b h') store' l' ∧
      if SlottedPage.Fits t bytes.length then
        rid.pageId = i ∧ l'.contents = pre ++ [(i, t.insert bytes)] ∧
          b.nextPageId = s.pool.nextPageId
      else rid.pageId = s.pool.nextPageId ∧
        l'.contents = pre ++ [(i, t), (s.pool.nextPageId, [some bytes])] ∧
          b.nextPageId = s.pool.nextPageId + 1 := by
  have hle : bytes.length ≤ SlottedPage.maxInsertSize := Nat.le_trans hmax (by decide)
  have hcan : s.heap.FitsLast s.pool (⟨bytes, .invalid⟩ : Tuple).data.length ∨ s.pool.HasRoom := by
    by_cases hfits : SlottedPage.Fits t bytes.length
    · exact .inl ((hs.stored.fitsLast_iff hle).mpr ((lastFits_iff hl).mpr hfits))
    · exact .inr (hroom hfits)
  rcases hs.insertTuple ⟨bytes, .invalid⟩ hpos hle hcan with
    ⟨_, hno, hwhy⟩ | ⟨b, _, hno, _⟩ | ⟨rid, b, h', store', l', he, hst, hs', hadds, hcase⟩
  · rw [lastFits_iff hl] at hno
    obtain ⟨k, hk⟩ := hok.resolve_left hno
    have hempty := hwhy.resolve_right (Nat.not_lt.mpr hmax)
    exact absurd ((lastEmpty_iff hs.chain hl).mp hempty k) hk
  · exact absurd htwo hno
  · refine ⟨rid, b, h', store', l', he, .insertTuple hpos hle hcan he, hst, hs', ?_⟩
    rw [hl] at hadds
    have hfresh := hs.fresh_not_mem
    rw [← Pages.map_fst_contents, hl] at hfresh
    rw [lastFits_iff hl, ← Pages.map_fst_contents, hl] at hcase
    rcases hcase with ⟨hfits, hmem, hnext⟩ | ⟨⟨hno, _⟩, hrid, hnext⟩
    · obtain ⟨hpage, hl'⟩ := hadds.of_mem hmem
      rw [if_pos hfits]
      exact ⟨(Prod.mk.inj hpage).1, hl', hnext⟩
    · obtain ⟨_, hgrown⟩ := hadds.of_not_mem (by dsimp only; rw [hrid]; exact hfresh)
      rw [if_neg hno, hgrown, hrid, List.append_assoc]
      exact ⟨rfl, rfl, hnext⟩

namespace LedTo

/-- A heap is made in a pool whose pages have the ids before `n`. -/
theorem create {s : Shared δ} (hs : Shared.Reachable file s) (hopen : opened s.pool.diskManager file)
    (htwo : TwoObtainable s.pool s.held) (hsmall : s.pool.frameCount ≤ frameLimit)
    (hids : s.pool.nextPageId < invalidPageId) (hP : P fun _ => none) :
    ∃ t : HeapState δ, LedTo file P t [(s.pool.nextPageId, [])] (s.pool.nextPageId + 1) ∧
      t.held = s.held := by
  obtain ⟨store, hshared, hnone⟩ := hs.sharing
  have hroom : s.pool.HasRoom := ⟨hids, .inl hsmall⟩
  rcases Holds.create hshared hnone hopen hroom with ⟨m, _, hall⟩ |
    ⟨h, b, store', p, he, hst, hholds, hslots, hnext⟩
  · obtain ⟨f, _, hf, _⟩ := htwo
    exact absurd hf hall.not_obtainable
  · refine ⟨_, ⟨.create hs hopen hroom he hP, ⟨_, _, hholds, ?_⟩, hnext, ?_, ?_⟩, rfl⟩
    · show [(s.pool.nextPageId, SlottedPage.slots p)] = _
      rw [hslots]
    · obtain ⟨f, g, hf, hg, hne⟩ := htwo
      exact ⟨f, g, hshared.pool.obtainable_steady hst hf, hshared.pool.obtainable_steady hst hg,
        hne⟩
    · rw [show (created s file h b).pool.frameCount = _ from hst.frameCount]
      exact hsmall

theorem reachable (h : LedTo file (fun _ => True) s c n) : Reachable file s := h.within

theorem map (h : LedTo file P s c n) : s.map = mapOf c := by
  obtain ⟨store, l, hs, rfl⟩ := h.holds
  exact funext hs.map

theorem hasRoom (h : LedTo file P s c n) (hids : n < invalidPageId) : s.pool.HasRoom :=
  ⟨by rw [h.next]; exact hids, .inl h.small⟩

theorem insert (pre : PagedTable PageId (List UInt8)) {i : PageId} {t : SlotTable (List UInt8)}
    (bytes : List UInt8) (h : LedTo file P s (pre ++ [(i, t)]) n) (hpos : 0 < bytes.length)
    (hfits : SlottedPage.Fits t bytes.length) (hP : P (mapOf (pre ++ [(i, t.insert bytes)]))) :
    ∃ s' : HeapState δ, s'.held = s.held ∧ LedTo file P s' (pre ++ [(i, t.insert bytes)]) n := by
  have hmax : bytes.length ≤ 4064 := by
    have hslots : slotSize ≤ slotSize * max t.length (SlotTable.free t + 1) :=
      Nat.le_mul_of_pos_right _ (by omega)
    unfold SlottedPage.Fits at hfits
    rw [SlottedPage.slotSize_eq] at hslots
    rw [SlottedPage.headerSize_eq, SlottedPage.slotSize_eq, SlottedPage.pageSize_eq] at hfits
    omega
  obtain ⟨store, l, hs, hl⟩ := h.holds
  obtain ⟨rid, b, h', store', l', _, hstep, hst, hs', hcase⟩ := hs.insert_last hl bytes hpos hmax
    h.two (fun hno => absurd hfits hno) (.inl hfits)
  rw [if_pos hfits] at hcase
  obtain ⟨_, hl', hnext⟩ := hcase
  have hmap : (s.inserted file ⟨bytes, .invalid⟩ (some rid) b h').map =
      mapOf (pre ++ [(i, t.insert bytes)]) := by
    rw [← hl']
    exact funext hs'.map
  have hcount : (s.inserted file ⟨bytes, .invalid⟩ (some rid) b h').pool.frameCount =
      s.pool.frameCount := hst.frameCount
  exact ⟨s.inserted file ⟨bytes, .invalid⟩ (some rid) b h', rfl, .step h.within hstep (hmap ▸ hP),
    ⟨_, _, hs', hl'⟩, hnext.trans h.next, hs.stored.twoObtainable hst h.two, hcount ▸ h.small⟩

/-- A tuple that does not fit goes to a new page, if the last page has a tuple. -/
theorem grow (pre : PagedTable PageId (List UInt8)) {i : PageId} {t : SlotTable (List UInt8)}
    (bytes : List UInt8) (h : LedTo file P s (pre ++ [(i, t)]) n) (hpos : 0 < bytes.length)
    (hmax : bytes.length ≤ 4064) (hids : n < invalidPageId)
    (hno : ¬ SlottedPage.Fits t bytes.length) (hok : ∃ k, t.get k ≠ none)
    (hP : P (mapOf (pre ++ [(i, t), (n, [some bytes])]))) :
    ∃ s' : HeapState δ, s'.held = s.held ∧
      LedTo file P s' (pre ++ [(i, t), (n, [some bytes])]) (n + 1) := by
  obtain ⟨store, l, hs, hl⟩ := h.holds
  obtain ⟨rid, b, h', store', l', _, hstep, hst, hs', hcase⟩ := hs.insert_last hl bytes hpos hmax
    h.two (fun _ => h.hasRoom hids) (.inr hok)
  rw [if_neg hno, h.next] at hcase
  obtain ⟨_, hl', hnext⟩ := hcase
  have hmap : (s.inserted file ⟨bytes, .invalid⟩ (some rid) b h').map =
      mapOf (pre ++ [(i, t), (n, [some bytes])]) := by
    rw [← hl']
    exact funext hs'.map
  have hcount : (s.inserted file ⟨bytes, .invalid⟩ (some rid) b h').pool.frameCount =
      s.pool.frameCount := hst.frameCount
  exact ⟨s.inserted file ⟨bytes, .invalid⟩ (some rid) b h', rfl, .step h.within hstep (hmap ▸ hP),
    ⟨_, _, hs', hl'⟩, hnext, hs.stored.twoObtainable hst h.two, hcount ▸ h.small⟩

theorem terminates (pre : PagedTable PageId (List UInt8)) {i : PageId}
    {t : SlotTable (List UInt8)} (h : LedTo file P s (pre ++ [(i, t)]) n) (hpos : 0 < bytes.length)
    (hmax : bytes.length ≤ 4064) (hids : n < invalidPageId)
    (hno : ¬ SlottedPage.Fits t bytes.length) (hempty : ∀ k, t.get k = none) :
    ∃ m, s.heap.insertTuple s.pool ⟨bytes, .invalid⟩ = .error (.terminated m) := by
  obtain ⟨store, l, hs, hl⟩ := h.holds
  have hle : bytes.length ≤ SlottedPage.maxInsertSize := Nat.le_trans hmax (by decide)
  have hlast := (lastEmpty_iff hs.chain hl).mpr hempty
  rw [← lastFits_iff hl] at hno
  rcases hs.insertTuple ⟨bytes, .invalid⟩ hpos hle (.inr (h.hasRoom hids)) with
    ⟨hterm, _⟩ | ⟨b, _, htwo, _⟩ | ⟨rid, b, hp, store', l', _, _, _, _, hcase⟩
  · exact hterm
  · exact absurd h.two htwo
  · rcases hcase with ⟨hfits, _⟩ | ⟨⟨_, hsome⟩, _⟩
    · exact absurd hfits hno
    · exact absurd hlast hsome

theorem delete (h : LedTo file P s c n) (rid : RecordId) (c' : PagedTable PageId (List UInt8))
    (hplace : PagedTable.Place c (rid.pageId, rid.slotNum))
    (hc' : PagedTable.erase c (rid.pageId, rid.slotNum) = c') (hP : P (mapOf c')) :
    ∃ s' : HeapState δ, s'.held = s.held ∧ s'.issued = s.issued ∧ LedTo file P s' c' n := by
  obtain ⟨store, l, hs, hl⟩ := h.holds
  have hrid : ⟨file, rid.pageId⟩ ∈ s.handed := by
    obtain ⟨t, ht, _⟩ := hplace
    rw [← hs.sharing.handed, ← hs.fileId]
    rw [← hl] at ht
    obtain ⟨⟨j, p⟩, hx, hxe⟩ := List.mem_map.mp ht
    cases hxe
    rw [(hs.chain.linked.node_eq hx).1]
    simp
  rw [← hl] at hplace hc'
  rcases hs.markDelete hrid with ⟨_, hall⟩ | ⟨b, hp, store', l', he, hst, hs', hl', _, hnext⟩ |
    ⟨m, b, _, _, hno⟩
  · obtain ⟨f, _, hf, _⟩ := h.two
    exact absurd hf hall.not_obtainable
  · rw [hc'] at hl'
    have hmap : (s.deleted rid (.ok true) b hp).map = mapOf c' := by
      rw [← hl']
      exact funext hs'.map
    refine ⟨s.deleted rid (.ok true) b hp, rfl, rfl, .step h.within (.markDelete hrid he) ?_,
      ⟨_, _, hs', hl'⟩, hnext.trans h.next, hs.stored.twoObtainable hst h.two, ?_⟩
    · rw [hmap]
      exact hP
    · rw [show (s.deleted rid (.ok true) b hp).pool.frameCount = _ from hst.frameCount]
      exact h.small
  · exact absurd hplace hno

end LedTo

namespace Led

theorem create (poolSize : Nat) (d : δ) (hopen : opened d file) (htwo : 2 ≤ trunc32 poolSize)
    (hsmall : trunc32 poolSize ≤ frameLimit) (hP : P fun _ => none) :
    ∃ s : HeapState δ, Led file P s [(0, [])] := by
  have hobtain : ∀ f < 2, Obtainable (BufferPoolManager.create poolSize d) (fun _ => 0) f :=
    fun f hf => ⟨Nat.lt_of_lt_of_le hf htwo, fun _ _ => rfl⟩
  obtain ⟨s, hs, _⟩ := LedTo.create (.create poolSize d) hopen
    ⟨0, 1, hobtain 0 (by decide), hobtain 1 (by decide), by decide⟩ hsmall (by decide : 0 < _) hP
  exact ⟨s, hs⟩

theorem insert (pre : PagedTable PageId (List UInt8)) {i : PageId} {t : SlotTable (List UInt8)}
    (bytes : List UInt8) (c' : PagedTable PageId (List UInt8))
    (h : Led file P s (pre ++ [(i, t)])) (hpos : 0 < bytes.length)
    (hmax : bytes.length ≤ 4064)
    (hids : ¬ SlottedPage.Fits t bytes.length → (pre ++ [(i, t)]).length < invalidPageId)
    (hok : SlottedPage.Fits t bytes.length ∨ ∃ k, t.get k ≠ none)
    (hc' : c' = if SlottedPage.Fits t bytes.length then pre ++ [(i, t.insert bytes)]
      else pre ++ [(i, t), ((pre ++ [(i, t)]).length, [some bytes])])
    (hP : P (mapOf c')) : ∃ s' : HeapState δ, Led file P s' c' := by
  subst hc'
  by_cases hfits : SlottedPage.Fits t bytes.length
  · rw [if_pos hfits] at hP ⊢
    obtain ⟨s', _, hs'⟩ := LedTo.insert pre bytes h hpos hfits hP
    exact ⟨s', by simpa [Led] using hs'⟩
  · rw [if_neg hfits] at hP ⊢
    obtain ⟨s', _, hs'⟩ := LedTo.grow pre bytes h hpos hmax (hids hfits) hfits
      (hok.resolve_left hfits) hP
    exact ⟨s', by simpa [Led] using hs'⟩

theorem delete (h : Led file P s c) (rid : RecordId) (c' : PagedTable PageId (List UInt8))
    (hplace : PagedTable.Place c (rid.pageId, rid.slotNum))
    (hc' : PagedTable.erase c (rid.pageId, rid.slotNum) = c') (hP : P (mapOf c')) :
    ∃ s' : HeapState δ, Led file P s' c' := by
  obtain ⟨s', _, _, hs'⟩ := LedTo.delete h rid c' hplace hc' hP
  have hlength : c'.length = c.length := by rw [← hc', PagedTable.erase, List.length_map]
  exact ⟨s', by rw [Led, hlength]; exact hs'⟩

end Led

/-! ## Live and deleted tuples -/

/-- Two pages with a deleted tuple each. The long one was too long for the first page. -/
def used (i : PageId) (long : List UInt8) : PagedTable PageId (List UInt8) :=
  [(i, [none, some [2], some [3]]), (i + 1, [some long, none, some [5]])]

theorem used_eq_append (i : PageId) (long : List UInt8) :
    used i long = [(i, [none, some [2], some [3]])] ++ [(i + 1, [some long, none, some [5]])] :=
  rfl

/-- Seven bytes are left in the last page. -/
theorem fits_used {long : List UInt8} (hlen : long.length = 4040) {size : Nat} :
    SlottedPage.Fits [some long, none, some [5]] size ↔ size ≤ 7 := by
  have hused : SlottedPage.bytesUsed [some long, none, some [5]] = long.length + 1 := by
    simp [SlottedPage.bytesUsed, SlotTable.get, Finset.sum_range_succ]
  have hfree : SlotTable.free [some long, none, some [5]] = 1 := rfl
  have hslots : max 3 (1 + 1) = 3 := rfl
  unfold SlottedPage.Fits
  rw [hused, hfree, hlen, SlottedPage.headerSize_eq, SlottedPage.slotSize_eq,
    SlottedPage.pageSize_eq]
  simp only [List.length_cons, List.length_nil, Nat.zero_add, hslots]
  omega

theorem LedTo.exists_used {i : PageId} {long : List UInt8} (hlen : long.length = 4040)
    (hids : i + 1 < invalidPageId) (h : LedTo file (fun _ => True) s [(i, [])] (i + 1)) :
    ∃ s' : HeapState δ, s'.held = s.held ∧ ⟨i + 1, 1⟩ ∈ s'.issued ∧
      LedTo file (fun _ => True) s' (used i long) (i + 2) := by
  obtain ⟨s₁, hheld₁, h₁⟩ := LedTo.insert [] [1] h (by decide) (by decide) trivial
  obtain ⟨s₂, hheld₂, h₂⟩ := LedTo.insert [] [2] h₁ (by decide) (by decide) trivial
  obtain ⟨s₃, hheld₃, h₃⟩ := LedTo.insert [] [3] h₂ (by decide) (by decide) trivial
  have hno : ¬ SlottedPage.Fits [some [1], some [2], some [3]] long.length := by
    rw [hlen]
    decide
  obtain ⟨s₄, hheld₄, h₄⟩ := LedTo.grow [] long h₃ (by omega) (by omega) hids hno ⟨0, by decide⟩
    trivial
  have hfour : SlottedPage.Fits [some long] 1 := SlottedPage.fits_singleton.mpr (by omega)
  obtain ⟨s₅, hheld₅, h₅⟩ := LedTo.insert [(i, [some [1], some [2], some [3]])] [4] h₄ (by decide)
    hfour trivial
  have hfive : SlottedPage.Fits [some long, some [4]] 1 := by
    have hused : SlottedPage.bytesUsed [some long, some [4]] = long.length + 1 := by
      simp [SlottedPage.bytesUsed, SlotTable.get, Finset.sum_range_succ]
    have hfree : SlotTable.free [some long, some [4]] = 2 := rfl
    unfold SlottedPage.Fits
    rw [hused, hfree, hlen, List.length_cons, List.length_singleton]
    decide
  obtain ⟨s₆, hheld₆, h₆⟩ := LedTo.insert [(i, [some [1], some [2], some [3]])] [5] h₅ (by decide)
    hfive trivial
  obtain ⟨s₇, hheld₇, _, h₇⟩ := h₆.delete ⟨i, 0⟩
    [(i, [none, some [2], some [3]]), (i + 1, [some long, some [4], some [5]])]
    ⟨_, List.mem_cons_self, by simp⟩ (by simp [PagedTable.erase, SlotTable.erase]; rfl) trivial
  obtain ⟨s₈, hheld₈, hissued, h₈⟩ := h₇.delete ⟨i + 1, 1⟩ (used i long)
    ⟨_, List.mem_cons_of_mem _ List.mem_cons_self, by simp⟩
    (by simp [PagedTable.erase, SlotTable.erase, used]) trivial
  refine ⟨s₈, by rw [hheld₈, hheld₇, hheld₆, hheld₅, hheld₄, hheld₃, hheld₂, hheld₁], ?_, h₈⟩
  rw [hissued]
  refine h₇.within.mem_issued ?_
  have hne : (i + 1 == i) = false := beq_false_of_ne (Nat.succ_ne_self i)
  rw [h₇.map, mapOf]
  simp [PagedTable.get, SlotTable.get, List.lookup_cons, hne]

end HeapState

end TurtleDb.Table
