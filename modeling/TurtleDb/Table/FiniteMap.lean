import Mathlib.Logic.Relation
import TurtleDb.Buffer.PageStore
import TurtleDb.Table.Room
import TurtleDb.Table.ScanRuns

/-!
# A heap is a finite map

What a run has inserted and not deleted is what reading and iterating give back, as long as no two
frames in use share their bytes.
-/

namespace TurtleDb.Table

open TurtleDb.Lib TurtleDb.Buffer TurtleDb.Buffer.BufferPoolManager TurtleDb.Page

namespace HeapState

variable {δ : Type} [PageDisk δ] [LawfulPageDisk δ] {file : FileId} {s : HeapState δ}
  {store : PageKey → Option PageData} {l : Pages} {rid : RecordId}

/-- Page `i` has a link to page `j`. -/
def Next (b : BufferPoolManager δ) (file : FileId) : PageId → PageId → Prop :=
  Linked.Next (fun i => b.stored ⟨file, i⟩) SlottedPage.getNextPageId invalidPageId

/-- Page-chain order, and slot order in a page. -/
def ComesBefore (b : BufferPoolManager δ) (file : FileId) (r r' : RecordId) : Prop :=
  r.pageId = r'.pageId ∧ r.slotNum < r'.slotNum ∨
    Relation.TransGen (Next b file) r.pageId r'.pageId

namespace Holds

theorem linked (hs : Holds file s store l) :
    Linked (fun i => s.pool.stored ⟨file, i⟩) SlottedPage.getNextPageId invalidPageId
      s.heap.firstPageId l := by
  rw [← hs.fileId]
  exact hs.stored.linked

theorem comesBefore (hs : Holds file s store l) {x y : PageId × Nat}
    (h : PagedTable.Before l.contents x y) :
    ComesBefore s.pool file ⟨x.1, x.2⟩ ⟨y.1, y.2⟩ := by
  rcases h with h | h
  · exact .inl h
  · refine .inr ?_
    rw [Pages.map_fst_contents] at h
    obtain ⟨sub, hsub, he⟩ := List.sublist_map_iff.mp h
    obtain ⟨p, rest, rfl, hp, hrest⟩ := List.map_eq_cons_iff.mp he.symm
    obtain ⟨q, rest', rfl, hq, hnil⟩ := List.map_eq_cons_iff.mp hrest
    obtain rfl := List.map_eq_nil_iff.mp hnil
    obtain ⟨r₁, r₂, rfl, hp', hsub'⟩ := List.cons_sublist_iff.mp hsub
    obtain ⟨pre, mid₁, rfl⟩ := List.append_of_mem hp'
    obtain ⟨mid₂, post, rfl⟩ := List.append_of_mem (List.singleton_sublist.mp hsub')
    rw [← hp, ← hq]
    have hlinked := hs.linked
    rw [List.append_assoc, List.cons_append, ← List.append_assoc mid₁] at hlinked
    exact hlinked.reaches

theorem pairwise_rows (hs : Holds file s store l) :
    ((PagedTable.entries l.contents).map Entry.rid).Pairwise (ComesBefore s.pool file) := by
  rw [List.pairwise_map]
  exact (PagedTable.pairwise_entries l.contents).imp fun h => hs.comesBefore h

/-- A record id that was returned is one in a page of the table. -/
theorem mem_handed_of_issued (hs : Holds file s store l) (hrid : rid ∈ s.issued) :
    ⟨file, rid.pageId⟩ ∈ s.handed := by
  obtain ⟨t, ht, _⟩ := hs.issued rid hrid
  rw [hs.mem_handed_iff, ← Pages.map_fst_contents]
  exact List.mem_map.mpr ⟨_, ht, rfl⟩

end Holds

/-- With two frames to be had, an insert ends the process or adds an entry that was not live, a
delete succeeds, reading gives the live bytes or raises, and iterating visits the live record ids
once each, in the order of pages and slots, with their bytes. -/
theorem heap_is_map (file : FileId) (s : HeapState δ) (hr : Reachable file s)
    (htwo : TwoUnpinned s.pool) :
    (∀ tuple : Tuple, 1 ≤ tuple.storageSize → tuple.storageSize ≤ 4064 →
      s.heap.FitsLast s.pool tuple.storageSize ∨ s.pool.HasRoom →
      (∃ m, s.heap.insertTuple s.pool tuple = .error (.terminated m)) ∨
        ∃ rid b h, s.heap.insertTuple s.pool tuple = .ok (some rid, b, h) ∧ s.map rid = none ∧
          Reachable file (s.inserted file tuple (some rid) b h)) ∧
      (∀ rid ∈ s.issued, ∃ b h, s.heap.markDelete s.pool rid = .ok (.ok true, b, h) ∧
        Reachable file (s.deleted rid (.ok true) b h)) ∧
      (∀ rid ∈ s.issued, ∀ tuple, ∃ b, Reachable file { s with pool := b } ∧
        match s.map rid with
        | some bytes =>
            s.heap.getTuple s.pool rid tuple = .ok (.ok (some { tuple with data := bytes }), b)
        | none => ∃ m, s.heap.getTuple s.pool rid tuple = .ok (.error (.raised m), b)) ∧
      ∃ rows b, s.heap.scan (stepBound file s) s.pool = .ok (rows, b) ∧ s.Genuine rows ∧
        (∀ rid, rid ∈ rows.map Prod.fst ↔ s.map rid ≠ none) ∧
        (rows.map Prod.fst).Pairwise (ComesBefore s.pool file) := by
  obtain ⟨store, l, hs⟩ := hr.holds
  have hobtain := hs.twoObtainable_iff.mp htwo
  have hpinned : ¬ AllPinned s.pool s.held := by
    intro hall
    obtain ⟨f, _, ho, _⟩ := hobtain
    exact hall.not_obtainable ho
  refine ⟨fun tuple hpos hmax hroom => ?_, fun rid hrid => ?_, fun rid hrid tuple => ?_, ?_⟩
  · have hle : tuple.data.length ≤ SlottedPage.maxInsertSize := Nat.le_trans hmax (by decide)
    rcases hs.insertTuple tuple hpos hle hroom with ⟨hterm, _⟩ | ⟨b, _, hno, _⟩ |
      ⟨rid, b, h, store', l', he, _, _, hadds, _⟩
    · exact .inl hterm
    · exact absurd hobtain hno
    · refine .inr ⟨rid, b, h, he, ?_, .step hr (.insertTuple hpos hle hroom he) trivial⟩
      rw [hs.map]
      exact hadds.get_eq_none hs.nodup
  · have hmem := hs.mem_handed_of_issued hrid
    rcases hs.markDelete hmem with ⟨_, hall⟩ | ⟨b, h, _, _, he, _⟩ | ⟨_, _, _, _, hno⟩
    · exact absurd hall hpinned
    · exact ⟨b, h, he, .step hr (.markDelete hmem he) trivial⟩
    · exact absurd (hs.issued rid hrid) hno
  · have hmem := hs.mem_handed_of_issued hrid
    rcases hs.getTuple hmem tuple with ⟨_, hall⟩ | ⟨b, _, hmatch⟩
    · exact absurd hall hpinned
    · refine ⟨b, ?_, hmatch⟩
      cases hmap : s.map rid with
      | some bytes =>
          rw [hmap] at hmatch
          exact .step hr (.getTuple hmem hmatch) trivial
      | none =>
          rw [hmap] at hmatch
          obtain ⟨m, he⟩ := hmatch
          exact .step hr (.getTuple hmem he) trivial
  · obtain ⟨f, _, ho, _⟩ := hobtain
    have hcan : CanRead file s := .inl (hs.sharing.pool.not_full_iff.mpr ⟨f, ho⟩)
    obtain ⟨b, he⟩ := hs.scan hcan
    refine ⟨_, b, he, hs.genuine (List.append_nil _).symm, fun rid => ?_, ?_⟩
    · rw [List.map_map]
      exact hs.mem_rids_iff
    · rw [List.map_map]
      exact hs.pairwise_rows

theorem heap_is_map_used : ∃ (s : HeapState Disk.PageMap) (long : List UInt8), Reachable 0 s ∧
    TwoUnpinned s.pool ∧ s.map = mapOf (used 1 long) ∧
    (∃ rid b h, s.heap.insertTuple s.pool ⟨[1], .invalid⟩ = .ok (some rid, b, h) ∧
      s.map rid = none) ∧
    (∃ b h, s.heap.markDelete s.pool ⟨2, 0⟩ = .ok (.ok true, b, h)) ∧
    (∃ b, s.heap.getTuple s.pool ⟨2, 0⟩ ⟨[], .invalid⟩ = .ok (.ok (some ⟨long, .invalid⟩), b)) ∧
    (∃ m b, s.heap.getTuple s.pool ⟨2, 1⟩ ⟨[], .invalid⟩ = .ok (.error (.raised m), b)) ∧
    ∃ rows b, s.heap.scan (stepBound 0 s) s.pool = .ok (rows, b) ∧ s.Genuine rows ∧
      ∀ rid, rid ∈ rows.map Prod.fst ↔ s.map rid ≠ none := by
  obtain ⟨s, long, hlen, hs, hissued, _⟩ := exists_used
  have hlive : s.map ⟨2, 0⟩ = some long := by rw [hs.map]; rfl
  have hdead : s.map ⟨2, 1⟩ = none := by rw [hs.map]; rfl
  have hlong : (⟨2, 0⟩ : RecordId) ∈ s.issued := hs.within.mem_issued (by rw [hlive]; simp)
  obtain ⟨store, l, hholds, hl⟩ := hs.holds
  obtain ⟨_, _, _, _, _, hok, _⟩ := hholds.insert_last (hl.trans (used_eq_append 1 long)) [1]
    (by decide) (by decide) hs.two (fun _ => hs.hasRoom (by decide))
    (.inl ((fits_used hlen).mpr (by decide)))
  obtain ⟨hinsert, hdelete, hget, rows, b, hscan, hgenuine, hrids, _⟩ :=
    heap_is_map 0 s hs.reachable hs.twoUnpinned
  refine ⟨s, long, hs.reachable, hs.twoUnpinned, hs.map, ?_, ?_, ?_, ?_, rows, b, hscan, hgenuine,
    hrids⟩
  · rcases hinsert ⟨[1], .invalid⟩ (by decide) (by decide) (.inr (hs.hasRoom (by decide))) with
      ⟨m, he⟩ | ⟨rid, b, h, he, hnone, _⟩
    · cases he.symm.trans hok
    · exact ⟨rid, b, h, he, hnone⟩
  · obtain ⟨b, h, he, _⟩ := hdelete ⟨2, 0⟩ hlong
    exact ⟨b, h, he⟩
  · obtain ⟨b, _, he⟩ := hget ⟨2, 0⟩ hlong ⟨[], .invalid⟩
    rw [hlive] at he
    exact ⟨b, he⟩
  · obtain ⟨b, _, he⟩ := hget ⟨2, 1⟩ hissued ⟨[], .invalid⟩
    rw [hdead] at he
    obtain ⟨m, he⟩ := he
    exact ⟨m, b, he⟩

/-! ## Frames with the same bytes -/

/-- Another client pins a page of the table. -/
theorem Holds.pinned (hs : Holds file s store l) (hr : Reachable file s) {i : PageId}
    (hi : ⟨file, i⟩ ∈ s.handed) (hzero : s.held ⟨file, i⟩ = 0) {f : FrameId}
    (ho : Obtainable s.pool s.held f) :
    ∃ b store' g, Reachable file
        { s with pool := b, held := Function.update s.held ⟨file, i⟩ 1 } ∧
      Holds file { s with pool := b, held := Function.update s.held ⟨file, i⟩ 1 } store' l ∧
      Steady s.pool b s.held ∧ b.nextPageId = s.pool.nextPageId ∧
      b.pageTable ⟨file, i⟩ = some g := by
  obtain ⟨p, hp⟩ := Option.ne_none_iff_exists'.mp ((hs.sharing.handed _).mpr hi)
  rcases hs.sharing.pool.fetchPage hp (hs.stored.pins _) with ⟨_, hall⟩ |
    ⟨g, b, he, _, hg, hnext, hst⟩
  · exact absurd ho hall.not_obtainable
  have hother : Others file s.toShared _ := .fetchPage hi (by rw [hzero]; decide) he
  rw [hzero] at hother
  obtain ⟨store', hs'⟩ := hs.others hother
  exact ⟨b, store', g, .step hr (.others hother) trivial, hs', hst, hnext, hg⟩

/-- Other clients have pinned the `m` pages of a table, the first one in the first frame. A tuple
fills each page. -/
structure Crowded (file : FileId) (bytes : List UInt8) (m : Nat) (s : HeapState δ) : Prop where
  reachable : Reachable file s
  holds : ∃ store l, Holds file s store l ∧
    l.contents = (List.range m).map fun i => (i, [some bytes])
  next : s.pool.nextPageId = m
  held : ∀ i < m, s.held ⟨file, i⟩ = 1
  frames : s.pool.frameCount = frameLimit + 3
  first : s.pool.pageTable ⟨file, 0⟩ = some 0

theorem Holds.obtainable (hs : Holds file s store l) {f : FrameId} (hle : s.pool.nextPageId ≤ f)
    (hlt : f < s.pool.frameCount) : Obtainable s.pool s.held f :=
  hs.sharing.pool.obtainable_of_le (fun k => (hs.sharing.handed k).mp)
    (Nat.le_trans hs.sharing.count hle) hlt

theorem not_fits_page {bytes : List UInt8} (hlen : bytes.length = 4064) :
    ¬ SlottedPage.Fits [some bytes] bytes.length := by
  rw [SlottedPage.fits_singleton]
  omega

/-- A page that one tuple fills takes no second one. -/
theorem insertTuple_full_page {p : PageData} {bytes : List UInt8} (hp : SlottedPage.RepInv p)
    (hslots : SlottedPage.slots p = [some bytes]) (hlen : bytes.length = 4064) :
    SlottedPage.insertTuple p bytes = .ok (none, p) ∧ SlottedPage.tupleCount p ≠ 0 := by
  refine ⟨SlottedPage.insertTuple_full hp (hlen ▸ (by decide)) (hslots ▸ not_fits_page hlen), ?_⟩
  intro hzero
  have hnone := (tupleCount_eq_zero_iff hp).mp hzero 0
  rw [hslots] at hnone
  cases hnone

namespace Crowded

variable {bytes : List UInt8} {m : Nat}

theorem exists_one (d : δ) (hopen : LawfulPageDisk.opened d file) (hlen : bytes.length = 4064) :
    ∃ s : HeapState δ, Crowded file bytes 1 s := by
  have hs := Sharing.create (frameLimit + 3) d
  have hroom : (BufferPoolManager.create (frameLimit + 3) d).HasRoom :=
    ⟨(by decide : 0 < invalidPageId), .inr (by decide : 0 < frameLimit)⟩
  have hcount : (BufferPoolManager.create (frameLimit + 3) d).frameCount = frameLimit + 3 :=
    (by decide : trunc32 (frameLimit + 3) = frameLimit + 3)
  have ho : Obtainable (BufferPoolManager.create (frameLimit + 3) d) (fun _ => 0) 0 :=
    ⟨by rw [hcount]; decide, fun _ _ => rfl⟩
  rcases Holds.create hs (fun _ => rfl) hopen hroom with ⟨m, _, hall⟩ |
    ⟨h, b, store, p, he, hst, hholds, hslots, hnext⟩
  · exact absurd ho hall.not_obtainable
  obtain ⟨b₂, store₂, g, hr₂, hs₂, hst₂, hnext₂, hg⟩ := hholds.pinned
    (.create (.create (frameLimit + 3) d) hopen hroom he trivial)
    (hholds.mem_handed_iff.mpr List.mem_cons_self) rfl (hs.pool.obtainable_steady hst ho)
  have hlt : g < 1 := hs₂.sharing.pool.frame_lt (fun k => (hs₂.sharing.handed k).mp) hg
  obtain rfl : g = 0 := Nat.lt_one_iff.mp hlt
  have hnext' : b₂.nextPageId = 1 := hnext₂.trans hnext
  have hcount' : b₂.frameCount = frameLimit + 3 :=
    hst₂.frameCount.trans (hst.frameCount.trans hcount)
  have ho₂ : ∀ f, frameLimit ≤ f → f < frameLimit + 3 → Obtainable b₂ _ f := fun f hle hf =>
    hs₂.obtainable (by rw [hnext']; exact Nat.le_trans (by decide) hle) (by rw [hcount']; exact hf)
  have hl₂ : Pages.contents [((0 : PageId), p)] = [] ++ [(0, [])] := by
    simp [Pages.contents, hslots]
  have hfits : SlottedPage.Fits [] bytes.length := SlottedPage.fits_nil.mpr (Nat.le_of_eq hlen)
  obtain ⟨rid, b₃, h', store₃, l₃, _, hstep, hst₃, hs₃, hcase⟩ := hs₂.insert_last hl₂ bytes
    (by omega) (by omega) ⟨frameLimit, frameLimit + 1, ho₂ _ (Nat.le_refl _) (by omega),
      ho₂ _ (by omega) (by omega), by decide⟩ (fun hno => absurd hfits hno) (.inl hfits)
  rw [if_pos hfits] at hcase
  refine ⟨_, .step hr₂ hstep trivial, ⟨store₃, l₃, hs₃, hcase.2.1⟩, hcase.2.2.trans hnext',
    fun i hi => ?_, hst₃.frameCount.trans hcount', ?_⟩
  · rw [Nat.lt_one_iff.mp hi]
    exact Function.update_self _ _ _
  · refine hst₃.table _ _ ?_ hg
    show 0 < Function.update (fun _ => 0) (⟨file, 0⟩ : PageKey) 1 ⟨file, 0⟩
    rw [Function.update_self]
    exact Nat.one_pos

theorem obtainable (h : Crowded file bytes m s) (hm : m ≤ frameLimit) {f : FrameId}
    (hle : frameLimit ≤ f) (hf : f < frameLimit + 3) : Obtainable s.pool s.held f := by
  obtain ⟨store, l, hs, _⟩ := h.holds
  refine hs.obtainable ?_ ?_
  · rw [h.next]
    exact Nat.le_trans hm hle
  · rw [h.frames]
    exact hf

/-- The last two frames are still to be had. -/
theorem twoObtainable (h : Crowded file bytes m s) (hm : m ≤ frameLimit) :
    TwoObtainable s.pool s.held :=
  ⟨frameLimit, frameLimit + 1,
    h.obtainable hm (Nat.le_refl _) (Nat.lt_add_of_pos_right (Nat.succ_pos 2)),
    h.obtainable hm (Nat.le_succ _) (Nat.add_lt_add_left (by decide) _), by decide⟩

theorem map (h : Crowded file bytes m s) {i : PageId} (hi : i < m) : s.map ⟨i, 0⟩ = some bytes := by
  obtain ⟨store, l, hs, hl⟩ := h.holds
  have hmem : (i, [some bytes]) ∈ l.contents := by
    rw [hl]
    exact List.mem_map.mpr ⟨i, List.mem_range.mpr hi, rfl⟩
  rw [hs.map, PagedTable.get_of_mem hs.nodup hmem]
  simp [SlotTable.get]

theorem succ (h : Crowded file bytes (m + 1) s) (hlen : bytes.length = 4064)
    (hlt : m + 1 < frameLimit) : ∃ t : HeapState δ, Crowded file bytes (m + 2) t := by
  obtain ⟨store, l, hs, hl⟩ := h.holds
  rw [List.range_succ, List.map_append, List.map_singleton] at hl
  have hroom : s.pool.HasRoom := by
    refine ⟨?_, .inr ?_⟩
    · rw [h.next]
      exact Nat.lt_trans hlt (by decide)
    · rw [h.next]
      exact hlt
  obtain ⟨rid, b, h', store₁, l₁, _, hstep, hst, hs₁, hcase⟩ := hs.insert_last hl bytes (by omega)
    (by omega) (h.twoObtainable (Nat.le_of_lt hlt)) (fun _ => hroom)
    (.inr ⟨0, by simp [SlotTable.get]⟩)
  rw [if_neg (not_fits_page hlen), h.next] at hcase
  obtain ⟨_, hl₁, hnext₁⟩ := hcase
  have hi : (m + 1) ∈ l₁.map Prod.fst := by
    rw [← Pages.map_fst_contents, hl₁]
    simp
  have hzero : s.held ⟨file, m + 1⟩ = 0 := by
    refine hs.sharing.pool.held_eq_zero ?_
    rw [← h.next]
    exact hs.sharing.fresh file
  obtain ⟨b₂, store₂, g, hr₂, hs₂, hst₂, hnext₂, _⟩ := hs₁.pinned
    (.step h.reachable hstep trivial) (hs₁.mem_handed_iff.mpr hi) hzero
    (hs.sharing.pool.obtainable_steady hst
      (h.obtainable (Nat.le_of_lt hlt) (Nat.le_refl _) (Nat.lt_add_of_pos_right (Nat.succ_pos 2))))
  have hfirst : 0 < s.held ⟨file, 0⟩ := by
    rw [h.held 0 (Nat.succ_pos _)]
    exact Nat.one_pos
  refine ⟨_, hr₂, ⟨store₂, l₁, hs₂, ?_⟩, ?_, fun i hi => ?_, ?_, ?_⟩
  · rw [hl₁, List.range_succ (n := m + 1), List.range_succ]
    simp
  · exact hnext₂.trans hnext₁
  · by_cases he : i = m + 1
    · rw [he]
      exact Function.update_self _ _ _
    · refine (Function.update_of_ne (fun hk => he (congrArg PageKey.pageId hk)) _ _).trans ?_
      exact h.held i (by omega)
  · exact hst₂.frameCount.trans (hst.frameCount.trans h.frames)
  · exact hst₂.table _ _ hfirst (hst.table _ _ hfirst h.first)

theorem exists_crowded (d : δ) (hopen : LawfulPageDisk.opened d file) (hlen : bytes.length = 4064)
    (hlt : m < frameLimit) : ∃ s : HeapState δ, Crowded file bytes (m + 1) s := by
  induction m with
  | zero => exact exists_one d hopen hlen
  | succ m ih =>
      obtain ⟨s, hs⟩ := ih (Nat.lt_of_succ_lt hlt)
      exact hs.succ hlen hlt

/-- All pages are in frames, and the next frame is the one that overlaps with the first. -/
theorem free (h : Crowded file bytes frameLimit s) {b : BufferPoolManager δ}
    {held : PageKey → Nat} {pending : PageKey → Prop} {store : PageKey → Option PageData}
    {l : Pages} (hs : Holds file s store l) (hp : Pool b held pending store)
    (hst : Steady s.pool b s.held) :
    b.freeFrames = [frameLimit, frameLimit + 1, frameLimit + 2] := by
  generalize hkeys : (List.range frameLimit).map (fun i => (⟨file, i⟩ : PageKey)) = keys
  have hlen : keys.length = frameLimit := by rw [← hkeys, List.length_map, List.length_range]
  have hnodup : keys.Nodup := by
    rw [← hkeys]
    exact List.Nodup.map_on (fun i _ j _ he => congrArg PageKey.pageId he) List.nodup_range
  have hheld : ∀ k ∈ keys, 0 < s.held k := by
    intro k hk
    rw [← hkeys] at hk
    obtain ⟨i, hi, rfl⟩ := List.mem_map.mp hk
    rw [h.held i (List.mem_range.mp hi)]
    exact Nat.one_pos
  have hsub : keys ⊆ s.handed := by
    intro k hk
    obtain ⟨f, hf⟩ := hs.sharing.pool.backs.resident (hheld k hk)
    exact (hs.sharing.handed k).mp (hs.sharing.pool.backs.store_ne hf)
  have hperm : keys.Perm s.handed := by
    refine (List.subperm_of_subset hnodup hsub).perm_of_length_le ?_
    rw [hlen, ← h.next]
    exact hs.sharing.count
  have hfree := hp.free_of_resident (fun k hk => hperm.mem_iff.mpr ((hs.sharing.handed k).mp hk))
    hnodup fun k hk => by
      obtain ⟨f, hf⟩ := hs.sharing.pool.backs.resident (hheld k hk)
      rw [hst.table k f (hheld k hk) hf]
      simp
  rw [hfree, hlen, hst.frameCount, h.frames, Nat.add_sub_cancel_left]
  rfl

end Crowded

omit [LawfulPageDisk δ] in
theorem insertLoop_fits {b : BufferPoolManager δ} {h : TableHeap} {f : FrameId} {tuple : Tuple}
    {p : PageData} (hr : SlottedPage.insertTuple (b.data f) tuple.data = .ok (some rid, p))
    (fuel : Nat) : TableHeap.insertLoop tuple (fuel + 1) b h f =
      .ok (some rid, WritePageGuard.drop (b.setData f p) f,
        h.updateFreeSpace (b.pages f).pageId (SlottedPage.usableSpace p)) := by
  rw [TableHeap.insertLoop, Tuple.serializeTo, hr]
  rfl

/-- The page that was added is in the frame it was given, with the tuple. -/
structure Grown (b b' : BufferPoolManager δ) (h h' : TableHeap) (f : FrameId) (n : PageId)
    (bytes : List UInt8) : Prop where
  same : SameTable h h'
  table : b'.pageTable = b.pageTable
  free : b'.freeFrames = b.freeFrames
  structural : Structural b none → Structural b' none
  inv : SlottedPage.RepInv (b'.data f)
  page_id : SlottedPage.pageId (b'.data f) = n
  next : SlottedPage.getNextPageId (b'.data f) = invalidPageId
  slots : SlottedPage.slots (b'.data f) = [some bytes]

omit [LawfulPageDisk δ] in
theorem insertTuple_grows {b b₁ b₂ : BufferPoolManager δ} {h : TableHeap} {f g : FrameId}
    {n : PageId} (tuple : Tuple) (hpos : 0 < tuple.data.length) (hsize : tuple.data.length ≤ 4064)
    (he : b.fetchPage h.fileId h.lastPageId = .ok (some g, b₁))
    (hq : SlottedPage.insertTuple (b₁.data g) tuple.data = .ok (none, b₁.data g))
    (hcount : SlottedPage.tupleCount (b₁.data g) ≠ 0)
    (hn : (b₁.setData g (b₁.data g)).newPage h.fileId = .ok (some (f, n), b₂))
    (hzero : b₂.data f = Block.zero) (hne : frameOffset f ≠ frameOffset g) (hword : n < word32) :
    ∃ rid b' h', h.insertTuple b tuple = .ok (some rid, b', h') ∧
      Grown b₂ b' h h' f n tuple.data := by
  generalize hb₃ : b₂.setData g (SlottedPage.setNextPageId (b₂.data g) n) = b₃
  generalize hb₄ : b₃.setData f (SlottedPage.init (b₃.data f) n) = b₄
  have hsame₄ : b₄.pageTable = b₂.pageTable ∧ b₄.freeFrames = b₂.freeFrames ∧
      (Structural b₂ none → Structural b₄ none) := by
    rw [← hb₄, ← hb₃]
    exact ⟨rfl, rfl, fun hstruct => hstruct.congr rfl rfl rfl rfl rfl⟩
  have hdata₄ : b₄.data f = SlottedPage.init Block.zero n := by
    have hsame : b₃.data f = Block.zero := by
      rw [← hb₃, data_setData_of_offset hne, hzero]
    rw [← hb₄, data_setData_self, hsame]
  obtain ⟨htable₅, hdata₅, _, hfree₅⟩ :=
    unpinPage_keeps b₄ (b₄.pages g).fileId (b₄.pages g).pageId true
  have hinit := SlottedPage.init_zero_repInv hword
  have hfields := SlottedPage.init_fields Block.zero n hword
  have hslots := SlottedPage.init_slots Block.zero hword
  obtain ⟨q, hq', hkeeps, hslots'⟩ := SlottedPage.insertTuple_fits hinit hpos
    (Nat.le_trans hsize (by decide)) (hslots ▸ SlottedPage.fits_nil.mpr hsize)
  have hfits : SlottedPage.insertTuple ((WritePageGuard.drop b₄ g).data f) tuple.data = _ :=
    (congrArg (SlottedPage.insertTuple · tuple.data) ((congrFun hdata₅ _).trans hdata₄)).trans hq'
  have hins : h.insertTuple b tuple = TableHeap.insertLoop tuple 1 (WritePageGuard.drop b₄ g)
      { h.updateFreeSpace (b₃.pages g).pageId
          (SlottedPage.usableSpace (SlottedPage.setNextPageId (b₂.data g) n)) with
        lastPageId := n } f := by
    simp only [TableHeap.insertTuple, writePage, he, ok_bind]
    rw [TableHeap.insertLoop]
    refine (congrArg (· >>= _) hq).trans ?_
    simp only [ok_bind, hcount, if_false, hn, hb₃, hb₄]
  rw [insertLoop_fits hfits 0] at hins
  generalize hb₆ : (WritePageGuard.drop b₄ g).setData f q = b₆ at hins
  have hsame₆ : b₆.pageTable = b₂.pageTable ∧ b₆.freeFrames = b₂.freeFrames ∧
      (Structural b₂ none → Structural b₆ none) := by
    rw [← hb₆, ← hsame₄.1, ← hsame₄.2.1]
    exact ⟨htable₅, hfree₅, fun hstruct =>
      ((hsame₄.2.2 hstruct).unpinPage _ _ _).congr rfl rfl rfl rfl rfl⟩
  have hdata₆ : b₆.data f = q := by rw [← hb₆, data_setData_self]
  obtain ⟨htable, hdata, _, hfree⟩ :=
    unpinPage_keeps b₆ (b₆.pages f).fileId (b₆.pages f).pageId true
  have hdata' : (WritePageGuard.drop b₆ f).data f = q := (congrFun hdata _).trans hdata₆
  refine ⟨_, _, _, hins, ⟨rfl, rfl⟩, htable.trans hsame₆.1, hfree.trans hsame₆.2.1,
    fun hstruct => (hsame₆.2.2 hstruct).unpinPage _ _ _, ?_, ?_, ?_, ?_⟩
  · rw [hdata']
    exact hkeeps.inv
  · rw [hdata', hkeeps.page_id, hfields.1]
  · rw [hdata', hkeeps.next, hfields.2.1]
  · rw [hdata', hslots', hslots]
    rfl

/-- The page that the next insert makes takes the bytes of the first page. -/
theorem Crowded.overwritten {bytes : List UInt8} {s : HeapState Disk.PageMap}
    (h : Crowded 0 bytes frameLimit s) (hlen : bytes.length = 4064) :
    ∃ rid b h', s.heap.insertTuple s.pool ⟨bytes, .invalid⟩ = .ok (some rid, b, h') ∧
      h'.fileId = 0 ∧ b.pageTable ⟨0, 0⟩ = some 0 ∧ SlottedPage.pageId (b.data 0) = frameLimit ∧
      TwoUnpinned b := by
  obtain ⟨store, l, hs, hl⟩ := h.holds
  rw [show frameLimit = 1048575 + 1 from rfl, List.range_succ, List.map_append,
    List.map_singleton] at hl
  obtain ⟨pre, p, rfl, hslots⟩ := exists_last_of_contents hl
  have hstored := hs.chain.stored.1
  have hpos : 0 < bytes.length := hlen ▸ (by decide)
  obtain ⟨hq, hcount⟩ := insertTuple_full_page hs.chain.page.1 hslots hlen
  rcases hs.sharing.pool.fetchPage hstored (hs.stored.pins _) with ⟨_, hall⟩ |
    ⟨g, b₁, he, hp₁, hg, hnext, hst⟩
  · refine absurd (hs.obtainable (f := frameLimit) ?_ ?_) hall.not_obtainable
    · rw [h.next]
    · rw [h.frames]
      exact Nat.lt_add_of_pos_right (by decide)
  have hdata := hp₁.data_eq hstored hg
  have hfirst : b₁.pageTable ⟨0, 0⟩ = some 0 := by
    refine hst.table _ _ ?_ h.first
    rw [h.held 0 (by decide)]
    exact Nat.one_pos
  -- the last frame overlaps with the first one, and the page at hand is in neither
  have hoff : frameOffset frameLimit = frameOffset 0 := by decide
  have hne : frameOffset frameLimit ≠ frameOffset g := by
    rw [hoff]
    intro hoff
    obtain rfl := frameOffset_inj (by decide) (hp₁.backs.low _ g hg) hoff
    have hpage : (1048575 : Nat) = 0 :=
      congrArg PageKey.pageId (hp₁.backs.structural.table_inj hg hfirst)
    omega
  have hstruct : Structural (b₁.setData g p) none :=
    hp₁.backs.structural.congr rfl rfl rfl rfl rfl
  have hfree₁ : b₁.freeFrames = [frameLimit, frameLimit + 1, frameLimit + 2] :=
    h.free hs hp₁ hst
  have hfree : (b₁.setData g p).freeFrames = [frameLimit, frameLimit + 1, frameLimit + 2] := hfree₁
  obtain ⟨b₂, hn, _, _, hzero⟩ := Client.newPage_head hstruct hfree 0
  obtain ⟨_, hrest, _, htable, _⟩ := hstruct.newPage_head hfree hn
  have hid : (b₁.setData g p).nextPageId = frameLimit := hnext.trans h.next
  rw [hid] at hn htable
  have hfresh : b₁.pageTable ⟨0, frameLimit⟩ = none := by
    refine Option.eq_none_iff_forall_ne_some.mpr fun f hf => hp₁.backs.store_ne hf ?_
    rw [← h.next]
    exact hs.sharing.fresh 0
  have hstruct₂ : Structural b₂ none :=
    hstruct.newPage (by rw [hid]; decide) (by rw [hid]; exact hfresh) hn
  subst hdata
  rw [← hs.fileId] at hn
  obtain ⟨rid, b', h', hins, hgrown⟩ := insertTuple_grows
    ⟨bytes, .invalid⟩ hpos (Nat.le_of_eq hlen) (by rw [hs.chain.last_eq]; exact he) hq hcount hn
    hzero hne (by decide)
  have hunpinned : ∀ f ∈ [frameLimit + 1, frameLimit + 2], b'.Unpinned f := by
    intro f hf
    have hstruct' := hgrown.structural hstruct₂
    rw [← hrest, ← hgrown.free] at hf
    exact ⟨(hstruct'.free_lt f hf).1, (hstruct'.free_of_mem hf).no_pin⟩
  refine ⟨rid, b', h', hins, hgrown.same.fileId.trans hs.fileId, ?_, ?_, frameLimit + 1,
    frameLimit + 2, hunpinned _ List.mem_cons_self,
    hunpinned _ (List.mem_cons_of_mem _ List.mem_cons_self), by decide⟩
  · rw [hgrown.table, htable, Function.update_of_ne]
    · exact hfirst
    · intro hk
      have hpage : (0 : Nat) = frameLimit := congrArg PageKey.pageId hk
      exact absurd hpage (by decide)
  · rw [← hgrown.page_id, BufferPoolManager.data, BufferPoolManager.data, hoff]

omit [LawfulPageDisk δ] in
theorem getTuple_wrong_page {b : BufferPoolManager δ} {h : TableHeap} {f : FrameId}
    (htable : b.pageTable ⟨h.fileId, rid.pageId⟩ = some f)
    (hid : SlottedPage.pageId (b.data f) ≠ rid.pageId) (tuple : Tuple) (r : Option Tuple)
    (b' : BufferPoolManager δ) : h.getTuple b rid tuple ≠ .ok (.ok r, b') := by
  intro hget
  have hinvalid : SlottedPage.validateRecordId (b.data f) rid =
      .error (.raised "Invalid RID for this page") := by
    rw [SlottedPage.validateRecordId, if_pos (.inl (Ne.symm hid))]
  unfold TableHeap.getTuple readPage fetchPage at hget
  simp only [htable] at hget
  split at hget
  · cases hget
  · simp only [ok_bind] at hget
    generalize hb : ((b.setPage f _).recordPin f rid.pageId) = b₁ at hget
    have hdata : b₁.data f = b.data f := by
      rw [← hb]
      rfl
    rw [hdata, SlottedPage.tuple, hinvalid] at hget
    cases hget

/-- There are two frames to be had, but the record of the first page cannot be read any more. -/
theorem heap_not_map : ∃ (s : HeapState Disk.PageMap) (tuple : Tuple), Reachable 0 s ∧
    TwoUnpinned s.pool ∧ s.pool.nextPageId < invalidPageId ∧ 1 ≤ tuple.storageSize ∧
    tuple.storageSize ≤ 4064 ∧ s.map ⟨0, 0⟩ = some tuple.data ∧
    ∃ rid b h, s.heap.insertTuple s.pool tuple = .ok (some rid, b, h) ∧ TwoUnpinned b ∧
      ∀ tuple r b', h.getTuple b ⟨0, 0⟩ tuple ≠ .ok (.ok r, b') := by
  generalize hbytes : List.replicate 4064 (0 : UInt8) = bytes
  have hlen : bytes.length = 4064 := by rw [← hbytes, List.length_replicate]
  obtain ⟨s, hcrowded⟩ : ∃ s : HeapState Disk.PageMap, Crowded 0 bytes frameLimit s :=
    Crowded.exists_crowded (m := 1048575) .zero trivial hlen (by decide)
  obtain ⟨store, l, hs, _⟩ := hcrowded.holds
  obtain ⟨rid, b, h', hins, hfile, htable, hid, htwo⟩ := hcrowded.overwritten hlen
  have htable' : b.pageTable ⟨h'.fileId, 0⟩ = some 0 := by rw [hfile, htable]
  refine ⟨s, ⟨bytes, .invalid⟩, hcrowded.reachable,
    hs.twoObtainable_iff.mpr (hcrowded.twoObtainable (Nat.le_refl _)), ?_, ?_, Nat.le_of_eq hlen,
    hcrowded.map (by decide), rid, b, h', hins, htwo, getTuple_wrong_page htable' ?_⟩
  · rw [hcrowded.next]
    decide
  · show 1 ≤ bytes.length
    rw [hlen]
    decide
  · rw [hid]
    decide

end HeapState

end TurtleDb.Table
