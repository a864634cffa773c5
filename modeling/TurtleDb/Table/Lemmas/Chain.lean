import TurtleDb.Buffer.Lemmas.Pool
import TurtleDb.Lib.Linked
import TurtleDb.Lib.PagedScan
import TurtleDb.Page.Lemmas.Operations
import TurtleDb.Table.TableHeap

/-!
# The page chain of a heap

A heap over a pool stands for the pages one gets by following the links from its first page on, and
these for a paged table of tuples. One theorem for each outcome of `insert_tuple`, `mark_delete` and
`get_tuple` says how the pages change.
-/

namespace TurtleDb.Table

open TurtleDb.Lib TurtleDb.Buffer TurtleDb.Buffer.BufferPoolManager TurtleDb.Page

/-- The pages of a chain, in its order. -/
abbrev Pages := List (PageId × PageData)

/-- The tuples in the pages of a chain. -/
def Pages.contents (l : Pages) : PagedTable PageId (List UInt8) :=
  l.map fun x => (x.1, SlottedPage.slots x.2)

theorem Pages.length_contents (l : Pages) : l.contents.length = l.length := List.length_map _

@[simp] theorem Pages.map_fst_contents (l : Pages) : l.contents.map Prod.fst = l.map Prod.fst := by
  unfold Pages.contents
  rw [List.map_map]
  rfl

/-- The store has the pages `l` as the chain of the heap. -/
structure Chain (h : TableHeap) (store : PageKey → Option PageData) (l : Pages) : Prop where
  linked : Linked (fun i => store ⟨h.fileId, i⟩) SlottedPage.getNextPageId invalidPageId
    h.firstPageId l
  last : l.getLast?.map Prod.fst = some h.lastPageId
  pages : ∀ x ∈ l, SlottedPage.RepInv x.2 ∧ SlottedPage.pageId x.2 = x.1

/-- The heaps differ in no more than the last page and the free space map. -/
structure SameTable (h h' : TableHeap) : Prop where
  fileId : h'.fileId = h.fileId
  firstPageId : h'.firstPageId = h.firstPageId

/-- The free space map has the pages of the chain, with the space that can be used in them. -/
def Recorded (h : TableHeap) (l : Pages) : Prop :=
  ∀ i, h.freeSpaceMap i = (l.lookup i).map SlottedPage.usableSpace

/-- The heap after page `m`, now `q`, has come behind its last page `i`, now `p`. -/
def TableHeap.grow (h : TableHeap) (i : PageId) (p : PageData) (m : PageId)
    (q : PageData) : TableHeap :=
  { h.updateFreeSpace i (SlottedPage.usableSpace p) with lastPageId := m }.updateFreeSpace m
    (SlottedPage.usableSpace q)

variable {δ : Type} [PageDisk δ] [LawfulPageDisk δ] {b : BufferPoolManager δ}
  {held : PageKey → Nat} {pending : PageKey → Prop} {store : PageKey → Option PageData}
  {h : TableHeap} {l pre post : Pages} {i m : PageId} {p q : PageData} {data : PageData}

theorem Pages.lookup_middle (hi : i ∉ pre.map Prod.fst) (j : PageId) :
    (pre ++ (i, q) :: post).lookup j = if j = i then some q else (pre ++ post).lookup j := by
  rw [List.lookup_append, List.lookup_append, List.lookup_cons]
  by_cases hj : j = i
  · subst hj
    have hnone : pre.lookup j = none := by
      rw [List.lookup_eq_none_iff]
      intro x hx
      have hne : j ≠ x.1 := fun he => hi (List.mem_map.mpr ⟨x, hx, he.symm⟩)
      simpa using hne
    rw [hnone, beq_self_eq_true, if_pos rfl]
    rfl
  · rw [beq_false_of_ne hj, if_neg hj]

namespace Recorded

theorem replace (hr : Recorded h (pre ++ (i, p) :: post)) (hi : i ∉ pre.map Prod.fst)
    (q : PageData) :
    Recorded (h.updateFreeSpace i (SlottedPage.usableSpace q)) (pre ++ (i, q) :: post) := by
  intro j
  have hj := hr j
  rw [Pages.lookup_middle hi] at hj ⊢
  show Function.update h.freeSpaceMap i _ j = _
  by_cases hji : j = i
  · rw [hji, Function.update_self, if_pos rfl]
    rfl
  · rw [Function.update_of_ne hji, hj, if_neg hji, if_neg hji]

theorem snoc (hr : Recorded h l) (hm : m ∉ l.map Prod.fst) (q : PageData) :
    Recorded ({ h with lastPageId := m }.updateFreeSpace m (SlottedPage.usableSpace q))
      (l ++ [(m, q)]) := by
  intro j
  rw [Pages.lookup_middle hm, List.append_nil]
  show Function.update h.freeSpaceMap m _ j = _
  by_cases hjm : j = m
  · rw [hjm, Function.update_self, if_pos rfl]
    rfl
  · rw [Function.update_of_ne hjm, hr j, if_neg hjm]

theorem grow (hr : Recorded h (pre ++ [(i, p)])) (hi : i ∉ pre.map Prod.fst)
    (hm : m ∉ (pre ++ [(i, p)]).map Prod.fst) (p' q : PageData) :
    Recorded (h.grow i p' m q) (pre ++ [(i, p'), (m, q)]) := by
  have hm' : m ∉ (pre ++ [(i, p')]).map Prod.fst := by simpa using hm
  have hsnoc := (hr.replace hi p').snoc hm' q
  rw [List.append_assoc] at hsnoc
  exact hsnoc

end Recorded

namespace Chain

omit [PageDisk δ] [LawfulPageDisk δ] in
theorem nodup (hc : Chain h store l) : (l.map Prod.fst).Nodup := hc.linked.nodup

omit [PageDisk δ] [LawfulPageDisk δ] in
theorem not_mem_before {pre post : Pages} {i : PageId} {p : PageData}
    (hc : Chain h store (pre ++ (i, p) :: post)) : i ∉ pre.map Prod.fst := by
  have hnodup := hc.nodup
  rw [List.map_append, List.map_cons, List.nodup_middle] at hnodup
  exact fun hmem => (List.nodup_cons.mp hnodup).1 (List.mem_append_left _ hmem)

theorem nodup_contents (hc : Chain h store l) : (l.contents.map Prod.fst).Nodup := by
  rw [Pages.map_fst_contents]
  exact hc.nodup

/-- The chain is a matter of the pages of its file. -/
theorem of_same_file (hc : Chain h store l) {store' : PageKey → Option PageData}
    (hsame : ∀ i, store' ⟨h.fileId, i⟩ = store ⟨h.fileId, i⟩) : Chain h store' l := by
  refine ⟨?_, hc.last, hc.pages⟩
  rw [funext hsame]
  exact hc.linked

theorem last_eq (hc : Chain h store (pre ++ [(i, p)])) : h.lastPageId = i := by
  have hlast := hc.last
  rw [List.getLast?_concat] at hlast
  exact (Option.some.inj hlast).symm

theorem exists_last (hc : Chain h store l) : ∃ pre p, l = pre ++ [(h.lastPageId, p)] := by
  rcases List.eq_nil_or_concat' l with rfl | ⟨pre, ⟨i, p⟩, rfl⟩
  · cases hc.last
  · exact ⟨pre, p, by rw [hc.last_eq]⟩

theorem stored (hc : Chain h store (pre ++ (i, p) :: post)) :
    store ⟨h.fileId, i⟩ = some p ∧ i ≠ invalidPageId :=
  hc.linked.node_eq (by simp)

theorem page (hc : Chain h store (pre ++ (i, p) :: post)) :
    SlottedPage.RepInv p ∧ SlottedPage.pageId p = i := hc.pages (i, p) (by simp)

theorem next_last (hc : Chain h store (pre ++ [(i, p)])) :
    SlottedPage.getNextPageId p = invalidPageId := by
  cases hc.linked.at_middle with
  | cons _ _ hnext =>
      generalize SlottedPage.getNextPageId p = next at hnext
      cases hnext
      rfl

/-- The map of the pages of a file, after a change to one. -/
theorem update_file (file : FileId) (i : PageId) (v : Option PageData) :
    (fun j => Function.update store ⟨file, i⟩ v ⟨file, j⟩) =
      Function.update (fun j => store ⟨file, j⟩) i v := by
  funext j
  by_cases hj : j = i
  · rw [hj, Function.update_self, Function.update_self]
  · rw [Function.update_of_ne hj, Function.update_of_ne]
    exact fun he => hj (congrArg PageKey.pageId he)

/-- A page is replaced by one with the same link. -/
theorem replace (hc : Chain h store (pre ++ (i, p) :: post)) (hq : SlottedPage.Keeps p q) :
    Chain h (Function.update store ⟨h.fileId, i⟩ (some q)) (pre ++ (i, q) :: post) where
  linked := by
    rw [update_file]
    exact hc.linked.replace hq.next
  last := by
    have hlast := hc.last
    rcases List.eq_nil_or_concat' post with rfl | ⟨post, x, rfl⟩
    · rw [List.getLast?_concat] at hlast ⊢
      exact hlast
    · rw [← List.cons_append, ← List.append_assoc, List.getLast?_concat] at hlast ⊢
      exact hlast
  pages := by
    intro x hx
    rcases List.mem_append.mp hx with hx | hx
    · exact hc.pages x (List.mem_append_left _ hx)
    · rcases List.mem_cons.mp hx with rfl | hx
      · exact ⟨hq.inv, hq.page_id.trans hc.page.2⟩
      · exact hc.pages x (List.mem_append_right _ (List.mem_cons_of_mem _ hx))

/-- The free space map plays no part. -/
theorem congr {h' : TableHeap} (hc : Chain h store l) (hsame : SameTable h h')
    (hlast : h'.lastPageId = h.lastPageId) : Chain h' store l where
  linked := by
    rw [hsame.fileId, hsame.firstPageId]
    exact hc.linked
  last := by
    rw [hlast]
    exact hc.last
  pages := hc.pages

theorem snoc (hc : Chain h store (pre ++ [(i, p)])) (hp : SlottedPage.RepInv q)
    (hid : SlottedPage.pageId q = i) (hnext : SlottedPage.getNextPageId q = m)
    (hm : store ⟨h.fileId, m⟩ = none) (hvalid : m ≠ invalidPageId)
    (hdata : SlottedPage.RepInv data) (hdataId : SlottedPage.pageId data = m)
    (hlast : SlottedPage.getNextPageId data = invalidPageId) :
    Chain { h with lastPageId := m }
      (Function.update (Function.update store ⟨h.fileId, i⟩ (some q)) ⟨h.fileId, m⟩ (some data))
      (pre ++ [(i, q), (m, data)]) where
  linked := by
    rw [update_file, update_file]
    refine hc.linked.snoc ?_ hvalid hnext hlast
    intro hmem
    obtain ⟨x, hx, rfl⟩ := List.mem_map.mp hmem
    have hstored := (hc.linked.node_eq hx).1
    rw [hm] at hstored
    cases hstored
  last := by
    rw [show pre ++ [(i, q), (m, data)] = (pre ++ [(i, q)]) ++ [(m, data)] by simp,
      List.getLast?_concat]
    rfl
  pages := by
    intro x hx
    rcases List.mem_append.mp hx with hx | hx
    · exact hc.pages x (List.mem_append_left _ hx)
    · rcases List.mem_cons.mp hx with rfl | hx
      · exact ⟨hp, hid⟩
      · cases List.mem_singleton.mp hx
        exact ⟨hdata, hdataId⟩

/-! ## Inserting -/

/-- A tuple that fits into the last page goes to its first free slot. -/
theorem insertTuple_fits (hp : Pool b held pending store) (hc : Chain h store (pre ++ [(i, p)]))
    {tuple : Tuple} (hpos : 0 < tuple.data.length)
    (hmax : tuple.data.length ≤ SlottedPage.maxInsertSize)
    (hfits : SlottedPage.Fits (SlottedPage.slots p) tuple.data.length)
    (hheld : held ⟨h.fileId, i⟩ ≠ 2147483647) :
    (h.insertTuple b tuple = .ok (none, b, h) ∧ b.writePage h.fileId i = .ok (none, b) ∧
        AllPinned b held) ∨
      ∃ q b', h.insertTuple b tuple = .ok (some ⟨i, (SlottedPage.slots p).free⟩, b',
          h.updateFreeSpace i (SlottedPage.usableSpace q)) ∧
        Kept b b' held pending (Function.update store ⟨h.fileId, i⟩ (some q)) ∧
        Chain (h.updateFreeSpace i (SlottedPage.usableSpace q))
          (Function.update store ⟨h.fileId, i⟩ (some q)) (pre ++ [(i, q)]) ∧
        SlottedPage.slots q = (SlottedPage.slots p).insert tuple.data := by
  have hi := hc.last_eq
  rcases hp.writePage hc.stored.1 hheld with ⟨he, hall⟩ | ⟨f, b₁, he, hdata, hkey, _, hwrite⟩
  · refine .inl ⟨?_, he, hall⟩
    simp only [TableHeap.insertTuple, hi, he, ok_bind]
    rfl
  · obtain ⟨q, hq, hkeeps, hslots⟩ := SlottedPage.insertTuple_fits hc.page.1 hpos hmax hfits
    refine .inr ⟨q, _, ?_, hwrite q, (hc.replace hkeeps).congr ⟨rfl, rfl⟩ rfl, hslots⟩
    rw [hc.page.2] at hq
    have hid : (b₁.pages f).pageId = i := congrArg PageKey.pageId hkey
    simp only [TableHeap.insertTuple, hi, he, ok_bind, TableHeap.insertLoop, hdata, hid]
    exact (congrArg (· >>= _) hq).trans rfl

/-- A tuple that does not fit into the last page ends the process or goes to a new page, unless
there is no second frame. -/
theorem insertTuple_full (hp : Pool b held pending store) (hc : Chain h store (pre ++ [(i, p)]))
    {tuple : Tuple} (hpos : 0 < tuple.data.length)
    (hmax : tuple.data.length ≤ SlottedPage.maxInsertSize)
    (hfull : ¬ SlottedPage.Fits (SlottedPage.slots p) tuple.data.length)
    (hheld : held ⟨h.fileId, i⟩ ≠ 2147483647) (hfresh : store ⟨h.fileId, b.nextPageId⟩ = none)
    (hvalid : b.nextPageId < invalidPageId) (hroom : RoomFor b.frameCount store 1) :
    (∃ m, h.insertTuple b tuple = .error (.terminated m) ∧
        (SlottedPage.tupleCount p = 0 ∨ 4064 < tuple.data.length)) ∨
      (∃ b', h.insertTuple b tuple = .ok (none, b', h) ∧ Kept b b' held pending store ∧
        ∀ f g, Obtainable b held f → Obtainable b held g → f = g) ∨
      ∃ p' q b' store', h.insertTuple b tuple =
          .ok (some ⟨b.nextPageId, 0⟩, b', h.grow i p' b.nextPageId q) ∧
        Pool b' held pending store' ∧ Steady b b' held ∧ b'.nextPageId = add32 b.nextPageId 1 ∧
        store' = Function.update (Function.update store ⟨h.fileId, i⟩ (some p'))
          ⟨h.fileId, b.nextPageId⟩ (some q) ∧
        Chain (h.grow i p' b.nextPageId q) store' (pre ++ [(i, p'), (b.nextPageId, q)]) ∧
        SlottedPage.slots p' = SlottedPage.slots p ∧ SlottedPage.slots q = [some tuple.data] ∧
        SlottedPage.tupleCount p ≠ 0 ∧ tuple.data.length ≤ 4064 := by
  have hi := hc.last_eq
  have hinv := hc.page.1
  have hword : b.nextPageId < word32 := Nat.lt_of_lt_of_le hvalid (by decide)
  have hstored := hc.stored.1
  rcases hp.fetchPage hstored hheld with ⟨he, hall⟩ | ⟨f, b₁, he, hp₁, hf, hnext, hs⟩
  · refine .inr (.inl ⟨b, ?_, ⟨hp, .refl _ _, rfl⟩, fun f _ hf => absurd hf hall.not_obtainable⟩)
    simp only [TableHeap.insertTuple, writePage, hi, he, ok_bind]
    rfl
  have hdata : b₁.data f = p := hp₁.data_eq hstored hf
  have hq := SlottedPage.insertTuple_full hinv hmax hfull
  have hpos₁ : 0 < Function.update held ⟨h.fileId, i⟩ (held ⟨h.fileId, i⟩ + 1) ⟨h.fileId, i⟩ := by
    rw [Function.update_self]
    exact Nat.succ_pos _
  by_cases hcount : SlottedPage.tupleCount p = 0
  · refine .inl ⟨"Tuple too large to fit in a single page", ?_, .inl hcount⟩
    simp only [TableHeap.insertTuple, writePage, hi, he, ok_bind, TableHeap.insertLoop, hdata]
    refine (congrArg (· >>= _) hq).trans ?_
    simp only [ok_bind, hcount, if_true]
  have hp₂ := hp₁.setData hf hpos₁ p
  rw [← hstored, Function.update_eq_self] at hp₂
  have hnext₂ : (b₁.setData f p).nextPageId = b.nextPageId := hnext
  have hnew := hp.newPage_writing hp₂ hf ⟨hs.frameCount, hs.table⟩ (by rw [hnext₂]; exact hfresh)
    (by rw [hnext₂]; exact Nat.ne_of_lt hvalid)
    (by rw [show (b₁.setData f p).frameCount = b.frameCount from hs.frameCount]; exact hroom)
  rw [hnext₂] at hnew
  rcases hnew with ⟨hn, hno⟩ | ⟨g, b₃, hn, hdata₃, hkey₃, hrest⟩
  · refine .inr (.inl ⟨WritePageGuard.drop (b₁.setData f p) f, ?_, ?_, hno⟩)
    · simp only [TableHeap.insertTuple, writePage, hi, he, ok_bind, TableHeap.insertLoop, hdata]
      refine (congrArg (· >>= _) hq).trans ?_
      simp only [ok_bind, hcount, if_false, hn]
      rfl
    · refine hp.drop hp₂ hf ⟨hs.frameCount, hs.table⟩ hnext₂ true fun k' hk' => ?_
      rcases hk' with rfl | hk'
      · exact .inr ⟨rfl, rfl⟩
      · exact .inl hk'
  rw [data_setData_self] at hdata₃
  obtain ⟨hzero, hrest⟩ := hrest (SlottedPage.setNextPageId p b.nextPageId)
  obtain ⟨b₄, hb₄, hdata₄, hkey₄, hrest⟩ := hrest (SlottedPage.init Block.zero b.nextPageId)
  have hid₃ : (b₃.pages f).pageId = i := congrArg PageKey.pageId hkey₃
  have hid₄ : (b₄.pages g).pageId = b.nextPageId := congrArg PageKey.pageId hkey₄
  have hinit := SlottedPage.init_zero_repInv hword
  have hfields := SlottedPage.init_fields Block.zero b.nextPageId hword
  have hslots := SlottedPage.init_slots Block.zero hword
  by_cases hsize : tuple.data.length ≤ 4064
  · obtain ⟨q, hq', hkeeps, hslots'⟩ := SlottedPage.insertTuple_fits hinit hpos hmax
      (hslots ▸ SlottedPage.fits_nil.mpr hsize)
    obtain ⟨hid, hlink, hinv', hsame⟩ := SlottedPage.setNextPageId_keeps hinv hword
    rw [hslots, hfields.1] at hq'
    rw [hslots] at hslots'
    obtain ⟨hp₅, hs₅, hnext₅⟩ := hrest q
    have hc' := hc.snoc hinv' (hid.trans hc.page.2) hlink hfresh (Nat.ne_of_lt hvalid) hkeeps.inv
      (hkeeps.page_id.trans hfields.1) (hkeeps.next.trans hfields.2.1)
    refine .inr (.inr ⟨SlottedPage.setNextPageId p b.nextPageId, q, _, _, ?_, hp₅, hs₅, hnext₅, rfl,
      hc'.congr ⟨rfl, rfl⟩ rfl, hsame, hslots', hcount, hsize⟩)
    simp only [TableHeap.insertTuple, writePage, hi, he, ok_bind, TableHeap.insertLoop, hdata]
    refine (congrArg (· >>= _) hq).trans ?_
    have hpages₃ : ∀ data, (b₃.setData f data).pages = b₃.pages := fun _ => rfl
    simp only [ok_bind, hcount, if_false, hn, hdata₃, hzero, hb₄, hdata₄, hpages₃, hid₃, hid₄]
    exact (congrArg (· >>= _) hq').trans rfl
  · refine .inl ⟨"Tuple too large to fit in a single page", ?_, .inr (Nat.lt_of_not_le hsize)⟩
    have hq' := SlottedPage.insertTuple_full hinit hmax fun hfits =>
      hsize (SlottedPage.fits_nil.mp (hslots ▸ hfits))
    simp only [TableHeap.insertTuple, writePage, hi, he, ok_bind, TableHeap.insertLoop, hdata]
    refine (congrArg (· >>= _) hq).trans ?_
    simp only [ok_bind, hcount, if_false, hn, hdata₃, hzero, hb₄, hdata₄]
    refine (congrArg (· >>= _) hq').trans ?_
    simp only [ok_bind, hfields.2.2.2.1, if_true]

/-! ## Deleting and reading -/

theorem markDelete_valid (hp : Pool b held pending store)
    (hc : Chain h store (pre ++ (i, p) :: post)) {s : Nat} (hs : s < SlottedPage.slotCount p)
    (hheld : held ⟨h.fileId, i⟩ ≠ 2147483647) :
    (h.markDelete b ⟨i, s⟩ = .ok (.ok false, b, h) ∧ AllPinned b held) ∨
      ∃ q b', h.markDelete b ⟨i, s⟩ =
          .ok (.ok true, b', h.updateFreeSpace i (SlottedPage.usableSpace q)) ∧
        Kept b b' held pending (Function.update store ⟨h.fileId, i⟩ (some q)) ∧
        Chain (h.updateFreeSpace i (SlottedPage.usableSpace q))
          (Function.update store ⟨h.fileId, i⟩ (some q)) (pre ++ (i, q) :: post) ∧
        SlottedPage.slots q = (SlottedPage.slots p).erase s := by
  rcases hp.writePage hc.stored.1 hheld with ⟨he, hall⟩ | ⟨f, b₁, he, hdata, _, _, hwrite⟩
  · refine .inl ⟨?_, hall⟩
    simp only [TableHeap.markDelete, he, ok_bind]
    rfl
  · have hid : (⟨i, s⟩ : RecordId).pageId = SlottedPage.pageId p := hc.page.2.symm
    obtain ⟨q, hq, hkeeps, hslots⟩ := SlottedPage.deleteTuple_valid hc.page.1 hid hs
    refine .inr ⟨q, _, ?_, hwrite q, (hc.replace hkeeps).congr ⟨rfl, rfl⟩ rfl, hslots⟩
    simp only [TableHeap.markDelete, he, ok_bind, hdata, hq]
    rfl

theorem markDelete_outside (hp : Pool b held pending store)
    (hc : Chain h store (pre ++ (i, p) :: post)) {s : Nat} (hs : ¬ s < SlottedPage.slotCount p)
    (hheld : held ⟨h.fileId, i⟩ ≠ 2147483647) :
    (h.markDelete b ⟨i, s⟩ = .ok (.ok false, b, h) ∧ AllPinned b held) ∨
      ∃ m b', h.markDelete b ⟨i, s⟩ = .ok (.error (.raised m), b', h) ∧
        Kept b b' held pending store := by
  rcases hp.writePage hc.stored.1 hheld with ⟨he, hall⟩ | ⟨f, b₁, he, hdata, _, hkept, _⟩
  · refine .inl ⟨?_, hall⟩
    simp only [TableHeap.markDelete, he, ok_bind]
    rfl
  · have hout : ¬ ((⟨i, s⟩ : RecordId).pageId = SlottedPage.pageId p ∧
        (⟨i, s⟩ : RecordId).slotNum < SlottedPage.slotCount p) := fun hv => hs hv.2
    have hq := SlottedPage.deleteTuple_invalid hout
    refine .inr ⟨"Invalid RID for this page", _, ?_, hkept⟩
    simp only [TableHeap.markDelete, he, ok_bind, hdata, hq]
    rfl

theorem getTuple_live (hp : Pool b held pending store)
    (hc : Chain h store (pre ++ (i, p) :: post)) {s : Nat} {bytes : List UInt8}
    (hs : (SlottedPage.slots p).get s = some bytes) (hheld : held ⟨h.fileId, i⟩ ≠ 2147483647)
    (tuple : Tuple) :
    (h.getTuple b ⟨i, s⟩ tuple = .ok (.ok none, b) ∧ AllPinned b held) ∨
      ∃ b', h.getTuple b ⟨i, s⟩ tuple = .ok (.ok (some { tuple with data := bytes }), b') ∧
        Kept b b' held pending store := by
  rcases hp.readPage hc.stored.1 hheld with ⟨he, hall⟩ | ⟨f, b₁, he, hdata, hkept⟩
  · refine .inl ⟨?_, hall⟩
    simp only [TableHeap.getTuple, he, ok_bind]
    rfl
  · have hid : (⟨i, s⟩ : RecordId).pageId = SlottedPage.pageId p := hc.page.2.symm
    have ht := SlottedPage.tuple_live hc.page.1 hid hs
    refine .inr ⟨_, ?_, hkept⟩
    simp only [TableHeap.getTuple, he, ok_bind, hdata, ht, Tuple.deserializeFrom, List.take_length]
    rfl

theorem getTuple_dead (hp : Pool b held pending store)
    (hc : Chain h store (pre ++ (i, p) :: post)) {s : Nat}
    (hs : (SlottedPage.slots p).get s = none) (hheld : held ⟨h.fileId, i⟩ ≠ 2147483647)
    (tuple : Tuple) :
    (h.getTuple b ⟨i, s⟩ tuple = .ok (.ok none, b) ∧ AllPinned b held) ∨
      ∃ m b', h.getTuple b ⟨i, s⟩ tuple = .ok (.error (.raised m), b') ∧
        Kept b b' held pending store := by
  rcases hp.readPage hc.stored.1 hheld with ⟨he, hall⟩ | ⟨f, b₁, he, hdata, hkept⟩
  · refine .inl ⟨?_, hall⟩
    simp only [TableHeap.getTuple, he, ok_bind]
    rfl
  · have hnone : (SlottedPage.slots p).get (⟨i, s⟩ : RecordId).slotNum = none := hs
    obtain ⟨m, ht⟩ := SlottedPage.tuple_dead hnone
    refine .inr ⟨m, _, ?_, hkept⟩
    simp only [TableHeap.getTuple, he, ok_bind, hdata, ht]
    rfl

end Chain

end TurtleDb.Table
