import TurtleDb.Table.Lemmas.Stored

/-!
# Runs of a heap

A heap is made on a pool that has other clients, and from then on these and the heap's own calls
take turns. Whatever the order, the heap is a chain of pages that holds what was inserted and not
deleted.
-/

namespace TurtleDb.Table

open TurtleDb.Lib TurtleDb.Buffer TurtleDb.Buffer.BufferPoolManager TurtleDb.Page LawfulPageDisk

/-- A heap in a shared pool, with what was inserted into it and not deleted, and the record ids it
has returned. -/
structure HeapState (δ : Type) extends Shared δ where
  heap : TableHeap
  map : RecordId → Option (List UInt8)
  issued : List RecordId

namespace HeapState

variable {δ : Type} [PageDisk δ] [LawfulPageDisk δ]

omit [PageDisk δ] [LawfulPageDisk δ] in
/-- After the constructor. -/
def created (s : Shared δ) (file : FileId) (h : TableHeap) (b : BufferPoolManager δ) :
    HeapState δ where
  pool := b
  handed := ⟨file, s.pool.nextPageId⟩ :: s.handed
  held := s.held
  writing := s.writing
  heap := h
  map := fun _ => none
  issued := []

omit [PageDisk δ] [LawfulPageDisk δ] in
/-- After `insert_tuple`. If it made a page, this is the one with the next number. -/
def inserted (s : HeapState δ) (file : FileId) (tuple : Tuple) (r : Option RecordId)
    (b : BufferPoolManager δ) (h : TableHeap) : HeapState δ :=
  { s with
    pool := b
    heap := h
    handed := if b.nextPageId = s.pool.nextPageId then s.handed
      else ⟨file, s.pool.nextPageId⟩ :: s.handed
    map := match r with
      | some rid => Function.update s.map rid (some tuple.data)
      | none => s.map
    issued := r.toList ++ s.issued }

omit [PageDisk δ] [LawfulPageDisk δ] in
/-- After `mark_delete`. -/
def deleted (s : HeapState δ) (rid : RecordId) (r : Except Fault Bool) (b : BufferPoolManager δ)
    (h : TableHeap) : HeapState δ :=
  { s with
    pool := b
    heap := h
    map := match r with
      | .ok true => Function.update s.map rid none
      | _ => s.map }

omit [PageDisk δ] [LawfulPageDisk δ] in
/-- The number of pages of the table. -/
def pageCount (file : FileId) (s : HeapState δ) : Nat := s.handed.countP fun k => k.fileId = file

/-- The number of slots in them. -/
def slotCount (file : FileId) (s : HeapState δ) : Nat :=
  ((s.handed.filter fun k => k.fileId = file).map fun k =>
    ((s.pool.stored k).map SlottedPage.slotCount).getD 0).sum

/-- What happens to a heap. Tuples have a byte at least, record ids are ids in pages of the table,
and an insert fits into the last page unless a new one has room. -/
inductive Step (file : FileId) : HeapState δ → HeapState δ → Prop where
  | others {s t} (ho : Others file s.toShared t) : Step file s { s with toShared := t }
  | insertTuple {s tuple r b h} (hpos : 0 < tuple.data.length)
      (hmax : tuple.data.length ≤ SlottedPage.maxInsertSize)
      (hroom : s.heap.FitsLast s.pool tuple.data.length ∨ s.pool.HasRoom)
      (hr : s.heap.insertTuple s.pool tuple = .ok (r, b, h)) :
      Step file s (s.inserted file tuple r b h)
  | markDelete {s rid r b h} (hrid : ⟨file, rid.pageId⟩ ∈ s.handed)
      (hr : s.heap.markDelete s.pool rid = .ok (r, b, h)) : Step file s (s.deleted rid r b h)
  | getTuple {s rid tuple r b} (hrid : ⟨file, rid.pageId⟩ ∈ s.handed)
      (hr : s.heap.getTuple s.pool rid tuple = .ok (r, b)) : Step file s { s with pool := b }

/-- The runs in which the heap is at all times one that `P` holds of. -/
inductive Within (file : FileId) (P : HeapState δ → Prop) : HeapState δ → Prop where
  | create {s b h} (hs : Shared.Reachable file s) (hopen : opened s.pool.diskManager file)
      (hroom : s.pool.HasRoom) (hr : TableHeap.create s.pool file = .ok (h, b))
      (hp : P (created s file h b)) : Within file P (created s file h b)
  | step {s t} (h : Within file P s) (hs : Step file s t) (hp : P t) : Within file P t

/-- The heaps that runs lead to. -/
def Reachable (file : FileId) (s : HeapState δ) : Prop := Within file (fun _ => True) s

/-- The heap is the chain of the pages `l`: all the pages of the file, with the map in them. -/
structure Holds (file : FileId) (s : HeapState δ) (store : PageKey → Option PageData) (l : Pages) :
    Prop where
  sharing : Sharing s.toShared store
  chain : Chain s.heap store l
  recorded : Recorded s.heap l
  fileId : s.heap.fileId = file
  complete : ∀ i, store ⟨file, i⟩ ≠ none → i ∈ l.map Prod.fst
  map : ∀ rid, s.map rid = PagedTable.get l.contents rid.pageId rid.slotNum
  issued : ∀ rid ∈ s.issued, PagedTable.Place l.contents (rid.pageId, rid.slotNum)

namespace Holds

variable {file : FileId} {s : HeapState δ} {store : PageKey → Option PageData} {l : Pages}
  {b : BufferPoolManager δ} {h : TableHeap} {rid : RecordId} {tuple : Tuple}

theorem stored (hs : Holds file s store l) :
    Stored s.pool s.heap s.held s.writing store l :=
  ⟨hs.sharing.pool, hs.chain, fun k => Nat.ne_of_lt (hs.sharing.pins k)⟩

theorem nodup (hs : Holds file s store l) : (l.contents.map Prod.fst).Nodup :=
  hs.chain.nodup_contents

theorem mem_pages (hs : Holds file s store l) {i : PageId} (hi : ⟨file, i⟩ ∈ s.handed) :
    i ∈ l.map Prod.fst := hs.complete i ((hs.sharing.handed _).mpr hi)

theorem mem_handed_iff (hs : Holds file s store l) {i : PageId} :
    ⟨file, i⟩ ∈ s.handed ↔ i ∈ l.map Prod.fst := by
  refine ⟨hs.mem_pages, fun hi => ?_⟩
  obtain ⟨⟨j, p⟩, hx, rfl⟩ := List.mem_map.mp hi
  rw [← hs.sharing.handed, ← hs.fileId, (hs.chain.linked.node_eq hx).1]
  simp

theorem handed_perm (hs : Holds file s store l) :
    (s.handed.filter fun k => k.fileId = file).Perm (l.map fun x => ⟨file, x.1⟩) := by
  rw [List.perm_ext_iff_of_nodup (hs.sharing.nodup.filter _)]
  · rintro ⟨f, i⟩
    rw [List.mem_filter, decide_eq_true_iff, List.mem_map]
    constructor
    · rintro ⟨hmem, rfl⟩
      obtain ⟨x, hx, rfl⟩ := List.mem_map.mp (hs.mem_handed_iff.mp hmem)
      exact ⟨x, hx, rfl⟩
    · rintro ⟨x, hx, he⟩
      cases he
      exact ⟨hs.mem_handed_iff.mpr (List.mem_map.mpr ⟨x, hx, rfl⟩), rfl⟩
  · have hnodup := hs.chain.nodup
    rw [List.Nodup, List.pairwise_map] at hnodup ⊢
    exact hnodup.imp fun hne he => hne (congrArg PageKey.pageId he)

theorem pageCount_eq (hs : Holds file s store l) : s.pageCount file = l.length := by
  rw [pageCount, List.countP_eq_length_filter, hs.handed_perm.length_eq, List.length_map]

theorem slotCount_eq (hs : Holds file s store l) :
    s.slotCount file = (l.contents.map fun p => p.2.length).sum := by
  have hsum := (hs.handed_perm.map fun k =>
    ((s.pool.stored k).map SlottedPage.slotCount).getD 0).sum_eq
  rw [slotCount, hsum, Pages.contents, List.map_map, List.map_map]
  congr 1
  refine List.map_congr_left fun x hx => ?_
  have hstored := hs.sharing.pool.stored_eq (hs.chain.linked.node_eq hx).1
  rw [hs.fileId] at hstored
  simp [hstored]

theorem fresh_not_mem (hs : Holds file s store l) : s.pool.nextPageId ∉ l.map Prod.fst := by
  intro hmem
  obtain ⟨x, hx, he⟩ := List.mem_map.mp hmem
  have hstored := (hs.chain.linked.node_eq hx).1
  rw [he, hs.sharing.fresh] at hstored
  cases hstored

theorem canGrow (hs : Holds file s store l) (hroom : s.pool.HasRoom) :
    CanGrow s.pool s.heap store where
  fresh := hs.sharing.fresh _
  valid := hroom.1
  room := hs.sharing.roomFor hroom

/-- The heap comes to life with one empty page. -/
theorem create {s : Shared δ} (hs : Sharing s store) (hnone : ∀ i, store ⟨file, i⟩ = none)
    (hopen : opened s.pool.diskManager file) (hroom : s.pool.HasRoom) :
    (∃ m, TableHeap.create s.pool file = .error (.raised m) ∧ AllPinned s.pool s.held) ∨
      ∃ h b store' p, TableHeap.create s.pool file = .ok (h, b) ∧ Steady s.pool b s.held ∧
        Holds file (created s file h b) store' [(s.pool.nextPageId, p)] ∧
        SlottedPage.slots p = [] ∧ b.nextPageId = s.pool.nextPageId + 1 := by
  have hid : s.pool.nextPageId < word32 := Nat.lt_trans hroom.1 (by decide)
  have hvalid := Nat.ne_of_lt hroom.1
  have hfresh := hs.fresh file
  rcases hs.pool.newPage_written hfresh hvalid hopen (hs.roomFor hroom) with ⟨he, hall⟩ |
    ⟨f, b₁, he, hdata, hwrite⟩
  · refine .inl ⟨"Out of memory: Cannot allocate first page for TableHeap.", ?_, hall⟩
    simp only [TableHeap.create, he, ok_bind]
  · generalize hp : SlottedPage.init Block.zero s.pool.nextPageId = p
    obtain ⟨hpool, hst, hnext⟩ := hwrite p
    obtain ⟨hpid, hplink, _⟩ := SlottedPage.init_fields Block.zero s.pool.nextPageId hid
    have hinv := SlottedPage.init_zero_repInv hid
    have hslots := SlottedPage.init_slots Block.zero hid
    rw [hp] at hpid hplink hinv hslots
    obtain ⟨h, hrun, hfile, hfirst, hlast, hmap⟩ : ∃ h, TableHeap.create s.pool file =
        .ok (h, WritePageGuard.drop (b₁.setData f p) f) ∧ h.fileId = file ∧
          h.firstPageId = s.pool.nextPageId ∧ h.lastPageId = s.pool.nextPageId ∧
          h.freeSpaceMap = Function.update (fun _ => none) s.pool.nextPageId
            (some (SlottedPage.usableSpace p)) := by
      simp only [TableHeap.create, he, ok_bind, hvalid, if_false, hdata, hp]
      exact ⟨_, rfl, rfl, rfl, rfl, rfl⟩
    refine .inr ⟨h, _, Function.update store ⟨file, s.pool.nextPageId⟩ (some p), p, hrun, hst,
      ⟨?_, ⟨?_, ?_, ?_⟩, ?_, hfile, ?_, ?_, ?_⟩, hslots,
      hnext.trans (add32_of_lt (Nat.lt_of_le_of_lt hroom.1 (by decide)))⟩
    · have hsharing := hs.grown (k := ⟨file, s.pool.nextPageId⟩) hroom.1 (hs.pins _) rfl
        (by rw [Function.update_eq_self]; exact hpool) hnext fun k' => update_new_ne_none_iff
      rw [Function.update_eq_self] at hsharing
      exact hsharing
    · show Linked (fun i => Function.update store ⟨file, s.pool.nextPageId⟩ (some p)
        ⟨h.fileId, i⟩) _ _ h.firstPageId _
      rw [hfile, hfirst, Chain.update_file]
      refine .cons hvalid (Function.update_self _ _ _) ?_
      rw [hplink]
      exact .nil
    · simp [created, hlast]
    · intro x hx
      cases List.mem_singleton.mp hx
      exact ⟨hinv, hpid⟩
    · intro i
      show h.freeSpaceMap i = _
      rw [hmap, List.lookup_cons]
      by_cases hi : i = s.pool.nextPageId
      · rw [hi, Function.update_self, beq_self_eq_true]
        rfl
      · rw [Function.update_of_ne hi, beq_false_of_ne hi]
        rfl
    · intro i hi
      by_cases hin : i = s.pool.nextPageId
      · simp [hin]
      · rw [Function.update_of_ne (fun he => hin (congrArg PageKey.pageId he))] at hi
        exact absurd (hnone i) hi
    · intro rid
      have hcontents : Pages.contents [(s.pool.nextPageId, p)] = [] ++ [(s.pool.nextPageId, [])] := by
        simp [Pages.contents, hslots]
      rw [hcontents, PagedTable.get_snoc (by simp)]
      simp [created, SlotTable.get, PagedTable.get]
    · simp [created]

omit [PageDisk δ] [LawfulPageDisk δ] in
theorem pair_ne {rid rid' : RecordId} (hr : rid' ≠ rid) :
    (rid'.pageId, rid'.slotNum) ≠ (rid.pageId, rid.slotNum) := by
  intro he
  obtain ⟨hp, hn⟩ := Prod.mk.inj he
  cases rid
  cases rid'
  cases hp
  cases hn
  exact hr rfl

/-- What is said of the pages carries over when the table has got an entry. -/
theorem of_adds (hs : Holds file s store l) {store' l'} {t : Shared δ}
    (ht : Sharing t store') (hc : Chain h store' l') (hsame : SameTable s.heap h)
    (hrec : Recorded h l')
    (hadds : PagedTable.Adds tuple.data l.contents (rid.pageId, rid.slotNum) l'.contents)
    (hstore : ∀ i, store' ⟨file, i⟩ ≠ none → store ⟨file, i⟩ ≠ none ∨ i = rid.pageId) :
    Holds file { t with
      heap := h
      map := Function.update s.map rid (some tuple.data)
      issued := rid :: s.issued } store' l' where
  sharing := ht
  chain := hc
  recorded := hrec
  fileId := hsame.fileId.trans hs.fileId
  complete i hi := by
    have hplace := hadds.place (y := (rid.pageId, rid.slotNum)) (.inr rfl)
    rw [← Pages.map_fst_contents]
    rcases hstore i hi with hi | rfl
    · refine hadds.subset ?_
      rw [Pages.map_fst_contents]
      exact hs.complete i hi
    · obtain ⟨t, ht, _⟩ := hplace
      exact List.mem_map.mpr ⟨_, ht, rfl⟩
  map rid' := by
    rw [hadds.get_eq hs.nodup]
    by_cases hr : rid' = rid
    · rw [hr, if_pos rfl]
      exact Function.update_self _ _ _
    · rw [if_neg (pair_ne hr)]
      exact (Function.update_of_ne hr _ _).trans (hs.map rid')
  issued rid' hr := by
    rcases List.mem_cons.mp hr with rfl | hr
    · exact hadds.place (.inr rfl)
    · exact hadds.place (.inl (hs.issued rid' hr))

/-- An insert ends the process, finds no frame, or adds an entry. -/
theorem insertTuple (hs : Holds file s store l) (tuple : Tuple) (hpos : 0 < tuple.data.length)
    (hmax : tuple.data.length ≤ SlottedPage.maxInsertSize)
    (hroom : s.heap.FitsLast s.pool tuple.data.length ∨ s.pool.HasRoom) :
    ((∃ m, s.heap.insertTuple s.pool tuple = .error (.terminated m)) ∧
        ¬ LastFits l tuple.data.length ∧ (LastEmpty l ∨ 4064 < tuple.data.length)) ∨
      (∃ b, s.heap.insertTuple s.pool tuple = .ok (none, b, s.heap) ∧
        ¬ TwoObtainable s.pool s.held ∧ Steady s.pool b s.held ∧
        Holds file (s.inserted file tuple none b s.heap) store l) ∨
      ∃ rid b h store' l', s.heap.insertTuple s.pool tuple = .ok (some rid, b, h) ∧
        Steady s.pool b s.held ∧ Holds file (s.inserted file tuple (some rid) b h) store' l' ∧
        PagedTable.Adds tuple.data l.contents (rid.pageId, rid.slotNum) l'.contents ∧
        (LastFits l tuple.data.length ∧ rid.pageId ∈ l.map Prod.fst ∧
            b.nextPageId = s.pool.nextPageId ∨
          (¬ LastFits l tuple.data.length ∧ ¬ LastEmpty l) ∧ rid.pageId = s.pool.nextPageId ∧
            b.nextPageId = s.pool.nextPageId + 1) := by
  have hgrow : ¬ LastFits l tuple.data.length → s.pool.HasRoom := fun hno =>
    hroom.resolve_left fun hfits => hno ((hs.stored.fitsLast_iff hmax).mp hfits)
  rcases hs.stored.insertTuple hpos hmax (fun hno => hs.canGrow (hgrow hno)) with hterm |
    ⟨b, he, hkept, htwo⟩ | ⟨rid, b, h, store', l', he, hlead, hadds, hcase⟩
  · exact .inl hterm
  · refine .inr (.inl ⟨b, he, htwo, hkept.steady, ?_⟩)
    have hsharing := hs.sharing.kept hkept fun _ => Iff.rfl
    simp only [inserted, hkept.next, if_true]
    exact ⟨hsharing, hs.chain, hs.recorded, hs.fileId, hs.complete, hs.map, hs.issued⟩
  · have hrec := hlead.recorded hs.recorded
    refine .inr (.inr ⟨rid, b, h, store', l', he, hlead.steady, ?_, hadds, ?_⟩)
    · rcases hcase with ⟨_, _, hnext, hstore⟩ | ⟨hno, hrid, hnext, hstore⟩
      · have hsharing := hs.sharing.kept ⟨hlead.stored.pool, hlead.steady, hnext⟩ hstore
        simp only [inserted, hnext, if_true]
        exact hs.of_adds hsharing hlead.stored.chain hlead.same hrec hadds fun i hi =>
          .inl ((hstore _).mp hi)
      · have hids := (hgrow hno.1).1
        have hsharing := hs.sharing.grown (k := ⟨s.heap.fileId, s.pool.nextPageId⟩) hids
          (hs.sharing.pins _) rfl (by rw [Function.update_eq_self]; exact hlead.stored.pool) hnext
          hstore
        rw [Function.update_eq_self, hs.fileId] at hsharing
        have hne : add32 s.pool.nextPageId 1 ≠ s.pool.nextPageId := by
          rw [add32_of_lt (Nat.lt_of_le_of_lt hids (by decide))]
          exact Nat.succ_ne_self _
        simp only [inserted, hnext, hne, if_false]
        refine hs.of_adds hsharing hlead.stored.chain hlead.same hrec hadds fun i hi => ?_
        rw [hrid]
        exact ((hstore _).mp hi).imp_right (congrArg PageKey.pageId)
    · rcases hcase with ⟨hfits, hrid, hnext, _⟩ | ⟨hno, hrid, hnext, _⟩
      · exact .inl ⟨hfits, hrid, hnext⟩
      · refine .inr ⟨hno, by rw [hrid], hnext.trans (add32_of_lt ?_)⟩
        exact Nat.lt_of_le_of_lt (hgrow hno.1).1 (by decide)

/-- A call that read, or failed, leaves the table as it was. -/
theorem of_kept (hs : Holds file s store l) (hk : Kept s.pool b s.held s.writing store) :
    Holds file { s with pool := b } store l :=
  ⟨hs.sharing.kept hk fun _ => Iff.rfl, hs.chain, hs.recorded, hs.fileId, hs.complete, hs.map,
    hs.issued⟩

/-- A delete finds no frame, erases the entry, or finds no such slot. -/
theorem markDelete (hs : Holds file s store l) (hrid : ⟨file, rid.pageId⟩ ∈ s.handed) :
    (s.heap.markDelete s.pool rid = .ok (.ok false, s.pool, s.heap) ∧ AllPinned s.pool s.held) ∨
      (∃ b h store' l', s.heap.markDelete s.pool rid = .ok (.ok true, b, h) ∧
        Steady s.pool b s.held ∧ Holds file (s.deleted rid (.ok true) b h) store' l' ∧
        l'.contents = PagedTable.erase l.contents (rid.pageId, rid.slotNum) ∧
        PagedTable.Place l.contents (rid.pageId, rid.slotNum) ∧
        b.nextPageId = s.pool.nextPageId) ∨
      ∃ m b, s.heap.markDelete s.pool rid = .ok (.error (.raised m), b, s.heap) ∧
        Kept s.pool b s.held s.writing store ∧
        ¬ PagedTable.Place l.contents (rid.pageId, rid.slotNum) := by
  by_cases hplace : PagedTable.Place l.contents (rid.pageId, rid.slotNum)
  · rcases hs.stored.markDelete hplace with hno | ⟨b, h, store', l', he, hlead, hl, hnext, hstore⟩
    · exact .inl hno
    · refine .inr (.inl ⟨b, h, store', l', he, hlead.steady, ?_, hl, hplace, hnext⟩)
      have hkept : Kept s.pool b s.held s.writing store' :=
        ⟨hlead.stored.pool, hlead.steady, hnext⟩
      have hpages : l'.map Prod.fst = l.map Prod.fst := by
        rw [← Pages.map_fst_contents, hl, PagedTable.map_fst_erase, Pages.map_fst_contents]
      refine ⟨hs.sharing.kept hkept hstore, hlead.stored.chain, hlead.recorded hs.recorded,
        hlead.same.fileId.trans hs.fileId, fun i hi => ?_, fun rid' => ?_, fun rid' hr => ?_⟩
      · rw [hpages]
        exact hs.complete i ((hstore _).mp hi)
      · rw [hl, PagedTable.get_erase hs.nodup]
        by_cases hr : rid' = rid
        · rw [hr, if_pos rfl]
          exact Function.update_self _ _ _
        · rw [if_neg (pair_ne hr)]
          exact (Function.update_of_ne hr _ _).trans (hs.map rid')
      · rw [hl]
        exact (hs.issued rid' hr).erase _
  · rcases hs.stored.markDelete_outside (hs.mem_pages hrid) hplace with hno | ⟨m, b, he, hkept⟩
    · exact .inl hno
    · exact .inr (.inr ⟨m, b, he, hkept, hplace⟩)

/-- Reading answers from the map, if there is a frame. -/
theorem getTuple (hs : Holds file s store l) (hrid : ⟨file, rid.pageId⟩ ∈ s.handed)
    (tuple : Tuple) :
    (s.heap.getTuple s.pool rid tuple = .ok (.ok none, s.pool) ∧ AllPinned s.pool s.held) ∨
      ∃ b, Kept s.pool b s.held s.writing store ∧
        match s.map rid with
        | some bytes =>
            s.heap.getTuple s.pool rid tuple = .ok (.ok (some { tuple with data := bytes }), b)
        | none => ∃ m, s.heap.getTuple s.pool rid tuple = .ok (.error (.raised m), b) := by
  rw [hs.map]
  exact hs.stored.getTuple (hs.mem_pages hrid) tuple

theorem others (hs : Holds file s store l) {t : Shared δ} (ho : Others file s.toShared t) :
    ∃ store', Holds file { s with toShared := t } store' l := by
  obtain ⟨store', hsharing, hsame⟩ := hs.sharing.others ho
  refine ⟨store', hsharing, hs.chain.of_same_file fun i => ?_, hs.recorded, hs.fileId,
    fun i hi => hs.complete i (hsame i ▸ hi), hs.map, hs.issued⟩
  rw [hs.fileId]
  exact hsame i

end Holds

variable {file : FileId} {s : HeapState δ}

/-- What a step does to the table. -/
inductive Effect (l l' : Pages) : Prop where
  | same (h : l'.contents = l.contents)
  | adds {bytes x} (h : PagedTable.Adds bytes l.contents x l'.contents)
      (hfits : LastFits l bytes.length → x.1 ∈ l.contents.map Prod.fst)
  | erases {x} (h : l'.contents = PagedTable.erase l.contents x)

theorem Holds.step {t : HeapState δ} {store : PageKey → Option PageData} {l : Pages}
    (hs : Holds file s store l) (hstep : Step file s t) :
    ∃ store' l', Holds file t store' l' ∧ Effect l l' := by
  cases hstep with
  | others ho =>
      obtain ⟨store', hs'⟩ := hs.others ho
      exact ⟨store', l, hs', .same rfl⟩
  | insertTuple hpos hmax hroom hr =>
      rcases hs.insertTuple _ hpos hmax hroom with ⟨⟨m, he⟩, _⟩ | ⟨b, he, _, _, hs'⟩ |
        ⟨rid, b, h, store', l', he, _, hs', hadds, hcase⟩
      · cases he.symm.trans hr
      · cases he.symm.trans hr
        exact ⟨_, _, hs', .same rfl⟩
      · cases he.symm.trans hr
        refine ⟨_, _, hs', .adds hadds fun hfits => ?_⟩
        rw [Pages.map_fst_contents]
        rcases hcase with ⟨_, hmem, _⟩ | ⟨⟨hno, _⟩, _⟩
        · exact hmem
        · exact absurd hfits hno
  | markDelete hrid hr =>
      rcases hs.markDelete hrid with ⟨he, _⟩ | ⟨b, h, store', l', he, _, hs', hl, _⟩ |
        ⟨m, b, he, hkept, _⟩
      · cases he.symm.trans hr
        exact ⟨store, l, hs, .same rfl⟩
      · cases he.symm.trans hr
        exact ⟨_, _, hs', .erases hl⟩
      · cases he.symm.trans hr
        exact ⟨_, _, hs.of_kept hkept, .same rfl⟩
  | @getTuple rid tuple r b hrid hr =>
      rcases hs.getTuple hrid tuple with ⟨he, _⟩ | ⟨b, hkept, he⟩
      · cases he.symm.trans hr
        exact ⟨store, l, hs, .same rfl⟩
      · cases hmap : s.map rid with
        | some bytes =>
            rw [hmap] at he
            cases he.symm.trans hr
            exact ⟨_, _, hs.of_kept hkept, .same rfl⟩
        | none =>
            rw [hmap] at he
            obtain ⟨m, he⟩ := he
            cases he.symm.trans hr
            exact ⟨_, _, hs.of_kept hkept, .same rfl⟩

/-- Every run leads to a heap that is a chain of pages and holds its map. -/
theorem Within.holds {P : HeapState δ → Prop} (hr : Within file P s) :
    ∃ store l, Holds file s store l := by
  induction hr with
  | create hs hopen hroom hr _ =>
      obtain ⟨store, hsharing, hnone⟩ := hs.sharing
      rcases Holds.create hsharing hnone hopen hroom with ⟨m, he, _⟩ |
        ⟨h, b, store', p, he, _, hholds, _⟩
      · cases he.symm.trans hr
      · cases he.symm.trans hr
        exact ⟨_, _, hholds⟩
  | step _ hstep _ ih =>
      obtain ⟨store, l, hs⟩ := ih
      obtain ⟨store', l', hs', _⟩ := hs.step hstep
      exact ⟨store', l', hs'⟩

theorem Within.last {P : HeapState δ → Prop} (hr : Within file P s) : P s := by
  cases hr with
  | create _ _ _ _ hp => exact hp
  | step _ _ hp => exact hp

theorem Within.reachable {P : HeapState δ → Prop} (hr : Within file P s) : Reachable file s := by
  induction hr with
  | create hs hopen hroom hr _ => exact .create hs hopen hroom hr trivial
  | step _ hstep _ ih => exact .step ih hstep trivial

end HeapState

end TurtleDb.Table
