import TurtleDb.Buffer.Sharing
import TurtleDb.Table.Lemmas.Scan

/-!
# What a heap stores

A heap in a pool is a paged table, and its operations are those of the table: an insert adds an
entry, a delete erases one, and reading changes nothing.
-/

namespace TurtleDb.Table

open TurtleDb.Lib TurtleDb.Buffer TurtleDb.Buffer.BufferPoolManager TurtleDb.Page

variable {δ : Type} [PageDisk δ] [LawfulPageDisk δ]

/-- The heap is in the pool, as the pages `l`. -/
structure Stored (b : BufferPoolManager δ) (h : TableHeap) (held : PageKey → Nat)
    (pending : PageKey → Prop) (store : PageKey → Option PageData) (l : Pages) : Prop where
  pool : Pool b held pending store
  chain : Chain h store l
  pins : ∀ k, held k ≠ 2147483647

/-- A new page of the heap would get an id and a frame of its own. -/
structure CanGrow (b : BufferPoolManager δ) (h : TableHeap) (store : PageKey → Option PageData) :
    Prop where
  fresh : store ⟨h.fileId, b.nextPageId⟩ = none
  valid : b.nextPageId < invalidPageId
  room : RoomFor b.frameCount store 1

/-- The last page has room for a tuple of that size. -/
def LastFits (l : Pages) (size : Nat) : Prop :=
  ∃ pre i p, l = pre ++ [(i, p)] ∧ SlottedPage.Fits (SlottedPage.slots p) size

/-- The last page has no tuple. -/
def LastEmpty (l : Pages) : Prop := ∃ pre i p, l = pre ++ [(i, p)] ∧ SlottedPage.tupleCount p = 0

theorem lastFits_concat {pre : Pages} {i : PageId} {p : PageData} {size : Nat} :
    LastFits (pre ++ [(i, p)]) size ↔ SlottedPage.Fits (SlottedPage.slots p) size := by
  constructor
  · rintro ⟨pre', j, q, he, hq⟩
    obtain ⟨_, hx⟩ := List.append_inj' he rfl
    cases hx
    exact hq
  · intro hfits
    exact ⟨pre, i, p, rfl, hfits⟩

theorem lastEmpty_concat {pre : Pages} {i : PageId} {p : PageData} :
    LastEmpty (pre ++ [(i, p)]) ↔ SlottedPage.tupleCount p = 0 := by
  constructor
  · rintro ⟨pre', j, q, he, hq⟩
    obtain ⟨_, hx⟩ := List.append_inj' he rfl
    cases hx
    exact hq
  · intro hzero
    exact ⟨pre, i, p, rfl, hzero⟩

/-- The same on the pool: the last page has the space that the tuple needs. -/
def TableHeap.FitsLast (b : BufferPoolManager δ) (h : TableHeap) (size : Nat) : Prop :=
  ∃ p, b.stored ⟨h.fileId, h.lastPageId⟩ = some p ∧
    SlottedPage.spaceNeeded p size ≤ SlottedPage.usableSpace p

/-- Two frames can be had at once. -/
def TwoObtainable (b : BufferPoolManager δ) (held : PageKey → Nat) : Prop :=
  ∃ f g, Obtainable b held f ∧ Obtainable b held g ∧ f ≠ g

variable {b b' : BufferPoolManager δ} {h h' : TableHeap} {held : PageKey → Nat}
  {pending : PageKey → Prop} {store : PageKey → Option PageData} {l : Pages} {f : FrameId}
  {rid : RecordId}

/-- The pool and heap after a call that made the table `l` into `l'`. -/
structure Leads (b b' : BufferPoolManager δ) (h h' : TableHeap) (held : PageKey → Nat)
    (pending : PageKey → Prop) (store' : PageKey → Option PageData) (l l' : Pages) : Prop where
  stored : Stored b' h' held pending store' l'
  steady : Steady b b' held
  same : SameTable h h'
  recorded : Recorded h l → Recorded h' l'

omit [PageDisk δ] [LawfulPageDisk δ] in
theorem update_ne_none_iff {k k' : PageKey} {p q : PageData} (hk : store k = some p) :
    Function.update store k (some q) k' ≠ none ↔ store k' ≠ none := by
  by_cases hkk : k' = k
  · rw [hkk, hk]
    simp
  · rw [Function.update_of_ne hkk]

omit [PageDisk δ] [LawfulPageDisk δ] in
theorem update_new_ne_none_iff {k k' : PageKey} {q : PageData} :
    Function.update store k (some q) k' ≠ none ↔ store k' ≠ none ∨ k' = k := by
  by_cases hkk : k' = k
  · simp [hkk]
  · rw [Function.update_of_ne hkk]
    simp [hkk]

namespace Stored

theorem linked (hs : Stored b h held pending store l) :
    Linked (fun i => b.stored ⟨h.fileId, i⟩) SlottedPage.getNextPageId invalidPageId
      h.firstPageId l := by
  refine hs.chain.linked.congr fun x hx => ?_
  have hstored := (hs.chain.linked.node_eq hx).1
  exact (hs.pool.stored_eq hstored).trans hstored.symm

theorem first_ne (hs : Stored b h held pending store l) : h.firstPageId ≠ invalidPageId := by
  intro hfirst
  have hlinked := hs.chain.linked
  rw [hfirst] at hlinked
  obtain ⟨pre, p, hl⟩ := hs.chain.exists_last
  rw [hlinked.eq_nil] at hl
  exact absurd hl.symm (List.append_ne_nil_of_right_ne_nil _ (List.cons_ne_nil _ _))

theorem fitsLast_iff (hs : Stored b h held pending store l) {size : Nat}
    (hmax : size ≤ SlottedPage.maxInsertSize) : h.FitsLast b size ↔ LastFits l size := by
  obtain ⟨pre, p, rfl⟩ := hs.chain.exists_last
  have hp := hs.pool.stored_eq hs.chain.stored.1
  rw [lastFits_concat, hs.chain.page.1.fits_iff hmax]
  constructor
  · rintro ⟨q, hq, hroom⟩
    cases hp.symm.trans hq
    exact hroom
  · intro hroom
    exact ⟨p, hp, hroom⟩

theorem twoObtainable (hs : Stored b h held pending store l) (hst : Steady b b' held)
    (ho : TwoObtainable b held) : TwoObtainable b' held := by
  obtain ⟨f, g, hf, hg, hne⟩ := ho
  exact ⟨f, g, hs.pool.obtainable_steady hst hf, hs.pool.obtainable_steady hst hg, hne⟩

/-- An insert ends the process or adds an entry, as long as there are two frames. -/
theorem insertTuple (hs : Stored b h held pending store l) {tuple : Tuple}
    (hpos : 0 < tuple.data.length) (hmax : tuple.data.length ≤ SlottedPage.maxInsertSize)
    (hgrow : ¬ LastFits l tuple.data.length → CanGrow b h store) :
    ((∃ m, h.insertTuple b tuple = .error (.terminated m)) ∧ ¬ LastFits l tuple.data.length ∧
        (LastEmpty l ∨ 4064 < tuple.data.length)) ∨
      (∃ b', h.insertTuple b tuple = .ok (none, b', h) ∧ Kept b b' held pending store ∧
        ¬ TwoObtainable b held) ∨
      ∃ rid b' h' store' l', h.insertTuple b tuple = .ok (some rid, b', h') ∧
        Leads b b' h h' held pending store' l l' ∧
        PagedTable.Adds tuple.data l.contents (rid.pageId, rid.slotNum) l'.contents ∧
        (LastFits l tuple.data.length ∧ rid.pageId ∈ l.map Prod.fst ∧
            b'.nextPageId = b.nextPageId ∧ (∀ k, store' k ≠ none ↔ store k ≠ none) ∨
          (¬ LastFits l tuple.data.length ∧ ¬ LastEmpty l) ∧ rid = ⟨b.nextPageId, 0⟩ ∧
            b'.nextPageId = add32 b.nextPageId 1 ∧
            ∀ k, store' k ≠ none ↔ store k ≠ none ∨ k = ⟨h.fileId, b.nextPageId⟩) := by
  obtain ⟨pre, p, hl⟩ := hs.chain.exists_last
  generalize h.lastPageId = i at hl
  subst hl
  have hi := hs.chain.stored
  have hlastId : i ∉ pre.map Prod.fst := hs.chain.not_mem_before
  have hcontents : ∀ q, Pages.contents (pre ++ [(i, q)]) =
      Pages.contents pre ++ [(i, SlottedPage.slots q)] := fun q => Chain.contents_middle pre i q []
  by_cases hfits : SlottedPage.Fits (SlottedPage.slots p) tuple.data.length
  · rcases hs.chain.insertTuple_fits hs.pool hpos hmax hfits (hs.pins _) with ⟨he, _, hall⟩ |
      ⟨q, b', he, hkept, hchain, hslots⟩
    · refine .inr (.inl ⟨b, he, ⟨hs.pool, .refl _ _, rfl⟩, ?_⟩)
      rintro ⟨f, _, hf, _⟩
      exact hall.not_obtainable hf
    · have hlead : Leads b b' h _ held pending _ (pre ++ [(i, p)]) (pre ++ [(i, q)]) :=
        ⟨⟨hkept.pool, hchain, hs.pins⟩, hkept.steady, ⟨rfl, rfl⟩, fun hr => hr.replace hlastId q⟩
      refine .inr (.inr ⟨_, b', _, _, _, he, hlead, ?_, .inl ⟨?_, ?_, hkept.next, ?_⟩⟩)
      · dsimp only
        rw [hcontents, hcontents, hslots]
        exact .fill _ _ _
      · exact lastFits_concat.mpr hfits
      · simp
      · exact fun _ => update_ne_none_iff hi.1
  · have hlast : ¬ LastFits (pre ++ [(i, p)]) tuple.data.length :=
      fun hfits' => hfits (lastFits_concat.mp hfits')
    obtain ⟨hfresh, hvalid, hroom⟩ := hgrow hlast
    rcases hs.chain.insertTuple_full hs.pool hpos hmax hfits (hs.pins _) hfresh hvalid hroom with
      ⟨m, he, hwhy⟩ | ⟨b', he, hkept, hno⟩ |
      ⟨p', q, b', store', he, hpool, hst, hnext, hstore', hchain, hp', hq, hcount, _⟩
    · exact .inl ⟨⟨m, he⟩, hlast, hwhy.imp_left lastEmpty_concat.mpr⟩
    · refine .inr (.inl ⟨b', he, hkept, ?_⟩)
      rintro ⟨f, g, hf, hg, hne⟩
      exact hne (hno f g hf hg)
    · have hnew : b.nextPageId ∉ (pre ++ [(i, p)]).map Prod.fst := by
        intro hmem
        obtain ⟨x, hx, hxe⟩ := List.mem_map.mp hmem
        have hstored := (hs.chain.linked.node_eq hx).1
        rw [hxe, hfresh] at hstored
        cases hstored
      have hsome : ¬ LastEmpty (pre ++ [(i, p)]) :=
        fun hzero => hcount (lastEmpty_concat.mp hzero)
      refine .inr (.inr ⟨_, b', _, store', _, he, ⟨⟨hpool, hchain, hs.pins⟩, hst, ⟨rfl, rfl⟩,
        fun hr => hr.grow hlastId hnew p' q⟩, ?_, .inr ⟨⟨hlast, hsome⟩, rfl, hnext, ?_⟩⟩)
      · have hfst : b.nextPageId ∉ (Pages.contents (pre ++ [(i, p)])).map Prod.fst := by
          rw [Pages.map_fst_contents]
          exact hnew
        have hsplit : Pages.contents (pre ++ [(i, p'), (b.nextPageId, q)]) =
            Pages.contents (pre ++ [(i, p)]) ++ [(b.nextPageId, [some tuple.data])] := by
          simp [Pages.contents, hp', hq]
        rw [hsplit]
        exact .grow (Pages.contents (pre ++ [(i, p)])) hfst
      · intro k
        rw [hstore', update_new_ne_none_iff, update_ne_none_iff hi.1]

theorem markDelete (hs : Stored b h held pending store l)
    (hrid : PagedTable.Place l.contents (rid.pageId, rid.slotNum)) :
    (h.markDelete b rid = .ok (.ok false, b, h) ∧ AllPinned b held) ∨
      ∃ b' h' store' l', h.markDelete b rid = .ok (.ok true, b', h') ∧
        Leads b b' h h' held pending store' l l' ∧
        l'.contents = PagedTable.erase l.contents (rid.pageId, rid.slotNum) ∧
        b'.nextPageId = b.nextPageId ∧ ∀ k, store' k ≠ none ↔ store k ≠ none := by
  obtain ⟨t, ht, hlt⟩ := hrid
  obtain ⟨⟨i, p⟩, hx, hxe⟩ := List.mem_map.mp ht
  cases hxe
  obtain ⟨pre, post, rfl⟩ := List.append_of_mem hx
  rw [SlottedPage.length_slots] at hlt
  have hi := hs.chain.stored
  rcases hs.chain.markDelete_valid hs.pool hlt (hs.pins _) with hno |
    ⟨q, b', he, hkept, hchain, hslots⟩
  · exact .inl hno
  · have hmid : rid.pageId ∉ pre.map Prod.fst := hs.chain.not_mem_before
    refine .inr ⟨b', _, _, _, he, ⟨⟨hkept.pool, hchain, hs.pins⟩, hkept.steady, ⟨rfl, rfl⟩,
      fun hr => hr.replace hmid q⟩, ?_, hkept.next, fun _ => update_ne_none_iff hi.1⟩
    have hnodup := hs.chain.nodup_contents
    rw [Chain.contents_middle] at hnodup ⊢
    rw [Chain.contents_middle, PagedTable.erase_middle hnodup, hslots]

/-- Behind the slots of a page there is nothing to delete. -/
theorem markDelete_outside (hs : Stored b h held pending store l)
    (hrid : rid.pageId ∈ l.map Prod.fst)
    (hout : ¬ PagedTable.Place l.contents (rid.pageId, rid.slotNum)) :
    (h.markDelete b rid = .ok (.ok false, b, h) ∧ AllPinned b held) ∨
      ∃ m b', h.markDelete b rid = .ok (.error (.raised m), b', h) ∧
        Kept b b' held pending store := by
  obtain ⟨⟨i, p⟩, hx, hxe⟩ := List.mem_map.mp hrid
  cases hxe
  obtain ⟨pre, post, rfl⟩ := List.append_of_mem hx
  refine hs.chain.markDelete_outside hs.pool (s := rid.slotNum) (fun hlt => hout ?_) (hs.pins _)
  refine ⟨SlottedPage.slots p, ?_, by rwa [SlottedPage.length_slots]⟩
  rw [Chain.contents_middle]
  simp

/-- Reading gives the bytes of the entry, or raises where there is none. -/
theorem getTuple (hs : Stored b h held pending store l) (hrid : rid.pageId ∈ l.map Prod.fst)
    (tuple : Tuple) :
    (h.getTuple b rid tuple = .ok (.ok none, b) ∧ AllPinned b held) ∨
      ∃ b', Kept b b' held pending store ∧
        match PagedTable.get l.contents rid.pageId rid.slotNum with
        | some bytes => h.getTuple b rid tuple = .ok (.ok (some { tuple with data := bytes }), b')
        | none => ∃ m, h.getTuple b rid tuple = .ok (.error (.raised m), b') := by
  obtain ⟨⟨i, p⟩, hx, hxe⟩ := List.mem_map.mp hrid
  cases hxe
  have hget := PagedTable.get_of_mem hs.chain.nodup_contents (List.mem_map_of_mem hx)
    (s := rid.slotNum)
  obtain ⟨pre, post, rfl⟩ := List.append_of_mem hx
  cases hslot : (SlottedPage.slots p).get rid.slotNum with
  | some bytes =>
      rw [hslot] at hget
      rcases hs.chain.getTuple_live hs.pool hslot (hs.pins _) tuple with hno | ⟨b', he, hkept⟩
      · exact .inl hno
      · exact .inr ⟨b', hkept, by rw [hget]; exact he⟩
  | none =>
      rw [hslot] at hget
      rcases hs.chain.getTuple_dead hs.pool hslot (hs.pins _) tuple with hno | ⟨m, b', he, hkept⟩
      · exact .inl hno
      · exact .inr ⟨b', hkept, by rw [hget]; exact ⟨m, he⟩⟩

end Stored

end TurtleDb.Table
