import TurtleDb.Lib.Cursor
import TurtleDb.Table.LiveScans
import TurtleDb.Table.Room

/-!
# Iterators over a heap in use

While an iterator goes over a heap, the heap's clients insert and delete, and other clients use the
pool. Whatever the order, the iterator is a cursor over the table in the pages.
-/

namespace TurtleDb.Table

open TurtleDb.Lib TurtleDb.Buffer TurtleDb.Buffer.BufferPoolManager TurtleDb.Page

/-- The iterator has loaded the entry, or is at the end. -/
structure LoadedAt (it : TableIterator) (at? : Option Entry) : Prop where
  recordId : it.currentTuple.recordId = .invalid
  current : ∀ e ∈ at?, it.currentId = e.rid ∧ it.currentTuple = e.tuple
  finished : at? = none → it.currentId = TableHeap.finish

theorem Reads.loadedAt {c : PagedTable PageId (List UInt8)} {it : TableIterator}
    {rows : List Entry} (hr : Reads c it rows) : LoadedAt it rows.head? where
  recordId := hr.recordId
  current e he := by
    obtain ⟨rest, rfl⟩ := List.head?_eq_some_iff.mp (Option.mem_def.mp he)
    exact hr.current e rest rfl
  finished he := hr.finished (List.head?_eq_none_iff.mp he)

theorem Entry.mapOf_rid {c : PagedTable PageId (List UInt8)} {e : Entry}
    (hnodup : (c.map Prod.fst).Nodup) :
    HeapState.mapOf c e.rid = some e.2 ↔ e ∈ PagedTable.entries c :=
  (PagedTable.mem_entries_iff hnodup).symm

variable {δ : Type} [PageDisk δ] [LawfulPageDisk δ]

/-- `operator++` goes on behind the entry that was loaded, whether it is still there or not. -/
theorem Chain.increment_behind {b : BufferPoolManager δ} {held : PageKey → Nat}
    {pending : PageKey → Prop} {store : PageKey → Option PageData} {h : TableHeap} {l : Pages}
    {it : TableIterator} {e : Entry} {n fuel : Nat} (hp : Pool b held pending store)
    (hc : Chain h store l) (hheld : ∀ k, held k ≠ 2147483647)
    (hserved : Served b h.fileId (n + 1) ⟨it.currentId.pageId, add32 it.currentId.slotNum 1⟩)
    (hplace : PagedTable.Place l.contents e.1) (hat : LoadedAt it (some e)) (hfuel : l.length < fuel) :
    ∃ it' b', it.increment fuel h b = .ok (it', b') ∧ Kept b b' held pending store ∧
      Reads l.contents it' (PagedTable.ahead l.contents e.1.1 (e.1.2 + 1)) := by
  obtain ⟨t, ht, hlt⟩ := hplace
  obtain ⟨⟨i, p⟩, hx, hxe⟩ := List.mem_map.mp ht
  obtain ⟨rfl, rfl⟩ := Prod.mk.inj hxe
  obtain ⟨pre, post, rfl⟩ := List.append_of_mem hx
  obtain ⟨hid, _⟩ := hat.current e rfl
  have hslot : e.1.2 < SlottedPage.slotCount p := by rwa [SlottedPage.length_slots] at hlt
  have hadd : add32 e.1.2 1 = e.1.2 + 1 := by
    have := hc.page.1.slotCount_le
    exact Nat.mod_eq_of_lt (by rw [SlottedPage.word32_eq]; omega)
  rw [hid, Entry.rid, hadd] at hserved
  have hnext : ({ it with currentId := { it.currentId with
      slotNum := add32 it.currentId.slotNum 1 } } : TableIterator).currentId = ⟨e.1.1, e.1.2 + 1⟩ := by
    simp only [hid, Entry.rid, hadd]
  have hless : post.length + 1 < fuel := by
    simp only [List.length_append, List.length_cons] at hfuel
    omega
  obtain ⟨it', b', hr, hkept, hreads, _⟩ :=
    hc.advanceToValid hp hheld hserved hnext hat.recordId hless
  exact ⟨it', b', hr, hkept, hreads⟩

namespace HeapState

/-- The runs of an iterator from `begin` on while the heap is in use, with what it has visited, and
the maps of the heap since. It never asks for a page that cannot be read. -/
inductive Browsing (file : FileId) (s : HeapState δ) (fuel : Nat) : HeapState δ → TableIterator →
    List (RecordId × Tuple) → List (RecordId → Option (List UInt8)) → Prop where
  | start {it b} (hserved : Served s.pool file 1 ⟨s.heap.firstPageId, 0⟩)
      (hr : s.heap.start fuel s.pool = .ok (it, b)) :
      Browsing file s fuel { s with pool := b } it [] [s.map]
  | step {t t' it visited past} (h : Browsing file s fuel t it visited past)
      (hs : Step file t t') : Browsing file s fuel t' it visited (t'.map :: past)
  | increment {t it visited past it' b} (h : Browsing file s fuel t it visited past)
      (hne : it.currentId ≠ TableHeap.finish)
      (hserved : Served t.pool file 1 ⟨it.currentId.pageId, add32 it.currentId.slotNum 1⟩)
      (hr : it.increment fuel t.heap t.pool = .ok (it', b)) :
      Browsing file s fuel { t with pool := b } it' (visited ++ [(it.currentId, it.currentTuple)])
        past

omit [LawfulPageDisk δ] in
/-- No record id comes twice, and each comes with a tuple that was live there. At the end every tuple
that was live all the while has come. Before it the next step returns. -/
structure Stable (file : FileId) (fuel : Nat) (t : HeapState δ) (it : TableIterator)
    (visited : List (RecordId × Tuple)) (past : List (RecordId → Option (List UInt8))) : Prop where
  once : (visited.map Prod.fst).Nodup
  bounded : visited.length ≤ t.slotCount file
  genuine : ∀ r ∈ visited, ∃ m ∈ past, m r.1 = some r.2.data
  complete : it.currentId = TableHeap.finish → ∀ rid bytes, (∀ m ∈ past, m rid = some bytes) →
    ∃ r ∈ visited, r.1 = rid ∧ r.2.data = bytes
  current : it.currentId ≠ TableHeap.finish →
    it.currentId ∉ visited.map Prod.fst ∧ ∃ m ∈ past, m it.currentId = some it.currentTuple.data
  goesOn : it.currentId ≠ TableHeap.finish → t.pageCount file < fuel →
    Served t.pool file 1 ⟨it.currentId.pageId, add32 it.currentId.slotNum 1⟩ →
      ∃ it' b, it.increment fuel t.heap t.pool = .ok (it', b)

/-- The iterator is a cursor over the pages of the heap. -/
structure Follows (file : FileId) (t : HeapState δ) (it : TableIterator)
    (visited : List (RecordId × Tuple)) (past : List (RecordId → Option (List UInt8)))
    (store : PageKey → Option PageData) (l : Pages) (first : PagedTable PageId (List UInt8))
    (at? : Option Entry) (seen : List Entry) (tables : List (PagedTable PageId (List UInt8))) :
    Prop where
  holds : Holds file t store l
  nodup : (first.map Prod.fst).Nodup
  cursor : PagedTable.Cursor first l.contents at? seen tables
  loaded : LoadedAt it at?
  visited : visited = seen.map Entry.row
  past : past = tables.map mapOf

variable {file : FileId} {s t t' : HeapState δ} {b : BufferPoolManager δ} {it it' : TableIterator}
  {visited : List (RecordId × Tuple)} {past : List (RecordId → Option (List UInt8))}
  {store : PageKey → Option PageData} {l : Pages} {first : PagedTable PageId (List UInt8)}
  {at? : Option Entry} {seen : List Entry} {tables : List (PagedTable PageId (List UInt8))}
  {fuel : Nat}

theorem Holds.map_eq (hs : Holds file s store l) : s.map = mapOf l.contents := funext hs.map

namespace Follows

theorem sweeps (h : Follows file t it visited past store l first at? seen tables) :
    PagedTable.Cursor.Sweeps l.contents at? seen tables := h.cursor.sweeps h.nodup

theorem step (h : Follows file t it visited past store l first at? seen tables)
    (hs : Step file t t') :
    ∃ store' l' tables', Follows file t' it visited (t'.map :: past) store' l' first at? seen
      tables' := by
  obtain ⟨store', l', hs', heffect⟩ := h.holds.step hs
  have hchange : PagedTable.Change l.contents l'.contents := by
    cases heffect with
    | same hsame =>
        rw [hsame]
        exact .same
    | adds hadds _ => exact .adds hadds
    | erases herases =>
        rw [herases]
        exact .erases _
  refine ⟨store', l', _, hs', h.nodup, .change h.cursor hchange, h.loaded, h.visited, ?_⟩
  rw [h.past, hs'.map_eq]
  rfl

theorem increment {e : Entry}
    (h : Follows file t it visited past store l first (some e) seen tables) (hfuel : l.length < fuel)
    (hserved : Served t.pool file 1 ⟨it.currentId.pageId, add32 it.currentId.slotNum 1⟩) :
    ∃ it' b, it.increment fuel t.heap t.pool = .ok (it', b) ∧
      Kept t.pool b t.held t.writing store ∧
      Follows file { t with pool := b } it' (visited ++ [(it.currentId, it.currentTuple)]) past store
        l first (PagedTable.ahead l.contents e.1.1 (e.1.2 + 1)).head? (seen ++ [e]) tables := by
  have hs := h.holds
  rw [← hs.fileId] at hserved
  obtain ⟨it', b, hr, hkept, hreads⟩ := hs.chain.increment_behind hs.sharing.pool hs.stored.pins
    hserved (h.sweeps.places e (by simp)) h.loaded hfuel
  refine ⟨it', b, hr, hkept, hs.of_kept hkept, h.nodup, .next h.cursor, hreads.loadedAt, ?_, h.past⟩
  obtain ⟨hid, htuple⟩ := h.loaded.current e rfl
  rw [h.visited, hid, htuple, List.map_append]
  rfl

theorem ne_finish {e : Entry}
    (h : Follows file t it visited past store l first (some e) seen tables) :
    it.currentId ≠ TableHeap.finish := by
  intro hfin
  have hpage := (h.sweeps.places e (by simp)).page
  rw [(h.loaded.current e rfl).1] at hfin
  rw [show e.1.1 = invalidPageId from congrArg RecordId.pageId hfin] at hpage
  exact h.holds.chain.invalid_not_mem hpage

theorem stable (h : Follows file t it visited past store l first at? seen tables) :
    Stable file fuel t it visited past := by
  have hsweeps := h.sweeps
  have hlive : ∀ e ∈ seen ++ at?.toList, ∃ m ∈ past, m e.rid = some e.2 := by
    intro e he
    obtain ⟨p, hp, hmem⟩ := hsweeps.genuine e he
    rw [h.past]
    exact ⟨_, List.mem_map.mpr ⟨p, hp, rfl⟩, (Entry.mapOf_rid (hsweeps.nodup p hp)).mpr hmem⟩
  have hrids : ((seen ++ at?.toList).map Entry.rid).Nodup := by
    have hplaces := hsweeps.nodup_places
    unfold List.Nodup at hplaces ⊢
    rw [List.pairwise_map] at hplaces ⊢
    refine hplaces.imp fun hne he => hne ?_
    obtain ⟨hi, hj⟩ := RecordId.mk.inj he
    exact Prod.ext hi hj
  have hfst : visited.map Prod.fst = seen.map Entry.rid := by
    rw [h.visited, List.map_map]
    rfl
  rw [List.map_append] at hrids
  refine ⟨?_, ?_, ?_, ?_, ?_, ?_⟩
  · rw [hfst]
    exact (List.nodup_append'.mp hrids).1
  · have hnodup := hsweeps.nodup_places
    rw [List.map_append] at hnodup
    have hle : (seen.map Prod.fst).length ≤ (l.contents.map fun p => p.2.length).sum :=
      PagedTable.length_le_of_places (List.nodup_append'.mp hnodup).1 fun x hx => by
        obtain ⟨e, he, rfl⟩ := List.mem_map.mp hx
        exact hsweeps.places e (List.mem_append_left _ he)
    rw [List.length_map] at hle
    rwa [h.visited, List.length_map, h.holds.slotCount_eq]
  · intro r hr
    rw [h.visited] at hr
    obtain ⟨e, he, rfl⟩ := List.mem_map.mp hr
    exact hlive e (List.mem_append_left _ he)
  · intro hfin rid bytes hall
    cases at? with
    | some e => exact absurd hfin h.ne_finish
    | none =>
        have hmem : (((rid.pageId, rid.slotNum), bytes) : Entry) ∈ seen :=
          hsweeps.finished fun p hp => (Entry.mapOf_rid (hsweeps.nodup p hp)).mp
            (hall _ (h.past ▸ List.mem_map.mpr ⟨p, hp, rfl⟩))
        exact ⟨_, h.visited ▸ List.mem_map.mpr ⟨_, hmem, rfl⟩, rfl, rfl⟩
  · intro hne
    cases at? with
    | none => exact absurd (h.loaded.finished rfl) hne
    | some e =>
        obtain ⟨hid, htuple⟩ := h.loaded.current e rfl
        rw [hid, htuple, hfst]
        exact ⟨fun hmem => (List.nodup_append'.mp hrids).2.2 hmem (List.mem_singleton.mpr rfl),
          hlive e (by simp)⟩
  · intro hne hfuel hserved
    cases at? with
    | none => exact absurd (h.loaded.finished rfl) hne
    | some e =>
        rw [h.holds.pageCount_eq] at hfuel
        obtain ⟨it', b, hr, _⟩ := h.increment hfuel hserved
        exact ⟨it', b, hr⟩

end Follows

theorem Browsing.follows (hr : Reachable file s) (h : Browsing file s fuel t it visited past) :
    ∃ store l first at? seen tables,
      Follows file t it visited past store l first at? seen tables := by
  induction h with
  | @start it b hserved hstart =>
      obtain ⟨store, l, hs⟩ := hr.holds
      rw [← hs.fileId] at hserved
      obtain ⟨it', b', he, hkept, hreads, _⟩ := hs.chain.start hs.sharing.pool hs.stored.pins
        hserved (show l.length < max fuel (l.length + 1) by omega)
      cases he.symm.trans (TableHeap.start_mono hstart (Nat.le_max_left _ _))
      refine ⟨store, l, _, _, _, _, hs.of_kept hkept, hs.nodup, .start, hreads.loadedAt, rfl, ?_⟩
      rw [hs.map_eq]
      rfl
  | step _ hs ih =>
      obtain ⟨store, l, first, at?, seen, tables, h⟩ := ih
      obtain ⟨store', l', tables', h'⟩ := h.step hs
      exact ⟨store', l', first, at?, seen, tables', h'⟩
  | @increment t it visited past it' b _ hne hserved hrun ih =>
      obtain ⟨store, l, first, at?, seen, tables, h⟩ := ih
      cases at? with
      | none => exact absurd (h.loaded.finished rfl) hne
      | some e =>
          obtain ⟨it₁, b₁, he, _, h'⟩ := h.increment
            (show l.length < max fuel (l.length + 1) by omega) hserved
          cases he.symm.trans (TableIterator.increment_mono hrun (Nat.le_max_left _ _))
          exact ⟨store, l, first, _, _, tables, h'⟩

/-- Whatever is inserted and deleted under an iterator, it visits no record id twice and nothing that
was not there, and everything that stays. -/
theorem cursor_stable (file : FileId) (s t : HeapState δ) (fuel : Nat) (it : TableIterator)
    (visited : List (RecordId × Tuple)) (past : List (RecordId → Option (List UInt8)))
    (hr : Reachable file s) (h : Browsing file s fuel t it visited past) :
    Stable file fuel t it visited past := by
  obtain ⟨store, l, first, at?, seen, tables, hfollows⟩ := h.follows hr
  exact hfollows.stable

/-- The first of two tuples is deleted while the iterator is at it. -/
theorem cursor_stable_deleted : ∃ (s t : HeapState Disk.PageMap) (it : TableIterator)
    (past : List (RecordId → Option (List UInt8))), Reachable 0 s ∧ t.map ⟨0, 0⟩ = none ∧
      it.currentId = TableHeap.finish ∧
      Stable 0 2 t it [(⟨0, 0⟩, ⟨[1], .invalid⟩), (⟨0, 1⟩, ⟨[2], .invalid⟩)] past := by
  obtain ⟨s₀, hled⟩ := exists_led 0
  obtain ⟨s₁, hled₁⟩ := Led.insert [] [1] [(0, [some [1]])] hled (by decide) (by decide)
    (fun _ => by decide) (.inl (by decide)) (by decide) trivial
  obtain ⟨s, h⟩ := Led.insert [] [2] [(0, [some [1], some [2]])] hled₁ (by decide) (by decide)
    (fun _ => by decide) (.inl (by decide)) (by decide) trivial
  obtain ⟨store, l, hs, hl⟩ := h.holds
  have hfull : ¬ Full s.pool := by
    obtain ⟨f, _, hf, _⟩ := h.two
    exact hs.sharing.pool.not_full_iff.mpr ⟨f, hf⟩
  have hlen : l.length < 2 := by
    rw [← Pages.length_contents, hl]
    decide
  -- `begin` is at the first tuple.
  obtain ⟨it, b, hstart, hkept, hreads, _⟩ := hs.chain.start (n := 0) hs.sharing.pool hs.stored.pins
    (.frame hfull) hlen
  have hfull₁ := hs.sharing.pool.not_full_steady hkept.pool hkept.steady hfull
  have h₁ : Browsing 0 s 2 _ it [] _ := .start (.frame hfull) hstart
  have hs₁ := hs.of_kept hkept
  have hlive : s.map ⟨0, 0⟩ = some [1] := by
    rw [hs.map_eq, hl]
    rfl
  -- It is deleted.
  obtain ⟨b₂, heap, store', l', he, hst, hs₂, hl'⟩ := hs₁.markDelete_live
    (.inl hfull₁) (show s.map ⟨0, 0⟩ ≠ none from hlive ▸ Option.some_ne_none _)
  have hfull₂ := hs₁.sharing.pool.not_full_steady hs₂.sharing.pool hst hfull₁
  have hmem : (0 : PageId) ∈ l.map Prod.fst := by
    rw [← Pages.map_fst_contents, hl]
    decide
  have h₂ := Browsing.step h₁ (.markDelete (hs₁.mem_handed_iff.mpr hmem) he)
  have hl₂ : l'.contents = [(0, [none, some [2]])] := by
    rw [hl', hl]
    rfl
  have hlen₂ : l'.length < 2 := by
    rw [← Pages.length_contents, hl₂]
    decide
  rw [hl] at hreads
  have hfollows : Follows 0 (({ s with pool := b } : HeapState Disk.PageMap).deleted ⟨0, 0⟩
      (.ok true) b₂ heap) it [] _ store' l' [(0, [some [1], some [2]])] (some ((0, 0), [1])) []
      [[(0, [none, some [2]])], [(0, [some [1], some [2]])]] :=
    ⟨hs₂, by decide, by rw [hl₂]; exact .change .start (.erases (0, 0)), hreads.loadedAt, rfl,
      congrArg₂ (fun m m' => [m, m']) (hs₂.map_eq.trans (congrArg mapOf hl₂))
        (hs.map_eq.trans (congrArg mapOf hl))⟩
  -- The iterator goes on to the second, and to the end.
  obtain ⟨it₂, b₃, he₂, hkept₂, hfollows₂⟩ := hfollows.increment hlen₂ (.frame hfull₂)
  have h₃ := Browsing.increment h₂ hfollows.ne_finish (.frame hfull₂) he₂
  have hfull₃ := hs₂.sharing.pool.not_full_steady hkept₂.pool hkept₂.steady hfull₂
  rw [hl₂] at hfollows₂
  have hfollows₂ : Follows _ _ _ _ _ _ _ _ (some ((0, 1), [2])) _ _ := hfollows₂
  obtain ⟨it₃, b₄, he₃, _, hfollows₃⟩ := hfollows₂.increment hlen₂ (.frame hfull₃)
  have h₄ := Browsing.increment h₃ hfollows₂.ne_finish (.frame hfull₃) he₃
  rw [hl₂] at hfollows₃
  obtain ⟨hid, htuple⟩ := hfollows.loaded.current _ rfl
  obtain ⟨hid₂, htuple₂⟩ := hfollows₂.loaded.current _ rfl
  have hstable := cursor_stable 0 s _ 2 it₃ _ _ h.reachable h₄
  rw [hid, htuple, hid₂, htuple₂] at hstable
  have hgone : Function.update s.map ⟨0, 0⟩ none ⟨0, 0⟩ = none := Function.update_self _ _ _
  exact ⟨s, _, it₃, _, h.reachable, hgone, hfollows₃.loaded.finished rfl, hstable⟩

end HeapState

end TurtleDb.Table
