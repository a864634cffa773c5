import TurtleDb.Table.LiveScans
import TurtleDb.Table.Room

/-!
# Inserts under a scan

Between the steps of a scan tuples may come into the table. A scan that has ended does not see them,
nor does one that has passed the hole they fill. Any other scan will read them.
-/

namespace TurtleDb.Buffer.BufferPoolManager

/-- There are numbers and bytes for `n` more pages. -/
def HasRoomFor {δ : Type} (b : BufferPoolManager δ) (n : Nat) : Prop :=
  b.nextPageId + n ≤ invalidPageId ∧
    (b.frameCount ≤ frameLimit ∨ b.nextPageId + n ≤ frameLimit)

variable {δ : Type} {b b' : BufferPoolManager δ} {m n : Nat}

theorem HasRoomFor.hasRoom (h : b.HasRoomFor (n + 1)) : b.HasRoom :=
  ⟨Nat.lt_of_lt_of_le (Nat.lt_add_of_pos_right (Nat.succ_pos n)) h.1,
    h.2.imp_right (Nat.lt_of_lt_of_le (Nat.lt_add_of_pos_right (Nat.succ_pos n)))⟩

/-- Some of the room was used. -/
theorem HasRoomFor.used (h : b.HasRoomFor n) (hframes : b'.frameCount = b.frameCount)
    (hle : b'.nextPageId + m ≤ b.nextPageId + n) : b'.HasRoomFor m :=
  ⟨Nat.le_trans hle h.1, h.2.imp (fun hsmall => hframes ▸ hsmall) (Nat.le_trans hle)⟩

end TurtleDb.Buffer.BufferPoolManager

namespace TurtleDb.Table

open TurtleDb.Lib TurtleDb.Buffer TurtleDb.Buffer.BufferPoolManager TurtleDb.Page

/-- A scan that is at its end or has passed the new entry goes on as before. Any other one will read
it, behind the entry where it stands. -/
theorem Reads.inserted {c c' : PagedTable PageId (List UInt8)} {it : TableIterator}
    {rows : List Entry} {bytes : List UInt8} {x : PageId × Nat} (hr : Reads c it rows)
    (hadds : PagedTable.Adds bytes c x c') (hnodup : (c.map Prod.fst).Nodup)
    (hend : invalidPageId ∉ c'.map Prod.fst) :
    ((∀ e ∈ rows.head?, x.1 = e.1.1 ∧ x.2 < e.1.2) → Reads c' it rows) ∧
      ((∃ e ∈ rows.head?, ¬ (x.1 = e.1.1 ∧ x.2 < e.1.2)) →
        ∃ rows', Reads c' it rows' ∧ rows'.Perm ((x, bytes) :: rows)) := by
  cases rows with
  | nil =>
      refine ⟨fun _ => ⟨?_, hr.recordId, hr.current, hr.finished⟩, fun ⟨e, he, _⟩ => nomatch he⟩
      rw [congrArg RecordId.pageId (hr.finished rfl)]
      exact PagedTable.ahead_of_not_mem hend _
  | cons e rows =>
      obtain ⟨hid, htuple⟩ := hr.current e rows rfl
      have hpage : it.currentId.pageId = e.1.1 := congrArg RecordId.pageId hid
      have hslot : it.currentId.slotNum = e.1.2 := congrArg RecordId.slotNum hid
      have hget := (PagedTable.mem_entries_iff hnodup).mp hr.mem_entries
      obtain ⟨t, ht, hlt⟩ := PagedTable.Place.of_get hget
      have hi : it.currentId.pageId ∈ c.map Prod.fst := by
        rw [hpage]
        exact List.mem_map.mpr ⟨_, ht, rfl⟩
      have hcases := hadds.ahead_cases hnodup hi it.currentId.slotNum
      rw [hr.ahead, hpage, hslot] at hcases
      constructor
      · intro hpassed
        rcases hcases with ⟨_, hahead⟩ | ⟨hno, _⟩
        · exact ⟨by rw [hpage, hslot, hahead], hr.recordId, hr.current, hr.finished⟩
        · exact absurd (hpassed e rfl) hno
      · rintro ⟨e', he', hno⟩
        cases he'
        rcases hcases with ⟨hpassed, _⟩ | ⟨_, hperm⟩
        · exact absurd hpassed hno
        · -- The scan still stands at its entry, so this comes first.
          have hne : (e.1.1, e.1.2) ≠ x := fun he => by
            have hnone := hadds.get_eq_none hnodup
            rw [← he, hget] at hnone
            cases hnone
          have hget' : PagedTable.get c' e.1.1 e.1.2 = some e.2 := by
            rw [hadds.get_eq hnodup, if_neg hne, hget]
          have hahead := PagedTable.ahead_of_live (hadds.nodup hnodup) hget'
          refine ⟨_, ⟨by rw [hpage, hslot], hr.recordId, ?_, ?_⟩, hperm⟩
          · intro e' rest hcons
            rw [hahead] at hcons
            cases hcons
            exact ⟨hid, htuple⟩
          · intro hnil
            rw [hahead] at hnil
            cases hnil

namespace HeapState

variable {δ : Type} [PageDisk δ] [LawfulPageDisk δ]

/-- The heap holds the table `c`. Two frames can be had, and there is room for `n` more pages. -/
structure Spacious (file : FileId) (s : HeapState δ) (c : PagedTable PageId (List UInt8)) (n : Nat) :
    Prop where
  reachable : Reachable file s
  holds : ∃ store l, Holds file s store l ∧ l.contents = c
  two : TwoObtainable s.pool s.held
  room : s.pool.HasRoomFor n

/-- `t` is `s` after pages were read. -/
structure Browsed (file : FileId) (s t : HeapState δ) : Prop where
  same : t = { s with pool := t.pool }
  reachable : Reachable file t
  holds : ∃ store store' l, Holds file s store l ∧ Holds file t store' l
  steady : Steady s.pool t.pool s.held
  next : t.pool.nextPageId = s.pool.nextPageId

variable {file : FileId} {s t : HeapState δ} {store : PageKey → Option PageData} {l : Pages}
  {c pre : PagedTable PageId (List UInt8)} {i : PageId} {slots : SlotTable (List UInt8)}
  {tuple : Tuple} {n : Nat}

theorem Holds.entry_size (hs : Holds file s store l) {e : Entry}
    (he : e ∈ PagedTable.entries l.contents) : 0 < e.2.length ∧ e.2.length ≤ 4064 := by
  obtain ⟨slots, ht, hget⟩ := PagedTable.mem_entries.mp he
  obtain ⟨x, hx, hxe⟩ := List.mem_map.mp ht
  rw [show slots = SlottedPage.slots x.2 from (congrArg Prod.snd hxe).symm] at hget
  exact (hs.chain.pages x hx).1.length_slot hget

theorem Holds.unique (hs : Holds file s store l) {store' : PageKey → Option PageData} {l' : Pages}
    (hs' : Holds file s store' l') : l = l' := hs.stored.linked.unique hs'.stored.linked

theorem Browsed.map (h : Browsed file s t) : t.map = s.map := by rw [h.same]

theorem Browsed.refl (hr : Reachable file s) : Browsed file s s := by
  obtain ⟨store, l, hs⟩ := hr.holds
  exact ⟨rfl, hr, ⟨store, store, l, hs, hs⟩, .refl _ _, rfl⟩

theorem Browsed.trans {u : HeapState δ} (h : Browsed file s t) (h' : Browsed file t u) :
    Browsed file s u := by
  obtain ⟨store, _, l, hs, ht⟩ := h.holds
  obtain ⟨_, store', l', ht', hu⟩ := h'.holds
  obtain rfl := ht.unique ht'
  have hheld : t.held = s.held := by rw [h.same]
  refine ⟨?_, h'.reachable, ⟨store, store', l, hs, hu⟩, h.steady.trans (hheld ▸ h'.steady),
    h'.next.trans h.next⟩
  rw [h'.same, h.same]

theorem Spacious.pageCount_eq (h : Spacious file s c n) : s.pageCount file = c.length := by
  obtain ⟨store, l, hs, rfl⟩ := h.holds
  rw [hs.pageCount_eq, Pages.length_contents]

theorem Spacious.mono (h : Spacious file s c n) {m : Nat} (hle : m ≤ n) : Spacious file s c m :=
  ⟨h.reachable, h.holds, h.two, h.room.used rfl (Nat.add_le_add_left hle _)⟩

theorem Spacious.browsed (h : Spacious file s c n) (hb : Browsed file s t) :
    Spacious file t c n := by
  obtain ⟨store, l, hs, hl⟩ := h.holds
  obtain ⟨_, store', l', hs', ht⟩ := hb.holds
  obtain rfl := hs.unique hs'
  have hheld : t.held = s.held := by rw [hb.same]
  refine ⟨hb.reachable, ⟨store', l, ht, hl⟩, ?_, h.room.used hb.steady.frameCount ?_⟩
  · rw [hheld]
    exact hs.stored.twoObtainable hb.steady h.two
  · rw [hb.next]

theorem Spacious.exists_last (h : Spacious file s c n) : ∃ pre i t, c = pre ++ [(i, t)] := by
  obtain ⟨store, l, hs, rfl⟩ := h.holds
  obtain ⟨pre, p, hl, _⟩ := hs.exists_last
  rw [hl]
  exact ⟨_, _, _, Chain.contents_middle pre _ p []⟩

theorem Spacious.mem_pages (h : Spacious file s c n) {rid : RecordId}
    (hlive : s.map rid ≠ none) : rid.pageId ∈ c.map Prod.fst := by
  obtain ⟨store, l, hs, rfl⟩ := h.holds
  rw [Pages.map_fst_contents, ← hs.mem_handed_iff]
  exact h.reachable.mem_handed hlive

/-- An insert ends the process when the last page has no tuple, and too little space. Otherwise it
succeeds. -/
theorem Spacious.insertTuple (h : Spacious file s (pre ++ [(i, slots)]) (n + 1))
    (hpos : 0 < tuple.data.length) (hmax : tuple.data.length ≤ 4064) :
    ((∃ m, s.heap.insertTuple s.pool tuple = .error (.terminated m)) ∧
        ¬ SlottedPage.Fits slots tuple.data.length ∧ ∀ k, slots.get k = none) ∨
      ∃ rid b h' c', s.heap.insertTuple s.pool tuple = .ok (some rid, b, h') ∧
        s.CanInsert tuple ∧ Spacious file (s.inserted file tuple (some rid) b h') c' n ∧
        PagedTable.Adds tuple.data (pre ++ [(i, slots)]) (rid.pageId, rid.slotNum) c' ∧
        (SlottedPage.Fits slots tuple.data.length ∧ rid.pageId = i ∨
          (¬ SlottedPage.Fits slots tuple.data.length ∧ ∃ k, slots.get k ≠ none) ∧
            rid.pageId ∉ (pre ++ [(i, slots)]).map Prod.fst) := by
  obtain ⟨store, l, hs, hl⟩ := h.holds
  have hle : tuple.data.length ≤ SlottedPage.maxInsertSize := Nat.le_trans hmax (by decide)
  have hroom := h.room.hasRoom
  have hfits : LastFits l tuple.data.length ↔ _ := lastFits_iff hl
  rcases hs.insertTuple tuple hpos hle (.inr hroom) with
    ⟨hterm, hno, hwhy⟩ | ⟨b, _, htwo, _⟩ | ⟨rid, b, h', store', l', he, hst, hs', hadds, hcase⟩
  · rw [hfits] at hno
    have hempty := hwhy.resolve_right (Nat.not_lt.mpr hmax)
    exact .inl ⟨hterm, hno, (lastEmpty_iff hs.chain hl).mp hempty⟩
  · exact absurd h.two htwo
  · have hcan : s.CanInsert tuple := ⟨hpos, hle, .inr hroom⟩
    have hnext : b.nextPageId ≤ s.pool.nextPageId + 1 := by
      rcases hcase with ⟨_, _, hnext⟩ | ⟨_, _, hnext⟩
      · exact hnext ▸ Nat.le_succ _
      · exact Nat.le_of_eq hnext
    refine .inr ⟨rid, b, h', l'.contents, he, hcan, ⟨h.reachable.inserted hcan he,
      ⟨store', l', hs', rfl⟩, hs.stored.twoObtainable hst h.two,
      h.room.used hst.frameCount (Nat.le_trans (Nat.add_le_add_right hnext n) (by omega))⟩,
      hl ▸ hadds, ?_⟩
    rw [hfits, ← Pages.map_fst_contents, hl, lastEmpty_iff hs.chain hl] at hcase
    rcases hcase with ⟨hfit, hmem, _⟩ | ⟨⟨hno, hsome⟩, hrid, _⟩
    · rw [hl] at hadds
      obtain ⟨hplace, _⟩ := hadds.of_mem hmem
      exact .inl ⟨hfit, congrArg Prod.fst hplace⟩
    · refine .inr ⟨⟨hno, not_forall.mp hsome⟩, ?_⟩
      have hfresh := hs.fresh_not_mem
      rwa [← Pages.map_fst_contents, hl, ← hrid] at hfresh

end HeapState

end TurtleDb.Table
