import TurtleDb.Table.HeapRuns

/-!
# The pages of other tables

A call of a heap leaves the pages of all other files as they are, in the pool and on the disk. So a
heap that shares the pool with it holds its table as before.
-/

namespace TurtleDb.Table

open TurtleDb.Lib TurtleDb.Buffer TurtleDb.Buffer.BufferPoolManager TurtleDb.Page LawfulPageDisk

variable {δ : Type} [PageDisk δ] [LawfulPageDisk δ] {b b' : BufferPoolManager δ}
  {h h' : TableHeap} {held : PageKey → Nat} {pending : PageKey → Prop}
  {store store' : PageKey → Option PageData} {l : Pages} {k : PageKey} {p : PageData}
  {rid : RecordId} {tuple : Tuple}

/-! ## The calls -/

namespace Stored

theorem insertTuple_elsewhere (hs : Stored b h held pending store l) (hpos : 0 < tuple.data.length)
    (hmax : tuple.data.length ≤ SlottedPage.maxInsertSize)
    (hgrow : ¬ LastFits l tuple.data.length → CanGrow b h store) {r : Option RecordId}
    (he : h.insertTuple b tuple = .ok (r, b', h')) (hk : k.fileId ≠ h.fileId)
    (hp : store k = some p) : b'.stored k = some p := by
  have hne : ∀ j, k ≠ ⟨h.fileId, j⟩ := fun j heq => hk (congrArg PageKey.fileId heq)
  obtain ⟨pre, q, rfl⟩ := hs.chain.exists_last
  by_cases hfits : SlottedPage.Fits (SlottedPage.slots q) tuple.data.length
  · rcases hs.chain.insertTuple_fits hs.pool hpos hmax hfits (hs.pins _) with ⟨he', _⟩ |
      ⟨q', b₁, he', hkept, _⟩
    · cases he'.symm.trans he
      exact hs.pool.stored_eq hp
    · cases he'.symm.trans he
      refine hkept.pool.stored_eq ?_
      rw [Function.update_of_ne (hne _), hp]
  · obtain ⟨hfresh, hvalid, hroom⟩ := hgrow fun hlast => hfits (lastFits_concat.mp hlast)
    rcases hs.chain.insertTuple_full hs.pool hpos hmax hfits (hs.pins _) hfresh hvalid hroom with
      ⟨m, he', _⟩ | ⟨b₁, he', hkept, _⟩ | ⟨p', q', b₁, store', he', hpool, _, _, hstore', _⟩
    · cases he'.symm.trans he
    · cases he'.symm.trans he
      exact hkept.pool.stored_eq hp
    · cases he'.symm.trans he
      refine hpool.stored_eq ?_
      rw [hstore', Function.update_of_ne (hne _), Function.update_of_ne (hne _), hp]

theorem markDelete_elsewhere (hs : Stored b h held pending store l)
    (hrid : rid.pageId ∈ l.map Prod.fst) {r : Except Fault Bool}
    (he : h.markDelete b rid = .ok (r, b', h')) (hk : k.fileId ≠ h.fileId)
    (hp : store k = some p) : b'.stored k = some p := by
  obtain ⟨⟨i, q⟩, hx, hxe⟩ := List.mem_map.mp hrid
  cases hxe
  obtain ⟨pre, post, rfl⟩ := List.append_of_mem hx
  by_cases hslot : rid.slotNum < SlottedPage.slotCount q
  · rcases hs.chain.markDelete_valid hs.pool hslot (hs.pins _) with ⟨he', _⟩ |
      ⟨q', b₁, he', hkept, _⟩
    · cases he'.symm.trans he
      exact hs.pool.stored_eq hp
    · cases he'.symm.trans he
      refine hkept.pool.stored_eq ?_
      rw [Function.update_of_ne (fun heq => hk (congrArg PageKey.fileId heq)), hp]
  · rcases hs.chain.markDelete_outside hs.pool (s := rid.slotNum) hslot (hs.pins _) with
      ⟨he', _⟩ | ⟨m, b₁, he', hkept⟩
    · cases he'.symm.trans he
      exact hs.pool.stored_eq hp
    · cases he'.symm.trans he
      exact hkept.pool.stored_eq hp

end Stored

/-- The first page of a new heap is a new page. -/
theorem create_elsewhere {s : Shared δ} {file : FileId} (hs : Sharing s store)
    (hopen : opened s.pool.diskManager file) (hroom : s.pool.HasRoom)
    (he : TableHeap.create s.pool file = .ok (h, b)) (hp : store k = some p) :
    b.stored k = some p := by
  have hvalid := Nat.ne_of_lt hroom.1
  rcases hs.pool.newPage_written (hs.fresh file) hvalid hopen (hs.roomFor hroom) with ⟨he', _⟩ |
    ⟨f, b₁, he', _, hwrite⟩
  · simp only [TableHeap.create, he', ok_bind] at he
    cases he
  · simp only [TableHeap.create, he', ok_bind, hvalid, if_false] at he
    cases he
    refine (hwrite _).1.stored_eq ?_
    rw [Function.update_of_ne, hp]
    rintro rfl
    cases hp.symm.trans (hs.fresh file)

/-! ## Another heap in the pool -/

theorem sharing_unique {s : Shared δ} (h : Sharing s store) (h' : Sharing s store') :
    store = store' := by
  funext k
  have hiff := (h.handed k).trans (h'.handed k).symm
  cases hp : store k with
  | none => exact (not_not.mp fun hne => hiff.mpr hne hp).symm
  | some p =>
      obtain ⟨p', hp'⟩ := Option.ne_none_iff_exists'.mp (hiff.mp (hp ▸ Option.some_ne_none p))
      rw [hp', ← h.pool.stored_eq hp, ← h'.pool.stored_eq hp']

theorem sharing_reopened {s : Shared δ} (h : Sharing s store) {d : δ}
    (hopen : ∀ file, opened s.pool.diskManager file → opened d file)
    (hcontent : ∀ k, opened s.pool.diskManager k.fileId →
      content d k = content s.pool.diskManager k) :
    Sharing { s with pool := { s.pool with diskManager := d } } store := by
  have hb := h.pool.backs
  refine ⟨⟨⟨hb.structural.congr rfl rfl rfl rfl rfl, hb.low, hb.pinned, hb.unpinned, hb.bytes,
    fun k data hk hclean => ?_, fun k hk => hopen _ (hb.opened k hk), hb.valid, hb.pending_held⟩,
    h.pool.spare, h.pool.room⟩, h.pins, h.handed, h.nodup, h.ids, h.count, h.next_le⟩
  rw [hcontent k (hb.opened k (hk ▸ Option.some_ne_none data))]
  exact hb.on_disk k data hk hclean

namespace HeapState

variable {file : FileId} {s : HeapState δ}

/-- Where the pool shows the pages of the table as before, and no further ones, the table is as
before. -/
theorem Holds.elsewhere (hs : Holds file s store l) {t : Shared δ} (ht : Sharing t store')
    (hpages : ∀ i p, store ⟨file, i⟩ = some p → t.pool.stored ⟨file, i⟩ = some p)
    (hhanded : ∀ i, ⟨file, i⟩ ∈ t.handed ↔ ⟨file, i⟩ ∈ s.handed) :
    Holds file { s with toShared := t } store' l := by
  have hsame : ∀ i, store' ⟨file, i⟩ = store ⟨file, i⟩ := by
    intro i
    have hiff := (ht.handed ⟨file, i⟩).trans ((hhanded i).trans (hs.sharing.handed ⟨file, i⟩).symm)
    cases hp : store ⟨file, i⟩ with
    | none => exact not_not.mp fun hne => hiff.mp hne hp
    | some p =>
        have hne : store' ⟨file, i⟩ ≠ none := hiff.mpr (hp ▸ Option.some_ne_none p)
        obtain ⟨p', hp'⟩ := Option.ne_none_iff_exists'.mp hne
        rw [hp', ← ht.pool.stored_eq hp', hpages i p hp]
  refine ⟨ht, hs.chain.of_same_file fun i => ?_, hs.recorded, hs.fileId,
    fun i hi => hs.complete i (hsame i ▸ hi), hs.map, hs.issued⟩
  rw [hs.fileId]
  exact hsame i

end HeapState

end TurtleDb.Table
