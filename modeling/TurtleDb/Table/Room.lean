import TurtleDb.Table.Lemmas.Led

/-!
# Which inserts find room

`insert_tuple` looks at the last page alone. What does not fit there goes to a new page, unless the
last page has no tuple: then the process ends.
-/

namespace TurtleDb.Table

open TurtleDb.Lib TurtleDb.Buffer TurtleDb.Buffer.BufferPoolManager TurtleDb.Page LawfulPageDisk

namespace HeapState

variable {δ : Type} [PageDisk δ] [LawfulPageDisk δ] {file : FileId} {s : HeapState δ}
  {store : PageKey → Option PageData} {l : Pages} {tuple : Tuple}

/-- Two frames are free or can be evicted. -/
def TwoUnpinned (b : BufferPoolManager δ) : Prop :=
  ∃ f g, b.Unpinned f ∧ b.Unpinned g ∧ f ≠ g

namespace Holds

theorem twoObtainable_iff (hs : Holds file s store l) :
    TwoUnpinned s.pool ↔ TwoObtainable s.pool s.held := by
  unfold TwoUnpinned TwoObtainable
  simp only [hs.sharing.pool.unpinned_iff]

/-- The last page as the pool shows it. -/
theorem exists_last (hs : Holds file s store l) :
    ∃ pre p, l = pre ++ [(s.heap.lastPageId, p)] ∧
      s.pool.stored ⟨file, s.heap.lastPageId⟩ = some p := by
  obtain ⟨pre, p, hl⟩ := hs.chain.exists_last
  refine ⟨pre, p, hl, hs.sharing.pool.stored_eq ?_⟩
  rw [← hs.fileId]
  exact (hs.chain.linked.node_eq (by rw [hl]; simp)).1

end Holds

theorem LedTo.twoUnpinned {P : (RecordId → Option (List UInt8)) → Prop}
    {c : PagedTable PageId (List UInt8)} {n : PageId} (h : LedTo file P s c n) :
    TwoUnpinned s.pool := by
  obtain ⟨store, l, hs, _⟩ := h.holds
  exact hs.twoObtainable_iff.mpr h.two

theorem LedTo.exists_last {P : (RecordId → Option (List UInt8)) → Prop}
    (pre : PagedTable PageId (List UInt8)) {i : PageId} {t : SlotTable (List UInt8)} {n : PageId}
    (h : LedTo file P s (pre ++ [(i, t)]) n) :
    ∃ p, s.pool.stored ⟨file, s.heap.lastPageId⟩ = some p ∧ SlottedPage.slots p = t ∧
      SlottedPage.RepInv p := by
  obtain ⟨store, l, hs, hl⟩ := h.holds
  obtain ⟨pre', p, rfl, hslots⟩ := exists_last_of_contents hl
  obtain ⟨_, q, hlast, hq⟩ := hs.exists_last
  obtain ⟨rfl, hpage⟩ := List.append_inj' hlast rfl
  cases hpage
  exact ⟨p, hq, hslots, hs.chain.page.1⟩

theorem exists_led (file : FileId) :
    ∃ s : HeapState Disk.PageMap, Led file (fun _ => True) s [(0, [])] :=
  Led.create 2 Disk.PageMap.zero trivial (by decide) (by decide) trivial

/-- A client has made page 0 of another file and keeps its pin. Two frames are left. -/
theorem exists_taken : ∃ s : Shared Disk.PageMap, Shared.Reachable 0 s ∧
    s.pool.nextPageId = 1 ∧ s.pool.frameCount = 3 ∧ TwoObtainable s.pool s.held ∧
    s.held = Function.update (fun _ => 0) ⟨1, 0⟩ 1 := by
  have hnew : Shared.Reachable 0 _ := .create 3 Disk.PageMap.zero
  have hroom : (BufferPoolManager.create 3 Disk.PageMap.zero).HasRoom :=
    ⟨(by decide : 0 < invalidPageId), .inl (by decide : trunc32 3 ≤ frameLimit)⟩
  have hfresh := Sharing.create 3 Disk.PageMap.zero
  have hidle : ∀ f < 3, Obtainable (BufferPoolManager.create 3 Disk.PageMap.zero) (fun _ => 0) f :=
    fun f hf => ⟨hf, fun _ _ => rfl⟩
  rcases hfresh.pool.newPage (hfresh.fresh 1) (by decide : (0 : Nat) ≠ invalidPageId) trivial
    (hfresh.roomFor hroom) with ⟨_, hall⟩ | ⟨f, b, he, hp, hf, hnext, hst⟩
  · exact absurd (hidle 0 (by decide)) hall.not_obtainable
  have hother : Others 0 _ _ := .newPage (by decide : (1 : FileId) ≠ 0) trivial hroom he
  have hkeys : ∀ k, Function.update (fun _ => (none : Option PageData)) ⟨1, 0⟩ (some Block.zero) k ≠
      none → k ∈ [(⟨1, 0⟩ : PageKey)] := by
    intro k hk
    rw [List.mem_singleton]
    by_contra hne
    exact hk (Function.update_of_ne hne _ _)
  have hcount : b.frameCount = 3 := hst.frameCount
  have hspare : ∀ g, 1 ≤ g → g < 3 →
      Obtainable b (Function.update (fun _ => 0) ⟨1, 0⟩ 1) g := fun g hle hlt =>
    hp.obtainable_of_le hkeys hle (hcount ▸ hlt)
  exact ⟨_, .others hnew hother, hnext, hcount,
    ⟨1, 2, hspare 1 (by decide) (by decide), hspare 2 (by decide) (by decide), by decide⟩, rfl⟩

/-- The heap beside that page has live and deleted tuples on the pages 1 and 2. -/
theorem exists_used : ∃ (s : HeapState Disk.PageMap) (long : List UInt8), long.length = 4040 ∧
    LedTo 0 (fun _ => True) s (used 1 long) 3 ∧ ⟨2, 1⟩ ∈ s.issued ∧
    s.held = Function.update (fun _ => 0) ⟨1, 0⟩ 1 := by
  obtain ⟨s, hs, hnext, hcount, htwo, hheld⟩ := exists_taken
  have hlen : (List.replicate 4040 (0 : UInt8)).length = 4040 := List.length_replicate
  obtain ⟨s₀, h₀, hheld₀⟩ := LedTo.create hs trivial htwo (by rw [hcount]; decide)
    (by rw [hnext]; decide) (P := fun _ => True) trivial
  rw [hnext] at h₀
  obtain ⟨s₁, hheld₁, hissued, h₁⟩ := LedTo.exists_used hlen (by decide) h₀
  exact ⟨s₁, _, hlen, h₁, hissued, by rw [hheld₁, hheld₀, hheld]⟩

/-- With two frames to be had, an insert of a tuple that an empty page can hold succeeds exactly if
the last page has the space for it or still has a tuple. Otherwise the process ends. -/
theorem insertTuple_true_iff (file : FileId) (s : HeapState δ) (tuple : Tuple)
    (hr : Reachable file s) (hpos : 1 ≤ tuple.storageSize) (hmax : tuple.storageSize ≤ 4064)
    (htwo : TwoUnpinned s.pool) (hroom : s.pool.HasRoom) :
    ∃ p, s.pool.stored ⟨file, s.heap.lastPageId⟩ = some p ∧
      ((∃ rid b h, s.heap.insertTuple s.pool tuple = .ok (some rid, b, h)) ↔
        SlottedPage.spaceNeeded p tuple.storageSize ≤ SlottedPage.usableSpace p ∨
          SlottedPage.tupleCount p ≠ 0) ∧
      ((∃ m, s.heap.insertTuple s.pool tuple = .error (.terminated m)) ↔
        ¬ (SlottedPage.spaceNeeded p tuple.storageSize ≤ SlottedPage.usableSpace p ∨
          SlottedPage.tupleCount p ≠ 0)) := by
  obtain ⟨store, l, hs⟩ := hr.holds
  obtain ⟨pre, p, hl, hp⟩ := hs.exists_last
  have hle : tuple.data.length ≤ SlottedPage.maxInsertSize := Nat.le_trans hmax (by decide)
  have hfits : LastFits l tuple.data.length ↔
      SlottedPage.spaceNeeded p tuple.storageSize ≤ SlottedPage.usableSpace p := by
    rw [← hs.stored.fitsLast_iff hle, TableHeap.FitsLast, hs.fileId, hp]
    simp [Tuple.storageSize]
  have hempty : SlottedPage.tupleCount p ≠ 0 ↔ ¬ LastEmpty l := by
    rw [hl]
    exact lastEmpty_concat.not.symm
  refine ⟨p, hp, ?_⟩
  rw [← hfits, hempty]
  rcases hs.insertTuple tuple hpos hle (.inr hroom) with ⟨⟨m, he⟩, hno, hwhy⟩ | ⟨b, _, hno, _⟩ |
    ⟨rid, b, h, _, _, he, _, _, _, hcase⟩
  · have hzero : LastEmpty l := hwhy.resolve_right (Nat.not_lt.mpr hmax)
    simp [he, hno, hzero]
  · exact absurd (hs.twoObtainable_iff.mp htwo) hno
  · have hok : LastFits l tuple.data.length ∨ ¬ LastEmpty l := hcase.imp And.left fun h => h.1.2
    simp [he, hok]

theorem insertTuple_true_iff_used : ∃ (s : HeapState Disk.PageMap) (long : List UInt8),
    Reachable 0 s ∧ s.map = mapOf (used 1 long) ∧
      (∃ rid b h, s.heap.insertTuple s.pool ⟨[1], .invalid⟩ = .ok (some rid, b, h)) ∧
      ∃ rid b h, s.heap.insertTuple s.pool ⟨long, .invalid⟩ = .ok (some rid, b, h) := by
  obtain ⟨s, long, hlen, hs, _⟩ := exists_used
  obtain ⟨p, hp, hslots, hinv⟩ := LedTo.exists_last [(1, [none, some [2], some [3]])] hs
  have hroom := hs.hasRoom (by decide)
  refine ⟨s, long, hs.reachable, hs.map, ?_, ?_⟩
  · obtain ⟨q, hq, hiff, _⟩ := insertTuple_true_iff 0 s ⟨[1], .invalid⟩ hs.reachable (by decide)
      (by decide) hs.twoUnpinned hroom
    cases hp.symm.trans hq
    refine hiff.mpr (.inl ((hinv.fits_iff (by decide : 1 ≤ SlottedPage.maxInsertSize)).mp ?_))
    rw [hslots]
    exact (fits_used hlen).mpr (by decide)
  · obtain ⟨q, hq, hiff, _⟩ := insertTuple_true_iff 0 s ⟨long, .invalid⟩ hs.reachable
      (hlen ▸ (by decide) : 1 ≤ long.length) (hlen ▸ (by decide) : long.length ≤ 4064)
      hs.twoUnpinned hroom
    cases hp.symm.trans hq
    refine hiff.mpr (.inr fun hzero => ?_)
    have hnone := (tupleCount_eq_zero_iff hinv).mp hzero 0
    rw [hslots] at hnone
    cases hnone

/-- Two tuples are inserted and deleted. The page has 4056 bytes to use then, and no tuple. -/
theorem insertTuple_ends_process : ∃ s : HeapState Disk.PageMap, Reachable 0 s ∧
    TwoUnpinned s.pool ∧ s.pool.HasRoom ∧
      ∃ m, s.heap.insertTuple s.pool ⟨List.replicate 4064 0, .invalid⟩ = .error (.terminated m) := by
  obtain ⟨s₀, h₀⟩ := exists_led 0
  obtain ⟨s₁, h₁⟩ := Led.insert [] [1] [(0, [some [1]])] h₀ (by decide) (by decide)
    (fun _ => by decide) (.inl (by decide)) (by decide) trivial
  obtain ⟨s₂, h₂⟩ := Led.insert [] [1] [(0, [some [1], some [1]])] h₁ (by decide) (by decide)
    (fun _ => by decide) (.inl (by decide)) (by decide) trivial
  obtain ⟨s₃, h₃⟩ := h₂.delete ⟨0, 0⟩ [(0, [none, some [1]])]
    ⟨_, List.mem_singleton.mpr rfl, by decide⟩ (by decide) trivial
  obtain ⟨s₄, h₄⟩ := h₃.delete ⟨0, 1⟩ [(0, [none, none])]
    ⟨_, List.mem_singleton.mpr rfl, by decide⟩ (by decide) trivial
  refine ⟨s₄, h₄.reachable, h₄.twoUnpinned, h₄.hasRoom (by decide), ?_⟩
  have hlen : (List.replicate 4064 (0 : UInt8)).length = 4064 := List.length_replicate
  refine LedTo.terminates [] h₄ ?_ ?_ (by decide) ?_ ?_
  · rw [hlen]
    decide
  · rw [hlen]
  · rw [hlen]
    decide
  · rintro (_ | _ | k) <;> rfl

end HeapState

end TurtleDb.Table
