import TurtleDb.Buffer.FullPool
import TurtleDb.Buffer.Lemmas.Pool

/-!
# A pool with other clients

The owner of one file's pages shares the pool with clients that work on other files. They take and
give back frames at any time, and may hold pins on the owner's pages too.
-/

namespace TurtleDb.Buffer

open TurtleDb.Lib BufferPoolManager LawfulPageDisk

/-- A pool with the pages it has handed out, the pins its other clients hold, and the pages these
have changed and still have to unpin as dirty. -/
structure Shared (δ : Type) where
  pool : BufferPoolManager δ
  handed : List PageKey
  held : PageKey → Nat
  writing : PageKey → Prop

namespace BufferPoolManager

variable {δ : Type}

/-- One more new page gets a number of its own, and bytes that are not those of another frame in
use. -/
def HasRoom (b : BufferPoolManager δ) : Prop :=
  b.nextPageId < invalidPageId ∧ (b.frameCount ≤ frameLimit ∨ b.nextPageId < frameLimit)

/-- The bytes of a page: those of its frame, or else those on the disk. -/
def stored [PageDisk δ] [LawfulPageDisk δ] (b : BufferPoolManager δ) (k : PageKey) :
    Option PageData :=
  match b.pageTable k with
  | some f => some (b.data f)
  | none => content b.diskManager k

/-- A frame without a pin: a free one, or one that can be evicted. -/
def Unpinned (b : BufferPoolManager δ) (f : FrameId) : Prop :=
  f < b.frameCount ∧ (b.pages f).pinCount = 0

end BufferPoolManager

variable {δ : Type} [PageDisk δ] [LawfulPageDisk δ]

/-- What a client does that leaves the pages of `file` alone. A request that finds no frame changes
nothing, and is not listed. -/
inductive Others (file : FileId) : Shared δ → Shared δ → Prop where
  | newPage {s b other f page} (hother : other ≠ file) (hopen : opened s.pool.diskManager other)
      (hroom : s.pool.HasRoom) (hr : s.pool.newPage other = .ok (some (f, page), b)) :
      Others file s { s with
        pool := b
        handed := ⟨other, page⟩ :: s.handed
        held := Function.update s.held ⟨other, page⟩ 1 }
  /-- `read_page` or `write_page`, with the guard. -/
  | fetchPage {s b k f} (hk : k ∈ s.handed) (hmax : s.held k + 1 < 2147483647)
      (hr : s.pool.fetchPage k.fileId k.pageId = .ok (some f, b)) :
      Others file s { s with pool := b, held := Function.update s.held k (s.held k + 1) }
  | change {s k f} (hother : k.fileId ≠ file) (hheld : 0 < s.held k)
      (hf : s.pool.pageTable k = some f) (data : PageData) :
      Others file s { s with
        pool := s.pool.setData f data
        writing := fun k' => k' = k ∨ s.writing k' }
  | unpinPage {s k} (isDirty : Bool) (hheld : 0 < s.held k)
      (hdirty : s.writing k → isDirty = true ∨ 1 < s.held k) :
      Others file s { s with
        pool := (s.pool.unpinPage k.fileId k.pageId isDirty).2
        held := Function.update s.held k (s.held k - 1)
        writing := fun k' => s.writing k' ∧ ¬ (k' = k ∧ isDirty = true) }
  | flushPage {s b r} (k : PageKey) (hr : s.pool.flushPage k.fileId k.pageId = .ok (r, b)) :
      Others file s { s with pool := b }
  | flushAllPages {s b} (hr : s.pool.flushAllPages = .ok b) : Others file s { s with pool := b }

/-- The pools in which `file` has no page yet. -/
inductive Shared.Reachable (file : FileId) : Shared δ → Prop where
  | create (poolSize : Nat) (d : δ) :
      Reachable file ⟨BufferPoolManager.create poolSize d, [], fun _ => 0, fun _ => False⟩
  | others {s t} (h : Reachable file s) (ho : Others file s t) : Reachable file t

theorem Others.not_writing {file : FileId} {s t : Shared δ} (ho : Others file s t)
    (h : ∀ k, s.writing k → k.fileId ≠ file) {k : PageKey} (hk : t.writing k) :
    k.fileId ≠ file := by
  cases ho with
  | change hother _ _ _ =>
      rcases hk with rfl | hk
      · exact hother
      · exact h k hk
  | unpinPage _ _ _ => exact h k hk.1
  | newPage _ _ _ _ => exact h k hk
  | fetchPage _ _ _ => exact h k hk
  | flushPage _ _ => exact h k hk
  | flushAllPages _ => exact h k hk

theorem Shared.Reachable.not_writing {file : FileId} {s : Shared δ}
    (hr : Shared.Reachable file s) {k : PageKey} (hk : s.writing k) : k.fileId ≠ file := by
  induction hr generalizing k with
  | create _ _ => exact hk.elim
  | others _ ho ih => exact ho.not_writing (fun _ => ih) hk

/-- The pool stores the pages it has handed out, numbered from 0 on. -/
structure Sharing (s : Shared δ) (store : PageKey → Option PageData) : Prop where
  pool : Pool s.pool s.held s.writing store
  pins : ∀ k, s.held k < 2147483647
  handed : ∀ k, store k ≠ none ↔ k ∈ s.handed
  nodup : s.handed.Nodup
  ids : ∀ k ∈ s.handed, k.pageId < s.pool.nextPageId
  count : s.handed.length ≤ s.pool.nextPageId
  next_le : s.pool.nextPageId ≤ invalidPageId

variable {s t : Shared δ} {store store' : PageKey → Option PageData} {file : FileId}
  {b b' : BufferPoolManager δ} {held : PageKey → Nat} {pending : PageKey → Prop} {k : PageKey}
  {f : FrameId} {data : PageData}

namespace BufferPoolManager.Pool

/-- A call that leaves the frames in their places. -/
theorem congr (h : Pool b held pending store) (hb : Backs b' none held pending store)
    (hsize : b'.poolSize = b.poolSize) (hfree : b'.freeFrames = b.freeFrames) :
    Pool b' held pending store where
  backs := hb
  spare := by
    obtain ⟨m, hm⟩ := h.spare
    refine ⟨m, ?_⟩
    rw [hfree, hm, frameCount, frameCount, hsize]
  room := by
    rw [frameCount, hsize]
    exact h.room

theorem stored_eq (h : Pool b held pending store) (hk : store k = some data) :
    b.stored k = some data := by
  unfold stored
  cases hf : b.pageTable k with
  | some f => rw [← hk, h.backs.bytes k f hf]
  | none =>
      refine h.backs.on_disk k data hk fun f hf' => ?_
      rw [hf] at hf'
      cases hf'

theorem unpinned_iff (h : Pool b held pending store) : b.Unpinned f ↔ Obtainable b held f := by
  constructor
  · rintro ⟨hlt, hpin⟩
    refine ⟨hlt, fun k hk => ?_⟩
    have hheld := h.backs.pinned k f hk
    rw [hpin] at hheld
    exact Int.ofNat.inj hheld.symm
  · intro ho
    refine ⟨ho.lt, ?_⟩
    rcases h.backs.structural.frames f ho.lt (by simp) with hf | hf
    · exact hf.no_pin
    · rw [h.backs.pinned _ f hf.table, ho.idle _ hf.table]
      rfl

theorem not_full_iff (h : Pool b held pending store) : ¬ Full b ↔ ∃ f, Obtainable b held f := by
  constructor
  · intro hfull
    unfold Full at hfull
    push Not at hfull
    obtain ⟨f, hlt, hpin⟩ := hfull
    refine ⟨f, h.unpinned_iff.mp ⟨hlt, ?_⟩⟩
    rcases h.backs.structural.frames f hlt (by simp) with hf | hf
    · exact hf.no_pin
    · have := hf.pin_nonneg
      omega
  · rintro ⟨f, ho⟩ hfull
    obtain ⟨hlt, hpin⟩ := h.unpinned_iff.mpr ho
    have := hfull f hlt
    omega

theorem not_full_steady (h : Pool b held pending store) (h' : Pool b' held pending store')
    (hs : Steady b b' held) (hno : ¬ Full b) : ¬ Full b' := by
  obtain ⟨f, ho⟩ := h.not_full_iff.mp hno
  exact h'.not_full_iff.mpr ⟨f, h.obtainable_steady hs ho⟩

theorem held_pos_of_full (h : Pool b held pending store) (hfull : Full b)
    (hf : b.pageTable k = some f) : 0 < held k := by
  have hpin := hfull f (h.backs.structural.table k f hf).1
  rw [h.backs.pinned k f hf] at hpin
  omega

/-- A page that is not in a full pool does not get there. -/
theorem blocked_steady (h : Pool b held pending store) (h' : Pool b' held pending store')
    (hst : Steady b b' held) (hfull : Full b) (hnone : b.pageTable k = none) :
    Full b' ∧ b'.pageTable k = none := by
  have hfull' : Full b' := by
    by_contra hno
    obtain ⟨f, ho⟩ := h'.not_full_iff.mp hno
    refine h.not_full_iff.mpr ⟨f, hst.frameCount ▸ ho.lt, fun k' hk' => ?_⟩ hfull
    by_contra hne
    exact hne (ho.idle k' (hst.table k' f (Nat.pos_of_ne_zero hne) hk'))
  refine ⟨hfull', ?_⟩
  by_contra hne
  obtain ⟨f, hf⟩ := Option.ne_none_iff_exists'.mp hne
  have hpos := h'.held_pos_of_full hfull' hf
  rw [h.backs.unpinned k hnone] at hpos
  exact Nat.lt_irrefl 0 hpos

theorem blocked_kept (h : Pool b held pending store) (hk : Kept b b' held pending store)
    (hfull : Full b) (hnone : b.pageTable k = none) : Full b' ∧ b'.pageTable k = none :=
  h.blocked_steady hk.pool hk.steady hfull hnone

/-! ## Counting frames -/

section
variable {keys : List PageKey}

/-- There are no more frames in use than pages. -/
theorem exists_spare (h : Pool b held pending store) (hkeys : ∀ k, store k ≠ none → k ∈ keys) :
    ∃ m, b.freeFrames = List.range' m (b.frameCount - m) ∧ m ≤ keys.length ∧
      ∀ k f, b.pageTable k = some f → f < m := by
  obtain ⟨m, hfree⟩ := h.spare
  have hfree' : b.freeFrames =
      List.range' (min m b.frameCount) (b.frameCount - min m b.frameCount) := by
    rcases Nat.le_total m b.frameCount with hle | hle
    · rw [Nat.min_eq_left hle, hfree]
    · rw [Nat.min_eq_right hle, hfree, Nat.sub_eq_zero_of_le hle, Nat.sub_self]
      rfl
  refine ⟨_, hfree', ?_, fun k f hf => ?_⟩
  · exact h.backs.residents_le hfree' (Nat.min_le_right _ _) hkeys List.nodup_nil
      fun _ hk => absurd hk List.not_mem_nil
  · by_contra hge
    have hlt := h.backs.structural.lt_of_table hf
    refine (h.backs.structural.resident_of_table hf).not_mem ?_
    rw [hfree', List.mem_range'_1]
    refine ⟨Nat.not_lt.mp hge, ?_⟩
    rw [Nat.add_sub_cancel' (Nat.min_le_right _ _)]
    exact hlt

theorem frame_lt (h : Pool b held pending store) (hkeys : ∀ k, store k ≠ none → k ∈ keys)
    (hf : b.pageTable k = some f) : f < keys.length := by
  obtain ⟨m, _, hle, hlt⟩ := h.exists_spare hkeys
  exact Nat.lt_of_lt_of_le (hlt k f hf) hle

theorem obtainable_of_le (h : Pool b held pending store) (hkeys : ∀ k, store k ≠ none → k ∈ keys)
    (hle : keys.length ≤ f) (hlt : f < b.frameCount) : Obtainable b held f :=
  ⟨hlt, fun _ hf => absurd (h.frame_lt hkeys hf) (Nat.not_lt.mpr hle)⟩

/-- When all pages are in the pool, the free frames come right behind them. -/
theorem free_of_resident (h : Pool b held pending store) (hkeys : ∀ k, store k ≠ none → k ∈ keys)
    (hnodup : keys.Nodup) (hres : ∀ k ∈ keys, b.pageTable k ≠ none) :
    b.freeFrames = List.range' keys.length (b.frameCount - keys.length) := by
  obtain ⟨m, hfree, hle, hlt⟩ := h.exists_spare hkeys
  have hframes : (keys.map fun k => (b.pageTable k).getD 0).Nodup := by
    refine List.Nodup.map_on (fun k hk k' hk' he => ?_) hnodup
    obtain ⟨f, hf⟩ := Option.ne_none_iff_exists'.mp (hres k hk)
    obtain ⟨f', hf'⟩ := Option.ne_none_iff_exists'.mp (hres k' hk')
    rw [hf, hf'] at he
    exact h.backs.structural.table_inj hf ((show f' = f from he.symm) ▸ hf')
  have hsub : (keys.map fun k => (b.pageTable k).getD 0) ⊆ List.range m := by
    intro f hf
    obtain ⟨k, hk, rfl⟩ := List.mem_map.mp hf
    obtain ⟨f, hf⟩ := Option.ne_none_iff_exists'.mp (hres k hk)
    rw [hf]
    exact List.mem_range.mpr (hlt k f hf)
  have hge := (List.subperm_of_subset hframes hsub).length_le
  rw [List.length_map, List.length_range] at hge
  rw [hfree, Nat.le_antisymm hle hge]

end

end BufferPoolManager.Pool

namespace Sharing

theorem fresh (h : Sharing s store) (file : FileId) : store ⟨file, s.pool.nextPageId⟩ = none := by
  by_contra hne
  exact Nat.lt_irrefl _ (h.ids _ ((h.handed _).mp hne))

theorem roomFor (h : Sharing s store) (hroom : s.pool.HasRoom) :
    RoomFor s.pool.frameCount store 1 := by
  rcases hroom.2 with hroom | hroom
  · exact .inl hroom
  · exact .inr ⟨s.handed, fun k => (h.handed k).mp, Nat.lt_of_le_of_lt h.count hroom⟩

/-- The owner, or a client, is done with a call that made no page. -/
theorem kept (h : Sharing s store) (hk : Kept s.pool b s.held s.writing store')
    (hstore : ∀ k, store' k ≠ none ↔ store k ≠ none) : Sharing { s with pool := b } store' where
  pool := hk.pool
  pins := h.pins
  handed k := (hstore k).trans (h.handed k)
  nodup := h.nodup
  ids k hk' := hk.next ▸ h.ids k hk'
  count := hk.next ▸ h.count
  next_le := hk.next ▸ h.next_le

/-- A call made the next page, which may be pinned. -/
theorem grown (h : Sharing s store) (hids : s.pool.nextPageId < invalidPageId) {n : Nat}
    (hn : n < 2147483647) {k : PageKey} (hk : k.pageId = s.pool.nextPageId)
    (hp : Pool b (Function.update s.held k n) s.writing store')
    (hnext : b.nextPageId = add32 s.pool.nextPageId 1)
    (hstore : ∀ k', store' k' ≠ none ↔ store k' ≠ none ∨ k' = k) :
    Sharing { s with
      pool := b, handed := k :: s.handed, held := Function.update s.held k n } store' := by
  have hnext' : b.nextPageId = s.pool.nextPageId + 1 :=
    hnext.trans (add32_of_lt (Nat.lt_of_le_of_lt hids (by decide)))
  constructor
  case pool => exact hp
  case pins =>
    intro k'
    by_cases he : k' = k
    · simp only [he, Function.update_self]
      exact hn
    · simp only [Function.update_of_ne he]
      exact h.pins k'
  case handed =>
    intro k'
    rw [hstore, h.handed, List.mem_cons, or_comm]
  case nodup =>
    refine List.nodup_cons.mpr ⟨fun hmem => ?_, h.nodup⟩
    exact Nat.lt_irrefl _ (hk ▸ h.ids k hmem)
  case ids =>
    intro k' hk'
    show k'.pageId < b.nextPageId
    rw [hnext']
    rcases List.mem_cons.mp hk' with rfl | hk'
    · exact hk ▸ Nat.lt_succ_self _
    · exact Nat.lt_succ_of_lt (h.ids k' hk')
  case count =>
    show (k :: s.handed).length ≤ b.nextPageId
    rw [hnext', List.length_cons]
    exact Nat.succ_le_succ h.count
  case next_le =>
    show b.nextPageId ≤ invalidPageId
    rw [hnext']
    exact hids

theorem create (poolSize : Nat) (d : δ) :
    Sharing ⟨BufferPoolManager.create poolSize d, [], fun _ => 0, fun _ => False⟩
      fun _ => none where
  pool := .create poolSize d
  pins _ := (by decide : 0 < 2147483647)
  handed k := by simp
  nodup := List.nodup_nil
  ids k hk := nomatch hk
  count := Nat.le_refl 0
  next_le := Nat.zero_le _

/-! ## The other clients -/

theorem others_newPage (h : Sharing s store) {other : FileId} {f : FrameId} {page : PageId}
    (hopen : opened s.pool.diskManager other) (hroom : s.pool.HasRoom)
    (hr : s.pool.newPage other = .ok (some (f, page), b)) :
    Sharing { s with
      pool := b
      handed := ⟨other, page⟩ :: s.handed
      held := Function.update s.held ⟨other, page⟩ 1 }
      (Function.update store ⟨other, page⟩ (some Block.zero)) := by
  rcases h.pool.newPage (h.fresh other) (Nat.ne_of_lt hroom.1) hopen (h.roomFor hroom) with
    ⟨he, _⟩ | ⟨g, b', he, hp, _, hnext, _⟩
  · cases he.symm.trans hr
  · cases he.symm.trans hr
    refine h.grown hroom.1 (by decide) rfl hp hnext fun k' => ?_
    by_cases hk : k' = ⟨other, s.pool.nextPageId⟩
    · simp [hk]
    · rw [Function.update_of_ne hk]
      simp [hk]

theorem others_fetchPage (h : Sharing s store) (hk : k ∈ s.handed)
    (hmax : s.held k + 1 < 2147483647)
    (hr : s.pool.fetchPage k.fileId k.pageId = .ok (some f, b)) :
    Sharing { s with pool := b, held := Function.update s.held k (s.held k + 1) } store := by
  obtain ⟨data, hdata⟩ := Option.ne_none_iff_exists'.mp ((h.handed k).mpr hk)
  rcases h.pool.fetchPage hdata (Nat.ne_of_lt (h.pins k)) with ⟨he, _⟩ | ⟨g, b', he, hp, _, hnext, _⟩
  · cases he.symm.trans hr
  · cases he.symm.trans hr
    refine ⟨hp, fun k' => ?_, h.handed, h.nodup, fun k' hk' => hnext ▸ h.ids k' hk', hnext ▸ h.count,
      hnext ▸ h.next_le⟩
    by_cases hkk : k' = k
    · simp only [hkk, Function.update_self]
      exact hmax
    · simp only [Function.update_of_ne hkk]
      exact h.pins k'

theorem others_unpinPage (h : Sharing s store) (isDirty : Bool) (hheld : 0 < s.held k)
    (hdirty : s.writing k → isDirty = true ∨ 1 < s.held k) :
    Sharing { s with
      pool := (s.pool.unpinPage k.fileId k.pageId isDirty).2
      held := Function.update s.held k (s.held k - 1)
      writing := fun k' => s.writing k' ∧ ¬ (k' = k ∧ isDirty = true) } store := by
  obtain ⟨f, hf⟩ := h.pool.backs.resident hheld
  have hkey := h.pool.backs.structural.key_of_table hf
  have hback : Function.update (Function.update s.held k (s.held k - 1)) k
      (Function.update s.held k (s.held k - 1) k + 1) = s.held := by
    rw [Function.update_idem, Function.update_self, Nat.sub_add_cancel hheld,
      Function.update_eq_self]
  have hp : Pool s.pool (Function.update (Function.update s.held k (s.held k - 1)) k
      (Function.update s.held k (s.held k - 1) k + 1)) s.writing store := by
    rw [hback]
    exact h.pool
  obtain ⟨hp', _, _, hnext, _⟩ :=
    hp.unpin (P := fun k' => s.writing k' ∧ ¬ (k' = k ∧ isDirty = true)) hf isDirty (by
      rintro k' ⟨hw, hnot⟩
      by_cases hkk : k' = k
      · subst hkk
        rw [Function.update_self]
        rcases hdirty hw with hd | hd
        · exact absurd ⟨rfl, hd⟩ hnot
        · omega
      · rw [Function.update_of_ne hkk]
        exact h.pool.backs.pending_held k' hw) (by
      intro k' hw
      by_cases hkk : k' = k ∧ isDirty = true
      · exact .inr hkk
      · exact .inl ⟨hw, hkk⟩)
  rw [show (s.pool.pages f).fileId = k.fileId from congrArg PageKey.fileId hkey,
    show (s.pool.pages f).pageId = k.pageId from congrArg PageKey.pageId hkey] at hp' hnext
  refine ⟨hp', fun k' => ?_, h.handed, h.nodup, fun k' hk' => hnext ▸ h.ids k' hk', hnext ▸ h.count,
    hnext ▸ h.next_le⟩
  by_cases hkk : k' = k
  · simp only [hkk, Function.update_self]
    exact Nat.lt_of_le_of_lt (Nat.sub_le _ _) (h.pins k)
  · simp only [Function.update_of_ne hkk]
    exact h.pins k'

theorem others (h : Sharing s store) (ho : Others file s t) :
    ∃ store', Sharing t store' ∧ ∀ i, store' ⟨file, i⟩ = store ⟨file, i⟩ := by
  cases ho with
  | newPage hother hopen hroom hr =>
      refine ⟨_, h.others_newPage hopen hroom hr, fun i => Function.update_of_ne ?_ _ _⟩
      exact fun he => hother (congrArg PageKey.fileId he).symm
  | fetchPage hk hmax hr => exact ⟨store, h.others_fetchPage hk hmax hr, fun _ => rfl⟩
  | @change k f hother hheld hf data =>
      refine ⟨Function.update store k (some data), ⟨h.pool.setData hf hheld data, h.pins, ?_,
        h.nodup, h.ids, h.count, h.next_le⟩, fun i => Function.update_of_ne ?_ _ _⟩
      · intro k'
        by_cases hkk : k' = k
        · have hne := h.pool.backs.store_ne hf
          simp [hkk, (h.handed k).mp hne]
        · rw [Function.update_of_ne hkk]
          exact h.handed k'
      · rintro rfl
        exact hother rfl
  | unpinPage isDirty hheld hdirty =>
      exact ⟨store, h.others_unpinPage isDirty hheld hdirty, fun _ => rfl⟩
  | flushPage k hr =>
      refine ⟨store, ?_, fun _ => rfl⟩
      rcases flushPage_cases s.pool k.fileId k.pageId with ⟨f, m, he, _⟩ | ⟨_, he⟩ |
        ⟨f, d, hf, hw, he⟩
      · cases he.symm.trans hr
      · cases he.symm.trans hr
        exact h
      · cases he.symm.trans hr
        exact ⟨h.pool.congr (h.pool.backs.writtenBack hf hw) rfl rfl, h.pins, h.handed, h.nodup, h.ids,
          h.count, h.next_le⟩
  | flushAllPages hr =>
      refine ⟨store, ?_, fun _ => rfl⟩
      obtain ⟨b', he, hb, _, hsize, hfree, hnext, _⟩ := h.pool.backs.flushAllPages
      cases he.symm.trans hr
      exact ⟨h.pool.congr hb hsize hfree, h.pins, h.handed, h.nodup, fun k hk => hnext ▸ h.ids k hk,
        hnext ▸ h.count, hnext ▸ h.next_le⟩

end Sharing

theorem Shared.Reachable.sharing (h : Shared.Reachable file s) :
    ∃ store, Sharing s store ∧ ∀ i, store ⟨file, i⟩ = none := by
  induction h with
  | create poolSize d => exact ⟨_, .create poolSize d, fun _ => rfl⟩
  | others _ ho ih =>
      obtain ⟨store, hs, hnone⟩ := ih
      obtain ⟨store', hs', hsame⟩ := hs.others ho
      exact ⟨store', hs', fun i => (hsame i).trans (hnone i)⟩

end TurtleDb.Buffer
