import Mathlib.Data.List.Perm.Subperm
import TurtleDb.Buffer.Lemmas.Replacer

/-!
# The directory of the replacer

The live lists list the frames of the one map, the ghost lists the page ids of the other, and no
page id is in both. The lengths stay within the bounds of ARC: however long the replacer runs, its
directory never has more than twice as many entries as there are frames.
-/

namespace TurtleDb.Buffer.ArcReplacer

/-- The ghost lists list the keys of the ghost map, each in the list its status names. -/
structure Ghosts (r : ArcReplacer) : Prop where
  nodup_mru : r.mruGhost.Nodup
  nodup_mfu : r.mfuGhost.Nodup
  mem_mru : ∀ pid, pid ∈ r.mruGhost ↔ ∃ s, r.ghostMap pid = some s ∧ s.arcStatus = .mruGhost
  mem_mfu : ∀ pid, pid ∈ r.mfuGhost ↔ ∃ s, r.ghostMap pid = some s ∧ s.arcStatus = .mfuGhost
  status : ∀ pid s, r.ghostMap pid = some s → s.arcStatus = .mruGhost ∨ s.arcStatus = .mfuGhost

structure Directory (r : ArcReplacer) : Prop where
  tracks : Tracks r r.flags
  status : ∀ f s, r.aliveMap f = some s → s.arcStatus = .mru ∨ s.arcStatus = .mfu
  frame_lt : ∀ f s, r.aliveMap f = some s → f < r.replacerSize
  page_inj : ∀ f g s u, r.aliveMap f = some s → r.aliveMap g = some u → s.pageId = u.pageId → f = g
  ghosts : Ghosts r
  apart : ∀ f s, r.aliveMap f = some s → r.ghostMap s.pageId = none
  target_le : r.mruTargetSize ≤ r.replacerSize
  recency_le : r.mru.length + r.mruGhost.length ≤ r.replacerSize
  total_le : r.mru.length + r.mfu.length + r.mruGhost.length + r.mfuGhost.length ≤
    2 * r.replacerSize

variable {r : ArcReplacer} {f : FrameId} {pid : PageId}

/-! ## Lists -/

theorem length_removeAll {l : List Nat} (h : l.Nodup) {a : Nat} (ha : a ∈ l) :
    (removeAll l a).length + 1 = l.length := by
  have heq : removeAll l a = l.erase a := by
    rw [h.erase_eq_filter]
    apply List.filter_congr
    intro b _
    by_cases hb : b = a <;> simp [hb]
  rw [heq, List.length_erase_of_mem ha]
  have := List.length_pos_of_mem ha
  omega

theorem length_eraseLast {l : List Nat} {a : Nat} (ha : a ∈ l) :
    (eraseLast l a).length + 1 = l.length := by
  rw [eraseLast, List.length_reverse, List.length_erase_of_mem (List.mem_reverse.mpr ha),
    List.length_reverse]
  have := List.length_pos_of_mem ha
  omega

theorem getLast?_cases (l : List Nat) :
    (l.getLast? = none ∧ l = []) ∨
      ∃ a, l.getLast? = some a ∧ l = l.dropLast ++ [a] ∧ l.dropLast.length + 1 = l.length := by
  cases ha : l.getLast? with
  | none => exact .inl ⟨rfl, List.getLast?_eq_none_iff.mp ha⟩
  | some a =>
      have hl := List.dropLast_append_getLast? a ha
      refine .inr ⟨a, rfl, hl.symm, ?_⟩
      rw [← congrArg List.length hl, List.length_append, List.length_singleton]

/-! ## The ghosts -/

namespace Ghosts

theorem disjoint (h : Ghosts r) (hm : pid ∈ r.mruGhost) (hf : pid ∈ r.mfuGhost) : False := by
  obtain ⟨s, hs, hst⟩ := (h.mem_mru pid).mp hm
  obtain ⟨u, hu, hut⟩ := (h.mem_mfu pid).mp hf
  cases hs.symm.trans hu
  cases hst.symm.trans hut

theorem not_mem (h : Ghosts r) (hnone : r.ghostMap pid = none) :
    pid ∉ r.mruGhost ∧ pid ∉ r.mfuGhost := by
  rw [h.mem_mru, h.mem_mfu, hnone]
  simp

/-- Changing what is remembered of one page: the lists have to follow. -/
theorem set (h : Ghosts r) {r' : ArcReplacer} {x : Option FrameStatus}
    (hmap : r'.ghostMap = Function.update r.ghostMap pid x)
    (hstatus : ∀ s, x = some s → s.arcStatus = .mruGhost ∨ s.arcStatus = .mfuGhost)
    (hmru : r'.mruGhost.Nodup) (hmfu : r'.mfuGhost.Nodup)
    (hmem_mru : ∀ q, q ≠ pid → (q ∈ r'.mruGhost ↔ q ∈ r.mruGhost))
    (hmem_mfu : ∀ q, q ≠ pid → (q ∈ r'.mfuGhost ↔ q ∈ r.mfuGhost))
    (hp_mru : pid ∈ r'.mruGhost ↔ ∃ s, x = some s ∧ s.arcStatus = .mruGhost)
    (hp_mfu : pid ∈ r'.mfuGhost ↔ ∃ s, x = some s ∧ s.arcStatus = .mfuGhost) : Ghosts r' := by
  have hself : r'.ghostMap pid = x := by rw [hmap, Function.update_self]
  have hother : ∀ q, q ≠ pid → r'.ghostMap q = r.ghostMap q := fun q hq => by
    rw [hmap, Function.update_of_ne hq]
  constructor
  case nodup_mru => exact hmru
  case nodup_mfu => exact hmfu
  case mem_mru =>
    intro q
    by_cases hq : q = pid
    · rw [hq, hself, hp_mru]
    · rw [hother q hq, hmem_mru q hq, h.mem_mru]
  case mem_mfu =>
    intro q
    by_cases hq : q = pid
    · rw [hq, hself, hp_mfu]
    · rw [hother q hq, hmem_mfu q hq, h.mem_mfu]
  case status =>
    intro q s hs
    by_cases hq : q = pid
    · rw [hq, hself] at hs
      exact hstatus s hs
    · rw [hother q hq] at hs
      exact h.status q s hs

theorem congr (h : Ghosts r) {r' : ArcReplacer} (hmru : r'.mruGhost = r.mruGhost)
    (hmfu : r'.mfuGhost = r.mfuGhost) (hmap : r'.ghostMap = r.ghostMap) : Ghosts r' where
  nodup_mru := hmru ▸ h.nodup_mru
  nodup_mfu := hmfu ▸ h.nodup_mfu
  mem_mru := by rw [hmru, hmap]; exact h.mem_mru
  mem_mfu := by rw [hmfu, hmap]; exact h.mem_mfu
  status := hmap ▸ h.status

theorem pushMru (h : Ghosts r) {r' : ArcReplacer} {s : FrameStatus} (hnone : r.ghostMap pid = none)
    (hmap : r'.ghostMap = Function.update r.ghostMap pid (some s)) (hs : s.arcStatus = .mruGhost)
    (hmru : r'.mruGhost = pid :: r.mruGhost) (hmfu : r'.mfuGhost = r.mfuGhost) : Ghosts r' := by
  obtain ⟨hm, hf⟩ := h.not_mem hnone
  refine h.set hmap ?_ (hmru ▸ List.nodup_cons.mpr ⟨hm, h.nodup_mru⟩) (hmfu ▸ h.nodup_mfu) ?_ ?_ ?_ ?_
  · rintro u ⟨⟩
    exact .inl hs
  · intro q hq
    simp [hmru, hq]
  · intro q _
    rw [hmfu]
  · simp [hmru, hs]
  · simpa [hmfu, hs] using hf

theorem pushMfu (h : Ghosts r) {r' : ArcReplacer} {s : FrameStatus} (hnone : r.ghostMap pid = none)
    (hmap : r'.ghostMap = Function.update r.ghostMap pid (some s)) (hs : s.arcStatus = .mfuGhost)
    (hmru : r'.mruGhost = r.mruGhost) (hmfu : r'.mfuGhost = pid :: r.mfuGhost) : Ghosts r' := by
  obtain ⟨hm, hf⟩ := h.not_mem hnone
  refine h.set hmap ?_ (hmru ▸ h.nodup_mru) (hmfu ▸ List.nodup_cons.mpr ⟨hf, h.nodup_mfu⟩) ?_ ?_ ?_ ?_
  · rintro u ⟨⟩
    exact .inr hs
  · intro q _
    rw [hmru]
  · intro q hq
    simp [hmfu, hq]
  · simpa [hmru, hs] using hm
  · simp [hmfu, hs]

theorem forget (h : Ghosts r) {r' : ArcReplacer}
    (hmap : r'.ghostMap = Function.update r.ghostMap pid none)
    (hmru : r'.mruGhost.Nodup) (hmfu : r'.mfuGhost.Nodup)
    (hmem_mru : ∀ q, q ∈ r'.mruGhost ↔ q ∈ r.mruGhost ∧ q ≠ pid)
    (hmem_mfu : ∀ q, q ∈ r'.mfuGhost ↔ q ∈ r.mfuGhost ∧ q ≠ pid) : Ghosts r' := by
  refine h.set hmap (by simp) hmru hmfu ?_ ?_ ?_ ?_
  · intro q hq
    simp [hmem_mru, hq]
  · intro q hq
    simp [hmem_mfu, hq]
  · simp [hmem_mru]
  · simp [hmem_mfu]

end Ghosts

/-! ## The directory under each operation -/

/-- What a total miss drops is the oldest ghost of a list, and only when the lists are full. -/
inductive Trimmed (r : ArcReplacer) : ArcReplacer → Prop where
  | recency {pid : PageId} (hfull : r.mru.length + r.mruGhost.length = r.replacerSize)
      (hl : r.mruGhost = r.mruGhost.dropLast ++ [pid]) :
      Trimmed r { r with
        mruGhost := r.mruGhost.dropLast, ghostMap := Function.update r.ghostMap pid none }
  | frequency {pid : PageId} (hroom : r.mru.length + r.mruGhost.length < r.replacerSize)
      (hl : r.mfuGhost = r.mfuGhost.dropLast ++ [pid]) :
      Trimmed r { r with
        mfuGhost := r.mfuGhost.dropLast, ghostMap := Function.update r.ghostMap pid none }
  | nothing (hrec : r.mru.length + r.mruGhost.length = r.replacerSize → r.mruGhost = [])
      (htotal : r.mru.length + r.mruGhost.length < r.replacerSize →
        2 * r.replacerSize ≤ r.mru.length + r.mfu.length + r.mruGhost.length + r.mfuGhost.length →
          r.mfuGhost = []) : Trimmed r r

theorem trimGhosts_trimmed (r : ArcReplacer) : Trimmed r r.trimGhosts := by
  unfold trimGhosts
  simp only
  split
  next hfull =>
    rcases getLast?_cases r.mruGhost with ⟨hnone, hnil⟩ | ⟨pid, hsome, hl, _⟩
    · rw [hnone]
      exact .nothing (fun _ => hnil) fun hlt => absurd hlt (by omega)
    · rw [hsome]
      exact .recency hfull hl
  next hno =>
    split
    next hroom =>
      rcases getLast?_cases r.mfuGhost with ⟨hnone, hnil⟩ | ⟨pid, hsome, hl, _⟩
      · rw [hnone]
        exact .nothing (fun he => absurd he hno) fun _ _ => hnil
      · rw [hsome]
        exact .frequency hroom.1 hl
    next hroom =>
      exact .nothing (fun he => absurd he hno) fun hlt hle => absurd ⟨hlt, hle⟩ hroom

theorem mem_dropLast_of_nodup {l : List Nat} {a : Nat} (h : l.Nodup) (hl : l = l.dropLast ++ [a])
    (q : Nat) : q ∈ l.dropLast ↔ q ∈ l ∧ q ≠ a := by
  rw [hl, List.nodup_append] at h
  have hmem : q ∈ l ↔ q ∈ l.dropLast ∨ q = a := by
    conv_lhs => rw [hl]
    simp
  rw [hmem]
  constructor
  · exact fun hq => ⟨.inl hq, h.2.2 q hq a (List.mem_singleton_self a)⟩
  · rintro ⟨hq | hq, hne⟩
    · exact hq
    · exact absurd hq hne

theorem Ghosts.trim {r' : ArcReplacer} (h : Ghosts r) (ht : Trimmed r r') : Ghosts r' := by
  cases ht with
  | @recency pid hfull hl =>
      have hmem : pid ∈ r.mruGhost := by rw [hl]; simp
      refine h.forget rfl (h.nodup_mru.sublist (List.dropLast_sublist _)) h.nodup_mfu
        (mem_dropLast_of_nodup h.nodup_mru hl) fun q => ?_
      exact ⟨fun hq => ⟨hq, fun he => h.disjoint hmem (he ▸ hq)⟩, And.left⟩
  | @frequency pid hroom hl =>
      have hmem : pid ∈ r.mfuGhost := by rw [hl]; simp
      refine h.forget rfl h.nodup_mru (h.nodup_mfu.sublist (List.dropLast_sublist _)) (fun q => ?_)
        (mem_dropLast_of_nodup h.nodup_mfu hl)
      exact ⟨fun hq => ⟨hq, fun he => h.disjoint (he ▸ hq) hmem⟩, And.left⟩
  | nothing _ _ => exact h

namespace Directory

theorem create (n : Nat) : Directory (ArcReplacer.create n) where
  tracks := Tracks.create n
  status := fun f s hs => by cases hs
  frame_lt := fun f s hs => by cases hs
  page_inj := fun f g s u hs => by cases hs
  ghosts := by constructor <;> simp [ArcReplacer.create]
  apart := fun f s hs => by cases hs
  target_le := Nat.zero_le _
  recency_le := Nat.zero_le _
  total_le := Nat.zero_le _

theorem live_lt (h : Directory r) (hf : f < r.replacerSize) (hnone : r.aliveMap f = none) :
    r.mru.length + r.mfu.length < r.replacerSize := by
  have hflag : r.flags f = none := by rw [flags, hnone, Option.map_none]
  have hnot : f ∉ r.mru ++ r.mfu := fun hm => h.tracks.mem_live.mp hm hflag
  have hsub : ∀ g ∈ f :: (r.mru ++ r.mfu), g ∈ List.range r.replacerSize := by
    intro g hg
    rcases List.mem_cons.mp hg with rfl | hg
    · exact List.mem_range.mpr hf
    · obtain ⟨s, hs⟩ := Option.ne_none_iff_exists'.mp (h.tracks.mem_live.mp hg)
      obtain ⟨u, hu, _⟩ := Option.map_eq_some_iff.mp hs
      exact List.mem_range.mpr (h.frame_lt g u hu)
  have := (List.subperm_of_subset (List.nodup_cons.mpr ⟨hnot, h.tracks.nodup⟩) hsub).length_le
  rw [List.length_cons, List.length_append, List.length_range] at this
  omega

/-- One frame changes its status; the ghosts and the lengths are given. -/
theorem set (h : Directory r) {r' : ArcReplacer} {x : Option FrameStatus}
    (halive : r'.aliveMap = Function.update r.aliveMap f x)
    (hsize : r'.replacerSize = r.replacerSize)
    (htracks : Tracks r' (Function.update r.flags f (x.map FrameStatus.evictable)))
    (hx : ∀ s, x = some s → (s.arcStatus = .mru ∨ s.arcStatus = .mfu) ∧ f < r.replacerSize ∧
      (∀ g u, g ≠ f → r.aliveMap g = some u → u.pageId ≠ s.pageId) ∧ r'.ghostMap s.pageId = none)
    (hghosts : Ghosts r')
    (hapart : ∀ g u, g ≠ f → r.aliveMap g = some u → r'.ghostMap u.pageId = none)
    (htarget : r'.mruTargetSize ≤ r.replacerSize)
    (hrec : r'.mru.length + r'.mruGhost.length ≤ r.replacerSize)
    (htotal : r'.mru.length + r'.mfu.length + r'.mruGhost.length + r'.mfuGhost.length ≤
      2 * r.replacerSize) : Directory r' := by
  have hself : r'.aliveMap f = x := by rw [halive, Function.update_self]
  have hother : ∀ g, g ≠ f → r'.aliveMap g = r.aliveMap g := fun g hg => by
    rw [halive, Function.update_of_ne hg]
  constructor
  case tracks => exact htracks.eq_flags ▸ htracks
  case status =>
    intro g s hs
    by_cases hg : g = f
    · rw [hg, hself] at hs
      exact (hx s hs).1
    · exact h.status g s (hother g hg ▸ hs)
  case frame_lt =>
    intro g s hs
    rw [hsize]
    by_cases hg : g = f
    · rw [hg, hself] at hs
      rw [hg]
      exact (hx s hs).2.1
    · exact h.frame_lt g s (hother g hg ▸ hs)
  case page_inj =>
    intro g k s u hs hu he
    by_cases hg : g = f
    · rw [hg, hself] at hs
      by_cases hk : k = f
      · rw [hg, hk]
      · exact absurd he.symm ((hx s hs).2.2.1 k u hk (hother k hk ▸ hu))
    · rw [hother g hg] at hs
      by_cases hk : k = f
      · rw [hk, hself] at hu
        exact absurd he ((hx u hu).2.2.1 g s hg hs)
      · exact h.page_inj g k s u hs (hother k hk ▸ hu) he
  case ghosts => exact hghosts
  case apart =>
    intro g s hs
    by_cases hg : g = f
    · rw [hg, hself] at hs
      exact (hx s hs).2.2.2
    · exact hapart g s hg (hother g hg ▸ hs)
  case target_le => rw [hsize]; exact htarget
  case recency_le => rw [hsize]; exact hrec
  case total_le => rw [hsize]; exact htotal

/-! ### Eviction -/

theorem tryEvictMru (h : Directory r) {r' : ArcReplacer} (he : r.tryEvictMru = some (f, r')) :
    Directory r' := by
  have htracks := (h.tracks.tryEvictMru_some he).2
  obtain ⟨status, hmem, hs, _, rfl⟩ := Tracks.tryEvictMru_eq he
  have hnone := h.apart f status hs
  have hlen := length_eraseLast hmem
  have hrec := h.recency_le
  have htotal := h.total_le
  refine h.set (x := none) rfl rfl htracks (by simp)
    (h.ghosts.pushMru hnone rfl rfl rfl rfl) ?_ h.target_le ?_ ?_
  · intro g u hg hu
    refine (Function.update_of_ne ?_ _ _).trans (h.apart g u hu)
    exact fun heq => hg (h.page_inj g f u status hu hs heq)
  · simp only [List.length_cons]
    omega
  · simp only [demote, List.length_cons]
    omega

theorem tryEvictMfu (h : Directory r) {r' : ArcReplacer} (he : r.tryEvictMfu = some (f, r')) :
    Directory r' := by
  have htracks := (h.tracks.tryEvictMfu_some he).2
  obtain ⟨status, hmem, hs, _, rfl⟩ := Tracks.tryEvictMfu_eq he
  have hnone := h.apart f status hs
  have hlen := length_eraseLast hmem
  have htotal := h.total_le
  refine h.set (x := none) rfl rfl htracks (by simp)
    (h.ghosts.pushMfu hnone rfl rfl rfl rfl) ?_ h.target_le h.recency_le ?_
  · intro g u hg hu
    refine (Function.update_of_ne ?_ _ _).trans (h.apart g u hu)
    exact fun heq => hg (h.page_inj g f u status hu hs heq)
  · simp only [demote, List.length_cons]
    omega

theorem evict (h : Directory r) {r' : ArcReplacer} (he : r.evict = some (f, r')) :
    Directory r' := by
  rcases Tracks.evict_cases he with he | he
  · exact h.tryEvictMru he
  · exact h.tryEvictMfu he

/-! ### Accesses -/

/-- The page of a frame that is live already, whatever its evictable flag and list become. -/
theorem restatus (h : Directory r) {r' : ArcReplacer} {s u : FrameStatus}
    (hs : r.aliveMap f = some s) (hu : u.pageId = s.pageId)
    (hstatus : u.arcStatus = .mru ∨ u.arcStatus = .mfu)
    (halive : r'.aliveMap = Function.update r.aliveMap f (some u))
    (hsize : r'.replacerSize = r.replacerSize)
    (htracks : Tracks r' (Function.update r.flags f (some u.evictable)))
    (hmru : r'.mruGhost = r.mruGhost) (hmfu : r'.mfuGhost = r.mfuGhost)
    (hmap : r'.ghostMap = r.ghostMap) (htarget : r'.mruTargetSize = r.mruTargetSize)
    (hrec : r'.mru.length ≤ r.mru.length)
    (htotal : r'.mru.length + r'.mfu.length = r.mru.length + r.mfu.length) : Directory r' := by
  have hrec' := h.recency_le
  have htotal' := h.total_le
  refine h.set halive hsize htracks ?_ (h.ghosts.congr hmru hmfu hmap) ?_ (htarget ▸ h.target_le) ?_ ?_
  · rintro v ⟨⟩
    refine ⟨hstatus, h.frame_lt f s hs, fun g w hg hw he => ?_, ?_⟩
    · exact hg (h.page_inj g f w s hw hs (he.trans hu))
    · rw [hmap, hu]
      exact h.apart f s hs
  · intro g w _ hw
    rw [hmap]
    exact h.apart g w hw
  · rw [hmru]
    omega
  · rw [hmru, hmfu]
    omega

theorem promote (h : Directory r) {status : FrameStatus} (hs : r.aliveMap f = some status) :
    Directory (r.promote f status) := by
  have htracks := h.tracks.promote hs
  by_cases hst : status.arcStatus = .mru
  · have hmem : f ∈ r.mru := (h.tracks.mem_mru f).mpr ⟨status, hs, hst⟩
    have hlen := length_removeAll h.tracks.nodup_mru hmem
    have hr : r.promote f status = { r with
        mru := removeAll r.mru f, mfu := f :: r.mfu
        aliveMap := Function.update r.aliveMap f (some { status with arcStatus := .mfu }) } := by
      simp [ArcReplacer.promote, hst]
    rw [hr] at htracks ⊢
    refine h.restatus (u := { status with arcStatus := .mfu }) hs rfl (.inr rfl) rfl rfl htracks rfl
      rfl rfl rfl ?_ ?_
    · simp only
      omega
    · simp only [List.length_cons]
      omega
  · have hmem : f ∈ r.mfu := (h.tracks.mem_mfu f).mpr ⟨status, hs, hst⟩
    have hlen := length_removeAll h.tracks.nodup_mfu hmem
    have hr : r.promote f status = { r with
        mfu := f :: removeAll r.mfu f
        aliveMap := Function.update r.aliveMap f (some { status with arcStatus := .mfu }) } := by
      simp [ArcReplacer.promote, hst]
    rw [hr] at htracks ⊢
    refine h.restatus (u := { status with arcStatus := .mfu }) hs rfl (.inr rfl) rfl rfl htracks rfl
      rfl rfl rfl (Nat.le_refl _) ?_
    simp only [List.length_cons]
    omega

/-- A frame that becomes live with a page that no other live frame has. -/
theorem enliven (h : Directory r) {r' : ArcReplacer} {s : FrameStatus} (hf : f < r.replacerSize)
    (hfresh : ∀ g u, r.aliveMap g = some u → u.pageId ≠ s.pageId)
    (hstatus : s.arcStatus = .mru ∨ s.arcStatus = .mfu)
    (halive : r'.aliveMap = Function.update r.aliveMap f (some s))
    (hsize : r'.replacerSize = r.replacerSize)
    (htracks : Tracks r' (Function.update r.flags f (some s.evictable)))
    (hghosts : Ghosts r') (hself : r'.ghostMap s.pageId = none)
    (hless : ∀ q, r.ghostMap q = none → r'.ghostMap q = none)
    (htarget : r'.mruTargetSize ≤ r.replacerSize)
    (hrec : r'.mru.length + r'.mruGhost.length ≤ r.replacerSize)
    (htotal : r'.mru.length + r'.mfu.length + r'.mruGhost.length + r'.mfuGhost.length ≤
      2 * r.replacerSize) : Directory r' := by
  refine h.set halive hsize htracks ?_ hghosts ?_ htarget hrec htotal
  · rintro u ⟨⟩
    exact ⟨hstatus, hf, fun g u _ hu => hfresh g u hu, hself⟩
  · exact fun g u _ hu => hless _ (h.apart g u hu)

theorem update_none_of_none {q : PageId} (hq : r.ghostMap q = none) :
    Function.update r.ghostMap pid none q = none := by
  by_cases he : q = pid
  · rw [he, Function.update_self]
  · rw [Function.update_of_ne he, hq]

theorem resurrect (h : Directory r) (hf : f < r.replacerSize) (hnone : r.aliveMap f = none)
    (hfresh : ∀ g u, r.aliveMap g = some u → u.pageId ≠ pid) {status : FrameStatus}
    (hs : r.ghostMap pid = some status) : Directory (r.resurrect f pid status) := by
  have hflag : r.flags f = none := by rw [flags, hnone, Option.map_none]
  have htracks := h.tracks.resurrect hflag pid status
  have hrec := h.recency_le
  have htotal := h.total_le
  rcases h.ghosts.status pid status hs with hst | hst
  · have hmem : pid ∈ r.mruGhost := (h.ghosts.mem_mru pid).mpr ⟨status, hs, hst⟩
    have hlen := length_removeAll h.ghosts.nodup_mru hmem
    simp only [ArcReplacer.resurrect, hst, if_true] at htracks ⊢
    refine h.enliven hf hfresh (.inr rfl) rfl rfl htracks ?_ (Function.update_self _ _ _)
      (fun q hq => update_none_of_none hq) (Nat.min_le_right _ _) ?_ ?_
    · refine h.ghosts.forget rfl (nodup_removeAll pid h.ghosts.nodup_mru) h.ghosts.nodup_mfu
        (fun q => mem_removeAll) fun q => ?_
      exact ⟨fun hq => ⟨hq, fun he => h.ghosts.disjoint hmem (he ▸ hq)⟩, And.left⟩
    · simp only
      omega
    · simp only [List.length_cons]
      omega
  · have hmem : pid ∈ r.mfuGhost := (h.ghosts.mem_mfu pid).mpr ⟨status, hs, hst⟩
    have hlen := length_removeAll h.ghosts.nodup_mfu hmem
    simp only [ArcReplacer.resurrect, hst, reduceCtorEq, if_false] at htracks ⊢
    refine h.enliven hf hfresh (.inr rfl) rfl rfl htracks ?_ (Function.update_self _ _ _)
      (fun q hq => update_none_of_none hq) ?_ hrec ?_
    · refine h.ghosts.forget rfl h.ghosts.nodup_mru (nodup_removeAll pid h.ghosts.nodup_mfu)
        (fun q => ?_) fun q => mem_removeAll
      exact ⟨fun hq => ⟨hq, fun he => h.ghosts.disjoint (he ▸ hq) hmem⟩, And.left⟩
    · have := h.target_le
      simp only
      split <;> omega
    · simp only [List.length_cons]
      omega

/-- The case analysis behind the bounds: what is dropped makes room for the new entry, and where
nothing is dropped there is room. -/
theorem admitNew (h : Directory r) (hf : f < r.replacerSize) (hnone : r.aliveMap f = none)
    (hfresh : ∀ g u, r.aliveMap g = some u → u.pageId ≠ pid) (hghost : r.ghostMap pid = none) :
    Directory (r.admitNew f pid) := by
  have hflag : r.flags f = none := by rw [flags, hnone, Option.map_none]
  have htracks := h.tracks.admitNew hflag pid
  have hghosts := h.ghosts.trim (trimGhosts_trimmed r)
  have hlive := h.live_lt hf hnone
  have hrec := h.recency_le
  have htotal := h.total_le
  have htrim := trimGhosts_trimmed r
  unfold ArcReplacer.admitNew at htracks ⊢
  generalize r.trimGhosts = q at htrim htracks hghosts ⊢
  cases htrim with
  | @recency q hfull hl =>
      have hlen := congrArg List.length hl
      rw [List.length_append, List.length_singleton] at hlen
      refine h.enliven hf hfresh (.inl rfl) rfl rfl htracks
        (hghosts.congr rfl rfl rfl) (update_none_of_none hghost)
        (fun p hp => update_none_of_none hp) h.target_le ?_ ?_
      · simp only [List.length_cons]
        omega
      · simp only [List.length_cons]
        omega
  | @frequency q hroom hl =>
      have hlen := congrArg List.length hl
      rw [List.length_append, List.length_singleton] at hlen
      refine h.enliven hf hfresh (.inl rfl) rfl rfl htracks
        (hghosts.congr rfl rfl rfl) (update_none_of_none hghost)
        (fun p hp => update_none_of_none hp) h.target_le ?_ ?_
      · simp only [List.length_cons]
        omega
      · simp only [List.length_cons]
        omega
  | nothing hno hfew =>
      have hroom : r.mru.length + r.mruGhost.length < r.replacerSize := by
        rcases Nat.lt_or_eq_of_le hrec with hlt | heq
        · exact hlt
        · have := congrArg List.length (hno heq)
          rw [List.length_nil] at this
          omega
      have htight : r.mru.length + r.mfu.length + r.mruGhost.length + r.mfuGhost.length <
          2 * r.replacerSize := by
        by_contra hge
        have := congrArg List.length (hfew hroom (by omega))
        rw [List.length_nil] at this
        omega
      refine h.enliven hf hfresh (.inl rfl) rfl rfl htracks (hghosts.congr rfl rfl rfl) hghost
        (fun p hp => hp) h.target_le ?_ ?_
      · simp only [List.length_cons]
        omega
      · simp only [List.length_cons]
        omega

theorem recordAccess (h : Directory r) (hf : f < r.replacerSize)
    (hfresh : r.aliveMap f = none → ∀ g u, r.aliveMap g = some u → u.pageId ≠ pid) :
    Directory (r.recordAccess f pid) := by
  unfold ArcReplacer.recordAccess
  cases hs : r.aliveMap f with
  | some status => exact h.promote hs
  | none =>
      cases hg : r.ghostMap pid with
      | some status => exact h.resurrect hf hs (hfresh hs) hg
      | none => exact h.admitNew hf hs (hfresh hs) hg

/-! ### Pins -/

theorem setEvictable (h : Directory r) (f : FrameId) (b : Bool) : Directory (r.setEvictable f b) := by
  cases hs : r.aliveMap f with
  | none =>
      simp only [ArcReplacer.setEvictable, hs]
      exact h
  | some status =>
      have hflag : r.flags f ≠ none := by simp [flags, hs]
      have htracks := h.tracks.setEvictable hflag b
      simp only [ArcReplacer.setEvictable, hs] at htracks ⊢
      split
      next => exact h
      next hne =>
        rw [if_neg hne] at htracks
        exact h.restatus (u := { status with evictable := b }) hs rfl (h.status f status hs) rfl rfl
          htracks rfl rfl rfl rfl (Nat.le_refl _) rfl

theorem remove (h : Directory r) {r' : ArcReplacer}
    (hev : ∀ s, r.aliveMap f = some s → s.evictable = true) (hr : r.remove f = .ok r') :
    Directory r' := by
  cases hs : r.aliveMap f with
  | none =>
      simp only [ArcReplacer.remove, hs] at hr
      cases hr
      exact h
  | some status =>
      have hflag : r.flags f = some true := by rw [flags, hs, Option.map_some, hev status hs]
      obtain ⟨r'', hr'', htracks⟩ := h.tracks.remove hflag
      cases hr''.symm.trans hr
      have hrec := h.recency_le
      have htotal := h.total_le
      simp only [ArcReplacer.remove, hs, hev status hs, if_true] at hr
      by_cases hst : status.arcStatus = .mru
      · have hlen := length_removeAll h.tracks.nodup_mru ((h.tracks.mem_mru f).mpr ⟨status, hs, hst⟩)
        simp only [hst, if_true] at hr
        cases hr
        refine h.set (x := none) rfl rfl htracks (by simp) (h.ghosts.congr rfl rfl rfl)
          (fun g u _ hu => h.apart g u hu) h.target_le ?_ ?_
        · simp only
          omega
        · simp only
          omega
      · have hlen := length_removeAll h.tracks.nodup_mfu ((h.tracks.mem_mfu f).mpr ⟨status, hs, hst⟩)
        simp only [hst, if_false] at hr
        cases hr
        refine h.set (x := none) rfl rfl htracks (by simp) (h.ghosts.congr rfl rfl rfl)
          (fun g u _ hu => h.apart g u hu) h.target_le hrec ?_
        simp only
        omega

end Directory

/-! ## Every run -/

/-- The calls the buffer pool issues: frames below the size, an access to a live frame with its own
page, to another with a page that is not live, and removal of evictable frames. A call of `evict`
that finds none changes nothing. -/
inductive Reachable (c : Nat) : ArcReplacer → Prop where
  | create : Reachable c (ArcReplacer.create c)
  | evict {r r' : ArcReplacer} {f : FrameId} (h : Reachable c r)
      (hr : r.evict = some (f, r')) : Reachable c r'
  | recordAccess {r : ArcReplacer} {f : FrameId} {p : PageId} (h : Reachable c r) (hf : f < c)
      (hown : ∀ s, r.aliveMap f = some s → s.pageId = p)
      (hfresh : r.aliveMap f = none → ∀ g s, r.aliveMap g = some s → s.pageId ≠ p) :
      Reachable c (r.recordAccess f p)
  | setEvictable {r : ArcReplacer} (f : FrameId) (b : Bool) (h : Reachable c r) :
      Reachable c (r.setEvictable f b)
  | remove {r r' : ArcReplacer} {f : FrameId} (h : Reachable c r)
      (hev : ∀ s, r.aliveMap f = some s → s.evictable = true) (hr : r.remove f = .ok r') :
      Reachable c r'

/-- What the lists and maps of a replacer for `c` frames say of each other. -/
structure Consistent (c : Nat) (r : ArcReplacer) : Prop where
  live_nodup : (r.mru ++ r.mfu).Nodup
  mru_live : ∀ f, f ∈ r.mru ↔ ∃ s, r.aliveMap f = some s ∧ s.arcStatus = .mru
  mfu_live : ∀ f, f ∈ r.mfu ↔ ∃ s, r.aliveMap f = some s ∧ s.arcStatus = .mfu
  live_listed : ∀ f, r.aliveMap f ≠ none → f ∈ r.mru ++ r.mfu
  ghosts_nodup : (r.mruGhost ++ r.mfuGhost).Nodup
  mru_ghost : ∀ pid, pid ∈ r.mruGhost ↔ ∃ s, r.ghostMap pid = some s ∧ s.arcStatus = .mruGhost
  mfu_ghost : ∀ pid, pid ∈ r.mfuGhost ↔ ∃ s, r.ghostMap pid = some s ∧ s.arcStatus = .mfuGhost
  ghosts_listed : ∀ pid, r.ghostMap pid ≠ none → pid ∈ r.mruGhost ++ r.mfuGhost
  apart : ∀ f s, r.aliveMap f = some s → r.ghostMap s.pageId = none
  size : r.currSize = (r.mru ++ r.mfu).countP fun f => (r.aliveMap f).any FrameStatus.evictable
  target_le : r.mruTargetSize ≤ c
  recency_le : r.mru.length + r.mruGhost.length ≤ c
  total_le : r.mru.length + r.mfu.length + r.mruGhost.length + r.mfuGhost.length ≤ 2 * c

theorem replacerSize_recordAccess (r : ArcReplacer) (f : FrameId) (pid : PageId) :
    (r.recordAccess f pid).replacerSize = r.replacerSize := by
  unfold ArcReplacer.recordAccess
  split
  · unfold ArcReplacer.promote
    split <;> rfl
  · split
    · unfold ArcReplacer.resurrect
      split <;> rfl
    · unfold ArcReplacer.admitNew
      have htrim := trimGhosts_trimmed r
      generalize r.trimGhosts = q at htrim ⊢
      cases htrim <;> rfl

theorem replacerSize_evict {r' : ArcReplacer} (he : r.evict = some (f, r')) :
    r'.replacerSize = r.replacerSize := by
  rcases Tracks.evict_cases he with he | he
  · obtain ⟨status, _, _, _, rfl⟩ := Tracks.tryEvictMru_eq he
    rfl
  · obtain ⟨status, _, _, _, rfl⟩ := Tracks.tryEvictMfu_eq he
    rfl

theorem replacerSize_setEvictable (r : ArcReplacer) (f : FrameId) (b : Bool) :
    (r.setEvictable f b).replacerSize = r.replacerSize := by
  unfold ArcReplacer.setEvictable
  split
  · rfl
  · split <;> rfl

theorem replacerSize_remove {r' : ArcReplacer} (hr : r.remove f = .ok r') :
    r'.replacerSize = r.replacerSize := by
  unfold ArcReplacer.remove at hr
  split at hr
  next =>
    cases hr
    rfl
  next =>
    split at hr
    next =>
      cases hr
      split <;> rfl
    next => cases hr

theorem Reachable.directory {c : Nat} (h : Reachable c r) : Directory r ∧ r.replacerSize = c := by
  induction h with
  | create => exact ⟨.create c, rfl⟩
  | evict _ hr ih => exact ⟨ih.1.evict hr, (replacerSize_evict hr).trans ih.2⟩
  | recordAccess _ hf _ hfresh ih =>
      exact ⟨ih.1.recordAccess (ih.2 ▸ hf) hfresh, (replacerSize_recordAccess _ _ _).trans ih.2⟩
  | setEvictable f b _ ih =>
      exact ⟨ih.1.setEvictable f b, (replacerSize_setEvictable _ f b).trans ih.2⟩
  | remove _ hev hr ih => exact ⟨ih.1.remove hev hr, (replacerSize_remove hr).trans ih.2⟩

theorem Directory.consistent (hd : Directory r) : Consistent r.replacerSize r := by
  have hlive : ∀ f, (∃ s, r.aliveMap f = some s ∧ s.arcStatus ≠ .mru) ↔
      ∃ s, r.aliveMap f = some s ∧ s.arcStatus = .mfu := by
    intro f
    refine exists_congr fun s => and_congr_right fun hs => ?_
    rcases hd.status f s hs with hst | hst <;> simp [hst]
  constructor
  case live_nodup => exact hd.tracks.nodup
  case mru_live => exact hd.tracks.mem_mru
  case mfu_live => exact fun f => (hd.tracks.mem_mfu f).trans (hlive f)
  case live_listed =>
    intro f hf
    refine hd.tracks.mem_live.mpr ?_
    simpa [flags] using hf
  case ghosts_nodup =>
    exact hd.ghosts.nodup_mru.append hd.ghosts.nodup_mfu fun _ hm hf => hd.ghosts.disjoint hm hf
  case mru_ghost => exact hd.ghosts.mem_mru
  case mfu_ghost => exact hd.ghosts.mem_mfu
  case ghosts_listed =>
    intro pid hpid
    obtain ⟨s, hs⟩ := Option.ne_none_iff_exists'.mp hpid
    rw [List.mem_append, hd.ghosts.mem_mru, hd.ghosts.mem_mfu]
    exact (hd.ghosts.status pid s hs).imp (fun hst => ⟨s, hs, hst⟩) fun hst => ⟨s, hs, hst⟩
  case apart => exact hd.apart
  case size =>
    rw [hd.tracks.size]
    apply List.countP_congr
    intro f _
    unfold flags
    cases r.aliveMap f <;> simp
  case target_le => exact hd.target_le
  case recency_le => exact hd.recency_le
  case total_le => exact hd.total_le

/-- After every sequence of calls the lists and maps agree, and are as short as ARC keeps them. -/
theorem reachable_consistent (c : Nat) (r : ArcReplacer) (h : Reachable c r) : Consistent c r := by
  obtain ⟨hd, rfl⟩ := h.directory
  exact hd.consistent

/-- Two frames, a page evicted and accessed again as a ghost. -/
theorem reachable_consistent_resurrected : ∃ r, Reachable 2 r ∧ r.mfu = [0] ∧ r.mruTargetSize = 1 ∧
    Consistent 2 r := by
  have h₁ := Reachable.recordAccess (f := 0) (p := 7) (.create (c := 2)) (by decide)
    (fun s hs => by cases hs) fun _ g s hs => by cases hs
  have h₂ := h₁.setEvictable 0 true
  have h₃ := h₂.evict (f := 0) rfl
  have h₄ := h₃.recordAccess (f := 0) (p := 7) (by decide) (fun s hs => by cases hs)
    fun _ g s hs => by cases g <;> cases hs
  exact ⟨_, h₄, rfl, rfl, reachable_consistent 2 _ h₄⟩

end TurtleDb.Buffer.ArcReplacer
