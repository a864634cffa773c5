import Mathlib.Data.List.Nodup
import Mathlib.Data.List.Count
import Mathlib.Data.List.Perm.Basic
import TurtleDb.Buffer.ArcReplacer

/-!
# What the replacer tracks

Seen from the buffer pool the replacer is a partial map from frames to their evictable flags. Each
operation is one update of that map; which victim ARC prefers does not matter there.
-/

namespace TurtleDb.Buffer.ArcReplacer

/-- The replacer tracks the frames of `t`, each under its own id, with the flag `t` gives it. -/
structure Tracks (r : ArcReplacer) (t : FrameId → Option Bool) : Prop where
  alive : ∀ f, (r.aliveMap f).map FrameStatus.evictable = t f
  own : ∀ f s, r.aliveMap f = some s → s.frameId = f
  nodup_mru : r.mru.Nodup
  nodup_mfu : r.mfu.Nodup
  mem_mru : ∀ f, f ∈ r.mru ↔ ∃ s, r.aliveMap f = some s ∧ s.arcStatus = .mru
  mem_mfu : ∀ f, f ∈ r.mfu ↔ ∃ s, r.aliveMap f = some s ∧ s.arcStatus ≠ .mru
  size : r.currSize = (r.mru ++ r.mfu).countP fun f => t f == some true

/-- The evictable flags of the tracked frames. -/
def flags (r : ArcReplacer) (f : FrameId) : Option Bool := (r.aliveMap f).map FrameStatus.evictable

theorem Tracks.eq_flags {r : ArcReplacer} {t : FrameId → Option Bool} (h : Tracks r t) :
    r.flags = t := funext h.alive

/-! ## Lists -/

@[simp] theorem mem_removeAll {l : List Nat} {a b : Nat} : b ∈ removeAll l a ↔ b ∈ l ∧ b ≠ a := by
  simp [removeAll]

theorem nodup_removeAll {l : List Nat} (a : Nat) : l.Nodup → (removeAll l a).Nodup :=
  List.Nodup.filter _

theorem mem_eraseLast {l : List FrameId} (h : l.Nodup) {a b : FrameId} :
    b ∈ eraseLast l a ↔ b ≠ a ∧ b ∈ l := by
  rw [eraseLast, List.mem_reverse, (List.nodup_reverse.mpr h).mem_erase_iff, List.mem_reverse]

theorem nodup_eraseLast {l : List FrameId} (h : l.Nodup) (a : FrameId) : (eraseLast l a).Nodup :=
  List.nodup_reverse.mpr ((List.nodup_reverse.mpr h).erase a)

theorem countP_eq_erase (l : List FrameId) (f : FrameId) (p : FrameId → Bool) :
    l.countP p = (l.erase f).countP p + if f ∈ l ∧ p f = true then 1 else 0 := by
  by_cases hf : f ∈ l
  · rw [(List.perm_cons_erase hf).countP_eq p, List.countP_cons]
    simp [hf]
  · rw [List.erase_of_not_mem hf]
    simp [hf]

/-- Two lists that differ only in whether they have `f` count alike off `f`. -/
theorem countP_of_off {l l' : List FrameId} (hl : l.Nodup) (hl' : l'.Nodup) {f : FrameId}
    {p q : FrameId → Bool} (hmem : ∀ g, g ≠ f → (g ∈ l ↔ g ∈ l')) (hp : ∀ g, g ≠ f → p g = q g) :
    l.countP p + (if f ∈ l' ∧ q f = true then 1 else 0) =
      l'.countP q + if f ∈ l ∧ p f = true then 1 else 0 := by
  have hperm : (l.erase f).Perm (l'.erase f) := by
    rw [List.perm_ext_iff_of_nodup (hl.erase f) (hl'.erase f)]
    intro g
    rw [hl.mem_erase_iff, hl'.mem_erase_iff]
    exact and_congr_right fun hg => hmem g hg
  have hcount : (l.erase f).countP p = (l'.erase f).countP q := by
    rw [hperm.countP_eq p]
    apply List.countP_congr
    intro g hg
    rw [hp g (hl'.mem_erase_iff.mp hg).1]
  rw [countP_eq_erase l f p, countP_eq_erase l' f q, hcount]
  omega

namespace Tracks

variable {r : ArcReplacer} {t : FrameId → Option Bool} {f : FrameId}

theorem create (n : Nat) : Tracks (ArcReplacer.create n) fun _ => none := by
  constructor <;> simp [ArcReplacer.create]

theorem mem_live (h : Tracks r t) : f ∈ r.mru ++ r.mfu ↔ t f ≠ none := by
  rw [List.mem_append, h.mem_mru, h.mem_mfu, ← h.alive]
  cases hs : r.aliveMap f with
  | none => simp
  | some s => simp [em]

theorem disjoint (h : Tracks r t) {g : FrameId} (hm : g ∈ r.mru) (hf : g ∈ r.mfu) : False := by
  obtain ⟨s, hs, hst⟩ := (h.mem_mru g).mp hm
  obtain ⟨s', hs', hst'⟩ := (h.mem_mfu g).mp hf
  cases hs.symm.trans hs'
  exact hst' hst

theorem nodup (h : Tracks r t) : (r.mru ++ r.mfu).Nodup :=
  h.nodup_mru.append h.nodup_mfu fun _ hm hf => h.disjoint hm hf

/-- Changing what is known of one frame: the two lists have to follow, and the size. -/
theorem set (h : Tracks r t) {r' : ArcReplacer} {x : Option FrameStatus}
    (halive : r'.aliveMap = Function.update r.aliveMap f x) (hown : ∀ s, x = some s → s.frameId = f)
    (hmru : r'.mru.Nodup) (hmfu : r'.mfu.Nodup)
    (hmem_mru : ∀ g, g ≠ f → (g ∈ r'.mru ↔ g ∈ r.mru))
    (hmem_mfu : ∀ g, g ≠ f → (g ∈ r'.mfu ↔ g ∈ r.mfu))
    (hf_mru : f ∈ r'.mru ↔ ∃ s, x = some s ∧ s.arcStatus = .mru)
    (hf_mfu : f ∈ r'.mfu ↔ ∃ s, x = some s ∧ s.arcStatus ≠ .mru)
    (hsize : r'.currSize + (if t f = some true then 1 else 0) =
      r.currSize + if x.map FrameStatus.evictable = some true then 1 else 0) :
    Tracks r' (Function.update t f (x.map FrameStatus.evictable)) := by
  have hself : r'.aliveMap f = x := by rw [halive, Function.update_self]
  have hother : ∀ g, g ≠ f → r'.aliveMap g = r.aliveMap g := fun g hg => by
    rw [halive, Function.update_of_ne hg]
  have hlive : f ∈ r'.mru ++ r'.mfu ↔ x ≠ none := by
    rw [List.mem_append, hf_mru, hf_mfu]
    cases x with
    | none => simp
    | some s => simp [em]
  have hmem_mru' : ∀ g, g ∈ r'.mru ↔ ∃ s, r'.aliveMap g = some s ∧ s.arcStatus = .mru := by
    intro g
    by_cases hg : g = f
    · rw [hg, hself, hf_mru]
    · rw [hother g hg, hmem_mru g hg, h.mem_mru]
  have hmem_mfu' : ∀ g, g ∈ r'.mfu ↔ ∃ s, r'.aliveMap g = some s ∧ s.arcStatus ≠ .mru := by
    intro g
    by_cases hg : g = f
    · rw [hg, hself, hf_mfu]
    · rw [hother g hg, hmem_mfu g hg, h.mem_mfu]
  have hnodup : (r'.mru ++ r'.mfu).Nodup := by
    refine hmru.append hmfu fun g hm hf => ?_
    obtain ⟨s, hs, hst⟩ := (hmem_mru' g).mp hm
    obtain ⟨s', hs', hst'⟩ := (hmem_mfu' g).mp hf
    cases hs.symm.trans hs'
    exact hst' hst
  constructor
  case alive =>
    intro g
    by_cases hg : g = f
    · rw [hg, hself, Function.update_self]
    · rw [hother g hg, Function.update_of_ne hg, h.alive]
  case own =>
    intro g s hs
    by_cases hg : g = f
    · rw [hg] at hs ⊢
      exact hown s (hself ▸ hs)
    · exact h.own g s (hother g hg ▸ hs)
  case nodup_mru => exact hmru
  case nodup_mfu => exact hmfu
  case mem_mru => exact hmem_mru'
  case mem_mfu => exact hmem_mfu'
  case size =>
    have hcount := countP_of_off (f := f) h.nodup hnodup
      (p := fun g => t g == some true)
      (q := fun g => Function.update t f (x.map FrameStatus.evictable) g == some true)
      (fun g hg => by rw [List.mem_append, List.mem_append, hmem_mru g hg, hmem_mfu g hg])
      (fun g hg => by rw [Function.update_of_ne hg])
    have h1 : (f ∈ r.mru ++ r.mfu ∧ (t f == some true) = true) ↔ t f = some true := by
      rw [h.mem_live, beq_iff_eq]
      constructor
      · exact fun hp => hp.2
      · intro hp
        rw [hp]
        simp
    have h2 : (f ∈ r'.mru ++ r'.mfu ∧
        (Function.update t f (x.map FrameStatus.evictable) f == some true) = true) ↔
        x.map FrameStatus.evictable = some true := by
      rw [hlive, beq_iff_eq, Function.update_self]
      constructor
      · exact fun hp => hp.2
      · rintro hp
        refine ⟨?_, hp⟩
        rintro rfl
        cases hp
    rw [if_congr h1 rfl rfl, if_congr h2 rfl rfl, ← h.size] at hcount
    omega

/-! ## Eviction -/

theorem evict_cases {r' : ArcReplacer} (he : r.evict = some (f, r')) :
    r.tryEvictMru = some (f, r') ∨ r.tryEvictMfu = some (f, r') := by
  unfold ArcReplacer.evict at he
  split at he
  next => cases he
  next =>
    split at he
    · rcases Option.or_eq_some_iff.mp he with he | ⟨_, he⟩
      · exact .inl he
      · exact .inr he
    · rcases Option.or_eq_some_iff.mp he with he | ⟨_, he⟩
      · exact .inr he
      · exact .inl he

theorem findVictim_eq_some {live : List FrameId} {fid : FrameId} {status : FrameStatus}
    (h : r.findVictim live = some (fid, status)) :
    fid ∈ live ∧ r.aliveMap fid = some status ∧ status.evictable = true := by
  obtain ⟨l₁, g, l₂, hl, hg, _⟩ := List.findSome?_eq_some_iff.mp h
  have hmem : g ∈ live := by
    rw [← List.mem_reverse, hl]
    simp
  cases hs : r.aliveMap g with
  | none =>
      rw [hs] at hg
      cases hg
  | some s =>
      simp only [hs] at hg
      split at hg
      next he =>
        cases hg
        exact ⟨hmem, hs, he⟩
      next => cases hg

theorem tryEvictMru_eq {r' : ArcReplacer} (he : r.tryEvictMru = some (f, r')) :
    ∃ status, f ∈ r.mru ∧ r.aliveMap f = some status ∧ status.evictable = true ∧
      r' = { r.demote f status .mruGhost with
        mruGhost := status.pageId :: r.mruGhost, mru := eraseLast r.mru f } := by
  unfold tryEvictMru at he
  cases hv : r.findVictim r.mru with
  | none =>
      rw [hv] at he
      cases he
  | some v =>
      obtain ⟨fid, status⟩ := v
      rw [hv] at he
      cases he
      obtain ⟨hmem, hs, hev⟩ := findVictim_eq_some hv
      exact ⟨status, hmem, hs, hev, rfl⟩

theorem tryEvictMfu_eq {r' : ArcReplacer} (he : r.tryEvictMfu = some (f, r')) :
    ∃ status, f ∈ r.mfu ∧ r.aliveMap f = some status ∧ status.evictable = true ∧
      r' = { r.demote f status .mfuGhost with
        mfuGhost := status.pageId :: r.mfuGhost, mfu := eraseLast r.mfu f } := by
  unfold tryEvictMfu at he
  cases hv : r.findVictim r.mfu with
  | none =>
      rw [hv] at he
      cases he
  | some v =>
      obtain ⟨fid, status⟩ := v
      rw [hv] at he
      cases he
      obtain ⟨hmem, hs, hev⟩ := findVictim_eq_some hv
      exact ⟨status, hmem, hs, hev, rfl⟩

theorem findVictim_eq_none (h : Tracks r t) {live : List FrameId} (hnone : r.findVictim live = none)
    {g : FrameId} (hg : g ∈ live) : t g ≠ some true := by
  have := List.findSome?_eq_none_iff.mp hnone g (List.mem_reverse.mpr hg)
  rw [← h.alive]
  cases hs : r.aliveMap g with
  | none => simp
  | some s =>
      simp only [hs] at this
      split at this
      next => cases this
      next he => simpa using he

theorem decrement_of_evictable (h : Tracks r t) (hf : t f = some true) :
    decrement r.currSize + 1 = r.currSize := by
  have hmem : f ∈ r.mru ++ r.mfu := h.mem_live.mpr (by rw [hf]; simp)
  have hpos : 0 < r.currSize := by
    rw [h.size]
    exact List.countP_pos_iff.mpr ⟨f, hmem, by simp [hf]⟩
  rw [decrement, if_neg (by omega)]
  omega

theorem tryEvictMru_some (h : Tracks r t) {r' : ArcReplacer} (he : r.tryEvictMru = some (f, r')) :
    t f = some true ∧ Tracks r' (Function.update t f none) := by
  obtain ⟨status, hmem, hs, hev, rfl⟩ := tryEvictMru_eq he
  have htf : t f = some true := by rw [← h.alive, hs, Option.map_some, hev]
  have hsize := h.decrement_of_evictable htf
  refine ⟨htf, h.set (x := none) rfl (by simp) (nodup_eraseLast h.nodup_mru f) h.nodup_mfu
    (fun g hg => ?_) (fun g _ => Iff.rfl) ?_ ?_ ?_⟩
  · simp [mem_eraseLast h.nodup_mru, hg]
  · simp [mem_eraseLast h.nodup_mru]
  · simp only [reduceCtorEq, false_and, exists_false, iff_false]
    exact fun hmfu => h.disjoint hmem hmfu
  · simpa [htf, demote] using hsize

theorem tryEvictMfu_some (h : Tracks r t) {r' : ArcReplacer} (he : r.tryEvictMfu = some (f, r')) :
    t f = some true ∧ Tracks r' (Function.update t f none) := by
  obtain ⟨status, hmem, hs, hev, rfl⟩ := tryEvictMfu_eq he
  have htf : t f = some true := by rw [← h.alive, hs, Option.map_some, hev]
  have hsize := h.decrement_of_evictable htf
  refine ⟨htf, h.set (x := none) rfl (by simp) h.nodup_mru (nodup_eraseLast h.nodup_mfu f)
    (fun g _ => Iff.rfl) (fun g hg => ?_) ?_ ?_ ?_⟩
  · simp [mem_eraseLast h.nodup_mfu, hg]
  · simp only [reduceCtorEq, false_and, exists_false, iff_false]
    exact fun hmru => h.disjoint hmru hmem
  · simp [mem_eraseLast h.nodup_mfu]
  · simpa [htf, demote] using hsize

/-- What is evicted was evictable, and is no longer tracked. -/
theorem evict_some (h : Tracks r t) {r' : ArcReplacer} (he : r.evict = some (f, r')) :
    t f = some true ∧ Tracks r' (Function.update t f none) := by
  rcases evict_cases he with he | he
  · exact h.tryEvictMru_some he
  · exact h.tryEvictMfu_some he

theorem evict_none (h : Tracks r t) (he : r.evict = none) (f : FrameId) : t f ≠ some true := by
  intro hf
  have hmem : f ∈ r.mru ++ r.mfu := h.mem_live.mpr (by rw [hf]; simp)
  have hsize := h.decrement_of_evictable hf
  have hboth : r.tryEvictMru = none ∧ r.tryEvictMfu = none := by
    unfold evict at he
    rw [if_neg (by omega)] at he
    split at he
    · exact Option.or_eq_none_iff.mp he
    · exact (Option.or_eq_none_iff.mp he).symm
  rcases List.mem_append.mp hmem with hm | hm
  · refine h.findVictim_eq_none ?_ hm hf
    have := hboth.1
    unfold tryEvictMru at this
    split at this
    next hv => exact hv
    next => cases this
  · refine h.findVictim_eq_none ?_ hm hf
    have := hboth.2
    unfold tryEvictMfu at this
    split at this
    next hv => exact hv
    next => cases this

/-! ## Accesses -/

theorem promote (h : Tracks r t) {status : FrameStatus} (hs : r.aliveMap f = some status) :
    Tracks (r.promote f status) (Function.update t f (some status.evictable)) := by
  have hown := h.own f status hs
  have htf : t f = some status.evictable := by rw [← h.alive, hs, Option.map_some]
  by_cases hst : status.arcStatus = .mru
  · have hr : r.promote f status = { r with
        mru := removeAll r.mru f, mfu := f :: r.mfu
        aliveMap := Function.update r.aliveMap f (some { status with arcStatus := .mfu }) } := by
      simp [ArcReplacer.promote, hst]
    have hnot : f ∉ r.mfu := fun hf => h.disjoint ((h.mem_mru f).mpr ⟨status, hs, hst⟩) hf
    rw [hr]
    refine h.set (x := some { status with arcStatus := .mfu }) rfl ?_
      (nodup_removeAll f h.nodup_mru) (List.nodup_cons.mpr ⟨hnot, h.nodup_mfu⟩) ?_ ?_ ?_ ?_ ?_
    · rintro s ⟨⟩
      exact hown
    · intro g hg
      simp [hg]
    · intro g hg
      simp [hg]
    · simp
    · simp
    · simp [htf]
  · have hr : r.promote f status = { r with
        mfu := f :: removeAll r.mfu f
        aliveMap := Function.update r.aliveMap f (some { status with arcStatus := .mfu }) } := by
      simp [ArcReplacer.promote, hst]
    have hnot : f ∉ r.mru := by
      intro hf
      obtain ⟨s, hs', hs''⟩ := (h.mem_mru f).mp hf
      cases hs.symm.trans hs'
      exact hst hs''
    rw [hr]
    refine h.set (x := some { status with arcStatus := .mfu }) rfl ?_ h.nodup_mru
      (List.nodup_cons.mpr ⟨by simp, nodup_removeAll f h.nodup_mfu⟩) ?_ ?_ ?_ ?_ ?_
    · rintro s ⟨⟩
      exact hown
    · exact fun g _ => Iff.rfl
    · intro g hg
      simp [hg]
    · simpa using hnot
    · simp
    · simp [htf]

/-- The frames of a replacer are those of another with the same live lists. -/
theorem congr (h : Tracks r t) {r' : ArcReplacer} (hmru : r'.mru = r.mru) (hmfu : r'.mfu = r.mfu)
    (halive : r'.aliveMap = r.aliveMap) (hsize : r'.currSize = r.currSize) : Tracks r' t := by
  constructor
  case alive => exact halive ▸ h.alive
  case own => exact halive ▸ h.own
  case nodup_mru => exact hmru ▸ h.nodup_mru
  case nodup_mfu => exact hmfu ▸ h.nodup_mfu
  case mem_mru => rw [hmru, halive]; exact h.mem_mru
  case mem_mfu => rw [hmfu, halive]; exact h.mem_mfu
  case size => rw [hmru, hmfu, hsize]; exact h.size

theorem trimGhosts (h : Tracks r t) : Tracks r.trimGhosts t := by
  unfold ArcReplacer.trimGhosts
  cases r.mruGhost.getLast? <;> cases r.mfuGhost.getLast? <;> dsimp only <;> split_ifs <;>
    exact h.congr rfl rfl rfl rfl

theorem admitNew (h : Tracks r t) (hf : t f = none) (pid : PageId) :
    Tracks (r.admitNew f pid) (Function.update t f (some false)) := by
  have h' := h.trimGhosts
  have hlive : f ∉ r.trimGhosts.mru ++ r.trimGhosts.mfu := fun hm => h'.mem_live.mp hm hf
  rw [List.mem_append, not_or] at hlive
  refine h'.set (r := r.trimGhosts)
    (x := some { pageId := pid, frameId := f, evictable := false, arcStatus := .mru }) rfl ?_
    (List.nodup_cons.mpr ⟨hlive.1, h'.nodup_mru⟩) h'.nodup_mfu ?_ ?_ ?_ ?_ ?_
  · rintro s ⟨⟩
    rfl
  · intro g hg
    simp [ArcReplacer.admitNew, hg]
  · exact fun g _ => Iff.rfl
  · simp [ArcReplacer.admitNew]
  · simpa [ArcReplacer.admitNew] using hlive.2
  · simp [ArcReplacer.admitNew, hf]

theorem resurrect (h : Tracks r t) (hf : t f = none) (pid : PageId) (status : FrameStatus) :
    Tracks (r.resurrect f pid status) (Function.update t f (some false)) := by
  have hlive : f ∉ r.mru ++ r.mfu := fun hm => h.mem_live.mp hm hf
  rw [List.mem_append, not_or] at hlive
  have hmru : (r.resurrect f pid status).mru = r.mru := by
    unfold ArcReplacer.resurrect
    split <;> rfl
  have hmfu : (r.resurrect f pid status).mfu = f :: r.mfu := by
    unfold ArcReplacer.resurrect
    split <;> rfl
  have halive : (r.resurrect f pid status).aliveMap = Function.update r.aliveMap f
      (some { pageId := pid, frameId := f, evictable := false, arcStatus := .mfu }) := by
    unfold ArcReplacer.resurrect
    split <;> rfl
  have hsize : (r.resurrect f pid status).currSize = r.currSize := by
    unfold ArcReplacer.resurrect
    split <;> rfl
  refine h.set (x := some { pageId := pid, frameId := f, evictable := false, arcStatus := .mfu })
    halive ?_ (hmru ▸ h.nodup_mru) ?_ ?_ ?_ ?_ ?_ ?_
  · rintro s ⟨⟩
    rfl
  · rw [hmfu]
    exact List.nodup_cons.mpr ⟨hlive.2, h.nodup_mfu⟩
  · intro g _
    rw [hmru]
  · intro g hg
    simp [hmfu, hg]
  · simpa [hmru] using hlive.1
  · simp [hmfu]
  · simp [hsize, hf]

/-- An access keeps the flag of a frame that is tracked, and tracks one that is not as pinned. -/
theorem recordAccess (h : Tracks r t) (f : FrameId) (pid : PageId) :
    Tracks (r.recordAccess f pid) (Function.update t f (some ((t f).getD false))) := by
  unfold ArcReplacer.recordAccess
  cases hs : r.aliveMap f with
  | some status =>
      have htf : t f = some status.evictable := by rw [← h.alive, hs, Option.map_some]
      rw [htf]
      exact h.promote hs
  | none =>
      have htf : t f = none := by rw [← h.alive, hs, Option.map_none]
      rw [htf]
      cases r.ghostMap pid with
      | some status => exact h.resurrect htf pid status
      | none => exact h.admitNew htf pid

/-! ## Pins -/

theorem setEvictable (h : Tracks r t) (hf : t f ≠ none) (b : Bool) :
    Tracks (r.setEvictable f b) (Function.update t f (some b)) := by
  unfold ArcReplacer.setEvictable
  cases hs : r.aliveMap f with
  | none => exact absurd (by rw [← h.alive, hs, Option.map_none]) hf
  | some status =>
      have htf : t f = some status.evictable := by rw [← h.alive, hs, Option.map_some]
      simp only
      split
      next hb =>
        rw [← hb, ← htf, Function.update_eq_self]
        exact h
      next hb =>
        refine h.set (x := some { status with evictable := b }) rfl ?_ h.nodup_mru h.nodup_mfu
          (fun g _ => Iff.rfl) (fun g _ => Iff.rfl) ?_ ?_ ?_
        · rintro s ⟨⟩
          exact h.own f status hs
        · rw [h.mem_mru, hs]
          simp
        · rw [h.mem_mfu, hs]
          simp
        · cases b with
          | true =>
              have hno : status.evictable = false := by simpa using hb
              simp [htf, hno]
          | false =>
              have hyes : status.evictable = true := by simpa using hb
              have := h.decrement_of_evictable (htf.trans (congrArg some hyes))
              simpa [htf, hyes] using this

theorem pin (h : Tracks r t) (f : FrameId) (pid : PageId) :
    Tracks ((r.recordAccess f pid).setEvictable f false) (Function.update t f (some false)) := by
  have hrec := h.recordAccess f pid
  have := hrec.setEvictable (f := f) (by simp) false
  rwa [Function.update_idem] at this

theorem remove (h : Tracks r t) (hf : t f = some true) :
    ∃ r', r.remove f = .ok r' ∧ Tracks r' (Function.update t f none) := by
  unfold ArcReplacer.remove
  have hsize := h.decrement_of_evictable hf
  cases hs : r.aliveMap f with
  | none => exact absurd (by rw [← h.alive, hs, Option.map_none]) (show t f ≠ none by simp [hf])
  | some status =>
      have hev : status.evictable = true := by
        rw [← h.alive, hs, Option.map_some] at hf
        exact Option.some.inj hf
      simp only [hev, if_true]
      by_cases hst : status.arcStatus = .mru
      · have hmem : f ∈ r.mru := (h.mem_mru f).mpr ⟨status, hs, hst⟩
        simp only [hst, if_true]
        refine ⟨_, rfl, h.set (x := none) rfl (by simp) (nodup_removeAll f h.nodup_mru) h.nodup_mfu
          (fun g hg => ?_) (fun g _ => Iff.rfl) ?_ ?_ ?_⟩
        · simp [hg]
        · simp
        · simp only [reduceCtorEq, false_and, exists_false, iff_false]
          exact fun hmfu => h.disjoint hmem hmfu
        · simpa [hf] using hsize
      · have hmem : f ∈ r.mfu := (h.mem_mfu f).mpr ⟨status, hs, hst⟩
        simp only [hst, if_false]
        refine ⟨_, rfl, h.set (x := none) rfl (by simp) h.nodup_mru (nodup_removeAll f h.nodup_mfu)
          (fun g _ => Iff.rfl) (fun g hg => ?_) ?_ ?_ ?_⟩
        · simp [hg]
        · simp only [reduceCtorEq, false_and, exists_false, iff_false]
          exact fun hmru => h.disjoint hmru hmem
        · simp
        · simpa [hf] using hsize

end Tracks

end TurtleDb.Buffer.ArcReplacer
