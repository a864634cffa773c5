import TurtleDb.Buffer.Directory

/-!
# The victim of ARC

Which frame `evict` takes, and what else it changes: in a consistent replacer it takes the evictable
frame closest to the back of the list it prefers, or of the other one if that has none.
-/

namespace TurtleDb.Buffer.ArcReplacer

/-- The frame is alive and evictable. -/
def Evictable (r : ArcReplacer) (f : FrameId) : Prop :=
  ∃ status, r.aliveMap f = some status ∧ status.evictable = true

/-- `evict` takes `f` and leaves `r'`. `mru` is preferred above its target size, `mfu` up to it; the
other list is for when the preferred one has no evictable frame. -/
inductive Evicts (r : ArcReplacer) : FrameId → ArcReplacer → Prop where
  | mru {pre post f status} (hlist : r.mru = pre ++ f :: post)
      (halive : r.aliveMap f = some status) (hev : status.evictable = true)
      (hlast : ∀ g ∈ post, ¬ Evictable r g)
      (hpreferred : r.mruTargetSize < r.mru.length ∨ ∀ g ∈ r.mfu, ¬ Evictable r g) :
      Evicts r f { r with
        mru := pre ++ post
        mruGhost := status.pageId :: r.mruGhost
        aliveMap := Function.update r.aliveMap f none
        ghostMap := Function.update r.ghostMap status.pageId
          (some { status with arcStatus := .mruGhost, frameId := invalidFrameId })
        currSize := r.currSize - 1 }
  | mfu {pre post f status} (hlist : r.mfu = pre ++ f :: post)
      (halive : r.aliveMap f = some status) (hev : status.evictable = true)
      (hlast : ∀ g ∈ post, ¬ Evictable r g)
      (hpreferred : r.mru.length ≤ r.mruTargetSize ∨ ∀ g ∈ r.mru, ¬ Evictable r g) :
      Evicts r f { r with
        mfu := pre ++ post
        mfuGhost := status.pageId :: r.mfuGhost
        aliveMap := Function.update r.aliveMap f none
        ghostMap := Function.update r.ghostMap status.pageId
          (some { status with arcStatus := .mfuGhost, frameId := invalidFrameId })
        currSize := r.currSize - 1 }

variable {r r' : ArcReplacer} {c : Nat} {f : FrameId} {live : List FrameId}

/-- The walk from the back finds the last evictable frame, if there is one. -/
theorem findVictim_cases (r : ArcReplacer) (live : List FrameId) :
    (r.findVictim live = none ∧ ∀ g ∈ live, ¬ Evictable r g) ∨
      ∃ pre f post status, live = pre ++ f :: post ∧ r.aliveMap f = some status ∧
        status.evictable = true ∧ (∀ g ∈ post, ¬ Evictable r g) ∧
        r.findVictim live = some (f, status) := by
  cases hv : r.findVictim live with
  | none =>
      refine .inl ⟨rfl, fun g hg => ?_⟩
      rintro ⟨status, hs, hev⟩
      have hnone := List.findSome?_eq_none_iff.mp hv g (List.mem_reverse.mpr hg)
      simp only [hs, hev, if_true] at hnone
      cases hnone
  | some v =>
      obtain ⟨f, status⟩ := v
      obtain ⟨_, hs, hev⟩ := Tracks.findVictim_eq_some hv
      obtain ⟨post, g, pre, hl, hg, hpost⟩ := List.findSome?_eq_some_iff.mp hv
      have hgf : g = f := by
        split at hg
        · split at hg
          · exact congrArg Prod.fst (Option.some.inj hg)
          · cases hg
        · cases hg
      subst hgf
      refine .inr ⟨pre.reverse, g, post.reverse, status, ?_, hs, hev, fun e he => ?_, rfl⟩
      · rw [← List.reverse_reverse live, hl]
        simp
      · rintro ⟨status', hs', hev'⟩
        have hnone := hpost e (List.mem_reverse.mp he)
        simp only [hs', hev', if_true] at hnone
        cases hnone

theorem eraseLast_middle {pre post : List FrameId} (h : (pre ++ f :: post).Nodup) :
    eraseLast (pre ++ f :: post) f = pre ++ post := by
  have hpost : f ∉ post.reverse := by
    rw [List.nodup_middle, List.nodup_cons] at h
    exact fun hm => h.1 (List.mem_append_right _ (List.mem_reverse.mp hm))
  unfold eraseLast
  rw [List.reverse_append, List.reverse_cons, List.append_assoc,
    List.erase_append_right _ hpost]
  simp

namespace Consistent

theorem not_evictable_of_size (h : Consistent c r) (hsize : r.currSize = 0) (f : FrameId) :
    ¬ Evictable r f := by
  rintro ⟨status, hs, hev⟩
  rw [h.size, List.countP_eq_zero] at hsize
  refine hsize f (h.live_listed f (by rw [hs]; simp)) ?_
  simp [hs, hev]

theorem decrement_eq (hsize : r.currSize ≠ 0) : decrement r.currSize = r.currSize - 1 :=
  if_neg hsize

theorem tryEvictMru (h : Consistent c r) (hsize : r.currSize ≠ 0) :
    (r.tryEvictMru = none ∧ ∀ g ∈ r.mru, ¬ Evictable r g) ∨
      ∃ f r', r.tryEvictMru = some (f, r') ∧
        ((r.mruTargetSize < r.mru.length ∨ ∀ g ∈ r.mfu, ¬ Evictable r g) → Evicts r f r') := by
  unfold ArcReplacer.tryEvictMru
  rcases findVictim_cases r r.mru with ⟨hv, hno⟩ | ⟨pre, f, post, status, hl, hs, hev, hlast, hv⟩
  · exact .inl ⟨by rw [hv], hno⟩
  · have hnodup : (pre ++ f :: post).Nodup := hl ▸ (List.nodup_append.mp h.live_nodup).1
    refine .inr ⟨f, _, by rw [hv], fun hpreferred => ?_⟩
    have he := Evicts.mru hl hs hev hlast hpreferred
    simp only [demote, decrement_eq hsize]
    rw [hl, eraseLast_middle hnodup]
    exact he

theorem tryEvictMfu (h : Consistent c r) (hsize : r.currSize ≠ 0) :
    (r.tryEvictMfu = none ∧ ∀ g ∈ r.mfu, ¬ Evictable r g) ∨
      ∃ f r', r.tryEvictMfu = some (f, r') ∧
        ((r.mru.length ≤ r.mruTargetSize ∨ ∀ g ∈ r.mru, ¬ Evictable r g) → Evicts r f r') := by
  unfold ArcReplacer.tryEvictMfu
  rcases findVictim_cases r r.mfu with ⟨hv, hno⟩ | ⟨pre, f, post, status, hl, hs, hev, hlast, hv⟩
  · exact .inl ⟨by rw [hv], hno⟩
  · have hnodup : (pre ++ f :: post).Nodup := hl ▸ (List.nodup_append.mp h.live_nodup).2.1
    refine .inr ⟨f, _, by rw [hv], fun hpreferred => ?_⟩
    have he := Evicts.mfu hl hs hev hlast hpreferred
    simp only [demote, decrement_eq hsize]
    rw [hl, eraseLast_middle hnodup]
    exact he

theorem not_evictable (h : Consistent c r) (hmru : ∀ g ∈ r.mru, ¬ Evictable r g)
    (hmfu : ∀ g ∈ r.mfu, ¬ Evictable r g) (f : FrameId) : ¬ Evictable r f := by
  intro hf
  obtain ⟨status, hs, _⟩ := id hf
  rcases List.mem_append.mp (h.live_listed f (by rw [hs]; simp)) with hm | hm
  · exact hmru f hm hf
  · exact hmfu f hm hf

/-- `evict` gives up, or takes a victim. -/
theorem evict_cases (h : Consistent c r) :
    (r.evict = none ∧ ∀ f, ¬ Evictable r f) ∨ ∃ f r', r.evict = some (f, r') ∧ Evicts r f r' := by
  unfold ArcReplacer.evict
  split
  next hsize => exact .inl ⟨rfl, h.not_evictable_of_size hsize⟩
  next hsize =>
    have hmru := h.tryEvictMru hsize
    have hmfu := h.tryEvictMfu hsize
    split
    next hover =>
      rcases hmru with ⟨he, hno⟩ | ⟨f, r', he, hr⟩
      · rcases hmfu with ⟨he', hno'⟩ | ⟨f, r', he', hr⟩
        · exact .inl ⟨by rw [he, he']; rfl, h.not_evictable hno hno'⟩
        · exact .inr ⟨f, r', by rw [he, he']; rfl, hr (.inr hno)⟩
      · exact .inr ⟨f, r', by rw [he]; rfl, hr (.inl hover)⟩
    next hunder =>
      rcases hmfu with ⟨he, hno⟩ | ⟨f, r', he, hr⟩
      · rcases hmru with ⟨he', hno'⟩ | ⟨f, r', he', hr⟩
        · exact .inl ⟨by rw [he, he']; rfl, h.not_evictable hno' hno⟩
        · exact .inr ⟨f, r', by rw [he, he']; rfl, hr (.inr hno)⟩
      · exact .inr ⟨f, r', by rw [he]; rfl, hr (.inl (Nat.not_lt.mp hunder))⟩

end Consistent

theorem Evicts.evictable (h : Evicts r f r') : Evictable r f := by
  cases h with
  | mru _ hs hev _ _ => exact ⟨_, hs, hev⟩
  | mfu _ hs hev _ _ => exact ⟨_, hs, hev⟩

/-- In every state in which the directory is consistent, `evict` gives up exactly when no frame is
evictable, and otherwise takes the victim of `Evicts`. -/
theorem consistent_evict (c : Nat) (r : ArcReplacer) (h : Consistent c r) :
    (r.evict = none ↔ ∀ f, ¬ Evictable r f) ∧
      ∀ f r', r.evict = some (f, r') → Evictable r f ∧ Evicts r f r' := by
  rcases h.evict_cases with ⟨he, hno⟩ | ⟨f, r', he, hevicts⟩
  · refine ⟨⟨fun _ => hno, fun _ => he⟩, fun f r' hr => ?_⟩
    cases he.symm.trans hr
  · refine ⟨⟨fun hnone => ?_, fun hno => absurd hevicts.evictable (hno f)⟩, fun g r'' hr => ?_⟩
    · cases he.symm.trans hnone
    · cases he.symm.trans hr
      exact ⟨hevicts.evictable, hevicts⟩

/-- Two frames in `mru` over its target; the one behind is pinned. -/
theorem consistent_evict_pinned : ∃ r r', Reachable 2 r ∧ r.mru = [1, 0] ∧ ¬ Evictable r 0 ∧
    r.evict = some (1, r') ∧ Evicts r 1 r' := by
  have h₁ := Reachable.recordAccess (f := 0) (p := 7) (.create (c := 2)) (by decide)
    (fun s hs => by cases hs) fun _ g s hs => by cases hs
  have h₂ := h₁.recordAccess (f := 1) (p := 8) (by decide) (fun s hs => by cases hs)
    fun _ g s hs => by
      match g, hs with
      | 0, hs =>
        cases hs
        decide
      | g + 1, hs => cases hs
  have h₃ := h₂.setEvictable 1 true
  refine ⟨_, _, h₃, rfl, ?_, rfl, ((consistent_evict _ _ h₃.directory.1.consistent).2 1 _ rfl).2⟩
  rintro ⟨s, hs, hev⟩
  cases hs
  cases hev

end TurtleDb.Buffer.ArcReplacer
