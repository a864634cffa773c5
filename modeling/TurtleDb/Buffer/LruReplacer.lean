import Mathlib.Data.List.Nodup
import Mathlib.Logic.Function.Basic
import TurtleDb.Common
import TurtleDb.Lib.Run

/-!
# The LRU replacer

`buffer/lru_replacer.{hpp,cpp}`. A `std::list` keeps its elements in nodes that do not move, and an
iterator is the identity of a node. Erasing through an iterator that is not in the list is undefined
behaviour, so that `pin` may fail.
-/

namespace TurtleDb.Buffer

open TurtleDb.Lib

abbrev ListNode := Nat

structure LruReplacer where
  /-- `lru_list_`, its front first. -/
  lruList : List (ListNode × FrameId)
  lruMap : FrameId → Option ListNode
  /-- The node that `push_front` allocates next. -/
  nextNode : ListNode
  capacity : Nat

namespace LruReplacer

def create (numPages : Nat) : LruReplacer where
  lruList := []
  lruMap := fun _ => none
  nextNode := 0
  capacity := numPages

/-- The returned flag, what `*frame_id` is then, and the replacer. -/
def victim (r : LruReplacer) (frameId : FrameId) : Bool × FrameId × LruReplacer :=
  match r.lruList.getLast? with
  | none => (false, frameId, r)
  | some (_, back) =>
      (true, back, { r with
        lruList := r.lruList.dropLast, lruMap := Function.update r.lruMap back none })

/-- `std::list::erase`. -/
def eraseNode (l : List (ListNode × FrameId)) (node : ListNode) :
    Except Fault (List (ListNode × FrameId)) :=
  if node ∈ l.map Prod.fst then .ok (l.eraseP (·.1 = node)) else .error .outOfBounds

def pin (r : LruReplacer) (frameId : FrameId) : Except Fault LruReplacer :=
  match r.lruMap frameId with
  | none => .ok r
  | some node => do
      let lruList ← eraseNode r.lruList node
      return { r with lruList, lruMap := Function.update r.lruMap frameId none }

def unpin (r : LruReplacer) (frameId : FrameId) : LruReplacer :=
  match r.lruMap frameId with
  | some _ => r
  | none =>
      { r with
        lruList := (r.nextNode, frameId) :: r.lruList
        lruMap := Function.update r.lruMap frameId (some r.nextNode)
        nextNode := r.nextNode + 1 }

def size (r : LruReplacer) : Nat := r.lruList.length

/-- The frames in the list. -/
def frames (r : LruReplacer) : List FrameId := r.lruList.map Prod.snd

/-! ## Calls -/

inductive Call where
  | unpin (frameId : FrameId)
  | pin (frameId : FrameId)
  /-- `frameId` is what the caller's variable holds. -/
  | victim (frameId : FrameId)

/-- The frame a call evicted. -/
abbrev Evicted := Option FrameId

def apply (r : LruReplacer) : Call → Except Fault (Evicted × LruReplacer)
  | .unpin f => .ok (none, r.unpin f)
  | .pin f => do
      let r ← r.pin f
      return (none, r)
  | .victim out =>
      match r.victim out with
      | (found, f, r) => .ok (if found then some f else none, r)

/-! ## Candidates

What the calls so far say of a frame, the last call first: when its candidacy started, if it is a
candidate. -/

/-- The first unpin since the frame was last pinned or evicted. -/
def started (f : FrameId) : List (Call × Evicted) → Option Nat
  | [] => none
  | (.unpin g, _) :: past =>
      if g = f then (started f past).or (some past.length) else started f past
  | (.pin g, _) :: past => if g = f then none else started f past
  | (.victim _, evicted) :: past => if evicted = some f then none else started f past

theorem started_lt {f : FrameId} {past : List (Call × Evicted)} {t : Nat}
    (h : started f past = some t) : t < past.length := by
  induction past with
  | nil => cases h
  | cons e past ih =>
      have hpast : started f past = some t → t < (e :: past).length := fun h => by
        have := ih h
        rw [List.length_cons]
        omega
      obtain ⟨call, evicted⟩ := e
      cases call with
      | unpin g =>
          rw [started] at h
          split at h
          next =>
            cases hs : started f past with
            | none =>
                rw [hs] at h
                cases h
                exact Nat.lt_succ_self _
            | some s => exact hpast (by simpa [hs] using h)
          next => exact hpast h
      | pin g =>
          rw [started] at h
          split at h
          next => cases h
          next => exact hpast h
      | victim out =>
          rw [started] at h
          split at h
          next => cases h
          next => exact hpast h

/-- `f` became a candidate after `g`. -/
def Later (past : List (Call × Evicted)) (f g : FrameId) : Prop :=
  ∃ s t, started f past = some s ∧ started g past = some t ∧ t < s

theorem Later.ne {past : List (Call × Evicted)} {f g : FrameId} (h : Later past f g) : f ≠ g := by
  obtain ⟨s, t, hs, ht, hlt⟩ := h
  rintro rfl
  rw [hs] at ht
  cases ht
  exact Nat.lt_irrefl _ hlt

/-- The list and the map hold the candidates, the latest in front. -/
structure Queues (past : List (Call × Evicted)) (r : LruReplacer) : Prop where
  nodes : (r.lruList.map Prod.fst).Nodup
  allocated : ∀ node ∈ r.lruList.map Prod.fst, node < r.nextNode
  mapped : ∀ f node, r.lruMap f = some node ↔ (node, f) ∈ r.lruList
  candidates : ∀ f, f ∈ r.frames ↔ started f past ≠ none
  ordered : r.frames.Pairwise (Later past)

namespace Queues

variable {past : List (Call × Evicted)} {r r' : LruReplacer} {f g : FrameId}

theorem create (numPages : Nat) : Queues [] (create numPages) where
  nodes := List.nodup_nil
  allocated := fun _ h => by cases h
  mapped := fun _ _ => ⟨nofun, nofun⟩
  candidates := fun _ => ⟨nofun, fun h => absurd rfl h⟩
  ordered := List.Pairwise.nil

theorem nodup (h : Queues past r) : r.frames.Nodup := h.ordered.imp Later.ne

theorem mem_frames (h : Queues past r) : f ∈ r.frames ↔ r.lruMap f ≠ none := by
  rw [frames, List.mem_map, Option.ne_none_iff_exists']
  constructor
  · rintro ⟨⟨node, f⟩, hmem, rfl⟩
    exact ⟨node, (h.mapped f node).mpr hmem⟩
  · rintro ⟨node, hnode⟩
    exact ⟨(node, f), (h.mapped f node).mp hnode, rfl⟩

/-- The order of the frames that stay is the order they had. -/
theorem ordered_of_sublist (h : Queues past r) {e : Call × Evicted} {l : List FrameId}
    (hsub : l.Sublist r.frames) (hkeep : ∀ f ∈ l, started f (e :: past) = started f past) :
    l.Pairwise (Later (e :: past)) := by
  refine (h.ordered.sublist hsub).imp_of_mem fun {f g} hf hg hlater => ?_
  rw [Later, hkeep f hf, hkeep g hg]
  exact hlater

/-! ## Unpinning -/

/-- A candidate that is unpinned again keeps its place. -/
theorem unpin_of_some {node : ListNode} (h : Queues past r) (hf : r.lruMap f = some node)
    (evicted : Evicted) : Queues ((.unpin f, evicted) :: past) r := by
  have hmem : f ∈ r.frames := h.mem_frames.mpr (by rw [hf]; exact Option.some_ne_none node)
  have hkeep : ∀ g, started g ((.unpin f, evicted) :: past) = started g past := by
    intro g
    rw [started]
    split
    next hg =>
      subst hg
      obtain ⟨t, ht⟩ := Option.ne_none_iff_exists'.mp ((h.candidates f).mp hmem)
      rw [ht, Option.some_or]
    next => rfl
  exact
    { nodes := h.nodes
      allocated := h.allocated
      mapped := h.mapped
      candidates := fun g => by rw [hkeep, h.candidates]
      ordered := h.ordered_of_sublist (List.Sublist.refl _) fun g _ => hkeep g }

/-- A frame that was no candidate goes to the front. -/
theorem unpin_of_none (h : Queues past r) (hf : r.lruMap f = none) (evicted : Evicted) :
    Queues ((.unpin f, evicted) :: past)
      { r with
        lruList := (r.nextNode, f) :: r.lruList
        lruMap := Function.update r.lruMap f (some r.nextNode)
        nextNode := r.nextNode + 1 } := by
  have hnot : f ∉ r.frames := fun hmem => h.mem_frames.mp hmem hf
  have hstart : started f ((.unpin f, evicted) :: past) = some past.length := by
    have hnone : started f past = none :=
      Classical.not_not.mp fun hs => hnot ((h.candidates f).mpr hs)
    rw [started, if_pos rfl, hnone, Option.none_or]
  have hkeep : ∀ g, g ≠ f → started g ((.unpin f, evicted) :: past) = started g past := by
    intro g hg
    rw [started, if_neg (Ne.symm hg)]
  have hfresh : r.nextNode ∉ r.lruList.map Prod.fst :=
    fun hmem => Nat.lt_irrefl _ (h.allocated _ hmem)
  refine ⟨List.nodup_cons.mpr ⟨hfresh, h.nodes⟩, ?_, ?_, ?_, ?_⟩
  · intro node hnode
    rcases List.mem_cons.mp hnode with rfl | hnode
    · exact Nat.lt_succ_self _
    · exact Nat.lt_succ_of_lt (h.allocated node hnode)
  · intro g node
    by_cases hg : g = f
    · subst hg
      have hnotmem : (node, g) ∉ r.lruList := fun hmem => hnot (List.mem_map.mpr ⟨_, hmem, rfl⟩)
      simp [hnotmem, eq_comm]
    · simp [h.mapped, hg]
  · intro g
    rw [frames, List.map_cons, List.mem_cons]
    by_cases hg : g = f
    · subst hg
      simp [hstart]
    · rw [hkeep g hg, ← h.candidates]
      exact or_iff_right hg
  · refine List.pairwise_cons.mpr ⟨fun g hg => ?_, ?_⟩
    · have hne : g ≠ f := fun heq => hnot (heq ▸ hg)
      obtain ⟨t, ht⟩ := Option.ne_none_iff_exists'.mp ((h.candidates g).mp hg)
      exact ⟨_, t, hstart, by rw [hkeep g hne, ht], started_lt ht⟩
    · exact h.ordered_of_sublist (List.Sublist.refl _)
        fun g hg => hkeep g fun heq => hnot (heq ▸ hg)

theorem unpin (h : Queues past r) (f : FrameId) (evicted : Evicted) :
    Queues ((.unpin f, evicted) :: past) (r.unpin f) := by
  rw [LruReplacer.unpin]
  cases hf : r.lruMap f with
  | some node => exact h.unpin_of_some hf evicted
  | none => exact h.unpin_of_none hf evicted

/-! ## Removing -/

/-- The list loses the node of one frame, and the map loses its key. -/
theorem remove {e : Call × Evicted} {node : ListNode} (h : Queues past r)
    (hmap : r.lruMap f = some node) (hlist : r'.lruList.Sublist r.lruList)
    (hmem : ∀ n g, (n, g) ∈ r'.lruList ↔ (n, g) ∈ r.lruList ∧ n ≠ node)
    (hupdate : r'.lruMap = Function.update r.lruMap f none) (hnext : r'.nextNode = r.nextNode)
    (hstart : ∀ g, started g (e :: past) = if f = g then none else started g past) :
    Queues (e :: past) r' := by
  have hnode : (node, f) ∈ r.lruList := (h.mapped f node).mp hmap
  -- a node holds one frame, so the other frames are those in the other nodes
  have hother : ∀ {n g}, (n, g) ∈ r.lruList → (n ≠ node ↔ g ≠ f) := by
    intro n g hg
    refine not_congr ⟨fun hn => ?_, fun hg' => ?_⟩
    · exact congrArg Prod.snd (List.inj_on_of_nodup_map h.nodes hg hnode hn)
    · exact congrArg Prod.fst (List.inj_on_of_nodup_map h.nodup hg hnode hg')
  have hframes : ∀ g, g ∈ r'.frames ↔ g ∈ r.frames ∧ g ≠ f := by
    intro g
    simp only [frames, List.mem_map, Prod.exists, exists_eq_right, hmem]
    constructor
    · rintro ⟨n, hn, hne⟩
      exact ⟨⟨n, hn⟩, (hother hn).mp hne⟩
    · rintro ⟨⟨n, hn⟩, hne⟩
      exact ⟨n, hn, (hother hn).mpr hne⟩
  refine ⟨h.nodes.sublist (hlist.map _), ?_, ?_, ?_, ?_⟩
  · intro n hn
    rw [hnext]
    exact h.allocated n ((hlist.map _).subset hn)
  · intro g n
    rw [hupdate, hmem]
    by_cases hg : g = f
    · subst hg
      rw [Function.update_self]
      exact ⟨nofun, fun hn => absurd rfl ((hother hn.1).mp hn.2)⟩
    · rw [Function.update_of_ne hg, h.mapped]
      exact ⟨fun hn => ⟨hn, (hother hn).mpr hg⟩, And.left⟩
  · intro g
    rw [hframes, hstart, h.candidates]
    by_cases hg : f = g
    · simp [hg]
    · rw [if_neg hg]
      exact and_iff_left (Ne.symm hg)
  · refine h.ordered_of_sublist (hlist.map _) fun g hg => ?_
    rw [hstart, if_neg (Ne.symm ((hframes g).mp hg).2)]

theorem mem_eraseP {l : List (ListNode × FrameId)} {node n : ListNode}
    (hl : (l.map Prod.fst).Nodup) :
    (n, g) ∈ l.eraseP (·.1 = node) ↔ (n, g) ∈ l ∧ n ≠ node := by
  induction l with
  | nil => simp
  | cons e l ih =>
      obtain ⟨hnot, hl⟩ := List.nodup_cons.mp hl
      by_cases he : e.1 = node
      · rw [List.eraseP_cons_of_pos (by simpa using he), List.mem_cons]
        constructor
        · intro hmem
          exact ⟨.inr hmem, fun hn => hnot (he ▸ hn ▸ List.mem_map.mpr ⟨_, hmem, rfl⟩)⟩
        · rintro ⟨rfl | hmem, hne⟩
          · exact absurd he hne
          · exact hmem
      · rw [List.eraseP_cons_of_neg (by simpa using he), List.mem_cons, List.mem_cons, ih hl]
        constructor
        · rintro (rfl | ⟨hmem, hne⟩)
          · exact ⟨.inl rfl, he⟩
          · exact ⟨.inr hmem, hne⟩
        · rintro ⟨rfl | hmem, hne⟩
          · exact .inl rfl
          · exact .inr ⟨hmem, hne⟩

/-- The stored iterator is in the list, so `pin` is defined. -/
theorem pin (h : Queues past r) (f : FrameId) (evicted : Evicted) :
    ∃ r', r.pin f = .ok r' ∧ Queues ((.pin f, evicted) :: past) r' := by
  rw [LruReplacer.pin]
  cases hf : r.lruMap f with
  | none =>
      refine ⟨r, rfl, h.nodes, h.allocated, h.mapped, fun g => ?_, ?_⟩
      · rw [started]
        split
        next hg =>
          subst hg
          simp [h.mem_frames, hf]
        next => exact h.candidates g
      · refine h.ordered_of_sublist (List.Sublist.refl _) fun g hg => ?_
        rw [started, if_neg]
        rintro rfl
        exact h.mem_frames.mp hg hf
  | some node =>
      have hnode : node ∈ r.lruList.map Prod.fst :=
        List.mem_map.mpr ⟨_, (h.mapped f node).mp hf, rfl⟩
      dsimp only
      rw [eraseNode, if_pos hnode]
      exact ⟨_, rfl, h.remove hf List.eraseP_sublist (fun n g => mem_eraseP h.nodes) rfl rfl
        fun g => by rw [started]⟩

/-! ## Eviction -/

theorem victim_of_empty (hempty : r.frames = []) (out : FrameId) :
    r.victim out = (false, out, r) := by
  rw [LruReplacer.victim, List.map_eq_nil_iff.mp hempty]
  rfl

/-- The back of the list is its earliest candidate. -/
theorem victim_of_back {node : ListNode} {front : List (ListNode × FrameId)} (h : Queues past r)
    (hback : r.lruList = front ++ [(node, f)]) (out : FrameId) :
    ∃ r', r.victim out = (true, f, r') ∧ r.frames = r'.frames ++ [f] ∧
      r'.lruMap = Function.update r.lruMap f none ∧
      (∀ g ∈ r'.frames, Later past g f) ∧
      Queues ((.victim out, some f) :: past) r' := by
  have hv : r.victim out = (true, f, { r with
      lruList := front, lruMap := Function.update r.lruMap f none }) := by
    rw [LruReplacer.victim, hback, List.getLast?_concat, List.dropLast_concat]
  have hframes : r.frames = front.map Prod.snd ++ [f] := by
    rw [frames, hback, List.map_append]
    rfl
  have hmap : r.lruMap f = some node := (h.mapped f node).mpr (by simp [hback])
  refine ⟨_, hv, hframes, rfl, fun g hg => ?_, ?_⟩
  · exact (List.pairwise_append.mp (hframes ▸ h.ordered)).2.2 g hg f (List.mem_singleton_self f)
  · refine h.remove hmap (hback ▸ List.sublist_append_left _ _) (fun n g => ?_) rfl rfl
      fun g => by rw [started]; simp only [Option.some.injEq]
    have hnot : ∀ n g, (n, g) ∈ front → n ≠ node := by
      intro n g hg hn
      have hnodes := h.nodes
      rw [hback, List.map_append] at hnodes
      exact (List.nodup_append.mp hnodes).2.2 n (List.mem_map.mpr ⟨_, hg, rfl⟩) node (by simp) hn
    rw [hback, List.mem_append, List.mem_singleton, Prod.mk.injEq]
    constructor
    · intro hg
      exact ⟨.inl hg, hnot n g hg⟩
    · rintro ⟨hg | ⟨hn, -⟩, hne⟩
      · exact hg
      · exact absurd hn hne

theorem victim (h : Queues past r) (out : FrameId) :
    ∃ found f r', r.victim out = (found, f, r') ∧
      Queues ((.victim out, if found then some f else none) :: past) r' := by
  rcases r.lruList.eq_nil_or_concat' with hnil | ⟨front, ⟨node, f⟩, hback⟩
  · have hv := victim_of_empty (r := r) (by rw [frames, hnil]; rfl) out
    refine ⟨_, _, _, hv, h.nodes, h.allocated, h.mapped, h.candidates, ?_⟩
    exact h.ordered_of_sublist (List.Sublist.refl _) fun _ _ => rfl
  · obtain ⟨r', hv, -, -, -, hq⟩ := h.victim_of_back hback out
    exact ⟨_, _, _, hv, hq⟩

/-! ## Runs -/

theorem apply (h : Queues past r) (call : Call) :
    ∃ evicted r', r.apply call = .ok (evicted, r') ∧ Queues ((call, evicted) :: past) r' := by
  cases call with
  | unpin f => exact ⟨none, _, rfl, h.unpin f none⟩
  | pin f =>
      obtain ⟨r', hr, hq⟩ := h.pin f none
      exact ⟨none, r', by rw [LruReplacer.apply, hr]; rfl, hq⟩
  | victim out =>
      obtain ⟨found, f, r', hv, hq⟩ := h.victim out
      exact ⟨_, r', by rw [LruReplacer.apply, hv], hq⟩

theorem run (h : Queues past r) (calls : List Call) :
    ∃ answers r', Lib.run LruReplacer.apply r calls = .ok (answers, r') ∧
      Queues ((calls.zip answers).reverse ++ past) r' := by
  induction calls generalizing past r with
  | nil => exact ⟨[], r, rfl, h⟩
  | cons call calls ih =>
      obtain ⟨evicted, r₁, hstep, h₁⟩ := h.apply call
      obtain ⟨answers, r', hrun, hq⟩ := ih h₁
      refine ⟨evicted :: answers, r', run_cons_eq_ok.mpr ⟨_, _, _, hstep, hrun, rfl⟩, ?_⟩
      rwa [List.zip_cons_cons, List.reverse_cons, List.append_assoc, List.singleton_append]

end Queues

/-- After any calls the list and the map hold the candidates once each, and `victim` takes the one
whose candidacy started first, or changes nothing. -/
theorem first_in_first_out (numPages : Nat) (calls : List Call) :
    ∃ answers r, run apply (create numPages) calls = .ok (answers, r) ∧
      let past := (calls.zip answers).reverse
      r.frames.Nodup ∧
      (r.lruList.map Prod.fst).Nodup ∧
      (∀ f node, r.lruMap f = some node ↔ (node, f) ∈ r.lruList) ∧
      (∀ f, r.lruMap f ≠ none ↔ f ∈ r.frames) ∧
      (∀ f, f ∈ r.frames ↔ started f past ≠ none) ∧
      r.size = r.frames.length ∧
      ∀ out,
        ((∀ f, started f past = none) ∧ r.victim out = (false, out, r)) ∨
        ∃ f t r', r.victim out = (true, f, r') ∧ started f past = some t ∧
          (∀ g s, g ≠ f → started g past = some s → t < s) ∧
          r.frames = r'.frames ++ [f] ∧ r'.lruMap = Function.update r.lruMap f none := by
  obtain ⟨answers, r, hrun, hq⟩ := (Queues.create numPages).run calls
  rw [List.append_nil] at hq
  refine ⟨answers, r, hrun, hq.nodup, hq.nodes, hq.mapped, fun f => hq.mem_frames.symm,
    hq.candidates, (List.length_map _).symm, fun out => ?_⟩
  rcases r.lruList.eq_nil_or_concat' with hnil | ⟨front, ⟨node, f⟩, hback⟩
  · have hempty : r.frames = [] := by rw [frames, hnil]; rfl
    refine .inl ⟨fun f => Classical.not_not.mp fun hf => ?_, Queues.victim_of_empty hempty out⟩
    have hmem := (hq.candidates f).mpr hf
    rw [hempty] at hmem
    cases hmem
  · obtain ⟨r', hv, hframes, hmap, hlater, -⟩ := hq.victim_of_back hback out
    have hf : f ∈ r.frames := by simp [hframes]
    obtain ⟨t, ht⟩ := Option.ne_none_iff_exists'.mp ((hq.candidates f).mp hf)
    refine .inr ⟨f, t, r', hv, ht, fun g s hne hs => ?_, hframes, hmap⟩
    have hg : g ∈ r'.frames := by
      have hmem := (hq.candidates g).mpr (by rw [hs]; exact Option.some_ne_none s)
      rw [hframes, List.mem_append, List.mem_singleton] at hmem
      exact hmem.resolve_right hne
    obtain ⟨s', t', hs', ht', hlt⟩ := hlater g hg
    rw [hs] at hs'
    rw [ht] at ht'
    cases hs'
    cases ht'
    exact hlt

end LruReplacer

end TurtleDb.Buffer
