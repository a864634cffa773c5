import TurtleDb.Buffer.Directory
import TurtleDb.Buffer.Theorems

/-!
# What the ghost lists remember

The pool knows pages by file and number, the replacer by number only. As long as no two files have
pages of one number among those resident or remembered, the replacer remembers pages.
-/

namespace TurtleDb.Buffer

open TurtleDb.Lib

namespace ArcReplacer

/-- The page number a live frame was recorded with. -/
def pageOf (r : ArcReplacer) (f : FrameId) : Option PageId :=
  (r.aliveMap f).map FrameStatus.pageId

/-- The number is in a ghost list. -/
def Remembers (r : ArcReplacer) (n : PageId) : Prop := r.ghostMap n ≠ none

variable {r r' : ArcReplacer} {f : FrameId} {n pid : PageId}

/-! ## Page numbers -/

theorem pageOf_setEvictable (r : ArcReplacer) (f : FrameId) (b : Bool) :
    (r.setEvictable f b).pageOf = r.pageOf ∧
      ∀ n, (r.setEvictable f b).Remembers n ↔ r.Remembers n := by
  unfold ArcReplacer.setEvictable
  cases hs : r.aliveMap f with
  | none => exact ⟨rfl, fun _ => Iff.rfl⟩
  | some status =>
      dsimp only
      split
      · exact ⟨rfl, fun _ => Iff.rfl⟩
      · refine ⟨funext fun g => ?_, fun _ => Iff.rfl⟩
        by_cases hg : g = f
        · subst hg
          simp [pageOf, hs]
        · simp [pageOf, hg]

theorem pageOf_update {s : Option FrameStatus}
    (halive : r'.aliveMap = Function.update r.aliveMap f s) :
    r'.pageOf = Function.update r.pageOf f (s.map FrameStatus.pageId) := by
  funext g
  by_cases hg : g = f
  · rw [pageOf, halive, hg, Function.update_self, Function.update_self]
  · rw [pageOf, halive, Function.update_of_ne hg, Function.update_of_ne hg, pageOf]

theorem remembers_of_forget (hghost : r'.ghostMap = Function.update r.ghostMap pid none)
    (h : r'.Remembers n) : r.Remembers n := by
  intro hnone
  refine h ?_
  rw [hghost]
  by_cases hn : n = pid
  · rw [hn, Function.update_self]
  · rw [Function.update_of_ne hn, hnone]

theorem Trimmed.forgets (h : Trimmed r r') :
    r'.aliveMap = r.aliveMap ∧ ∀ n, r'.Remembers n → r.Remembers n := by
  cases h with
  | recency _ _ => exact ⟨rfl, fun n hn => remembers_of_forget rfl hn⟩
  | frequency _ _ => exact ⟨rfl, fun n hn => remembers_of_forget rfl hn⟩
  | nothing _ _ => exact ⟨rfl, fun _ => id⟩

theorem pageOf_recordAccess (r : ArcReplacer) (f : FrameId) (pid : PageId) :
    (r.recordAccess f pid).pageOf =
        Function.update r.pageOf f (some ((r.pageOf f).getD pid)) ∧
      ∀ n, (r.recordAccess f pid).Remembers n → r.Remembers n := by
  unfold ArcReplacer.recordAccess
  cases hs : r.aliveMap f with
  | some status =>
      have halive : (r.promote f status).aliveMap =
          Function.update r.aliveMap f (some { status with arcStatus := .mfu }) := by
        unfold promote
        split <;> rfl
      have hghost : (r.promote f status).ghostMap = r.ghostMap := by
        unfold promote
        split <;> rfl
      refine ⟨?_, fun n hn => by rwa [Remembers, hghost] at hn⟩
      rw [pageOf_update halive, pageOf, hs]
      rfl
  | none =>
      have hgetD : (r.pageOf f).getD pid = pid := by
        rw [pageOf, hs]
        rfl
      rw [hgetD]
      cases r.ghostMap pid with
      | some status =>
          have halive : (r.resurrect f pid status).aliveMap = Function.update r.aliveMap f
              (some { pageId := pid, frameId := f, evictable := false, arcStatus := .mfu }) := by
            unfold resurrect
            split <;> rfl
          have hghost : (r.resurrect f pid status).ghostMap =
              Function.update r.ghostMap pid none := by
            unfold resurrect
            split <;> rfl
          exact ⟨pageOf_update halive, fun n hn => remembers_of_forget hghost hn⟩
      | none =>
          obtain ⟨halive, hforgets⟩ := (trimGhosts_trimmed r).forgets
          refine ⟨pageOf_update (s := some ⟨pid, f, false, .mru⟩) ?_, hforgets⟩
          show Function.update r.trimGhosts.aliveMap _ _ = _
          rw [halive]

theorem pageOf_evict (he : r.evict = some (f, r')) : ∃ n, r.pageOf f = some n ∧
    r'.pageOf = Function.update r.pageOf f none ∧
    ∀ m, r'.Remembers m ↔ m = n ∨ r.Remembers m := by
  have hdemote : ∀ {status : FrameStatus} {ghost} {q : ArcReplacer}, r.aliveMap f = some status →
      q.aliveMap = (r.demote f status ghost).aliveMap →
      q.ghostMap = (r.demote f status ghost).ghostMap → ∃ n, r.pageOf f = some n ∧
        q.pageOf = Function.update r.pageOf f none ∧
        ∀ m, q.Remembers m ↔ m = n ∨ r.Remembers m := by
    intro status ghost q hs halive hghost
    refine ⟨status.pageId, by rw [pageOf, hs]; rfl, pageOf_update (s := none) halive, fun m => ?_⟩
    rw [Remembers, hghost, demote, Remembers]
    by_cases hm : m = status.pageId
    · simp [hm]
    · simp [hm]
  rcases Tracks.evict_cases he with h | h
  · obtain ⟨status, _, hs, _, rfl⟩ := Tracks.tryEvictMru_eq h
    exact hdemote hs rfl rfl
  · obtain ⟨status, _, hs, _, rfl⟩ := Tracks.tryEvictMfu_eq h
    exact hdemote hs rfl rfl

theorem pageOf_remove (hr : r.remove f = .ok r') :
    r'.pageOf = Function.update r.pageOf f none ∧ r'.ghostMap = r.ghostMap := by
  unfold ArcReplacer.remove at hr
  cases hs : r.aliveMap f with
  | none =>
      simp only [hs] at hr
      cases hr
      have hnone : r.pageOf f = none := by rw [pageOf, hs]; rfl
      rw [← hnone, Function.update_eq_self]
      exact ⟨rfl, rfl⟩
  | some status =>
      simp only [hs] at hr
      split at hr
      next =>
        cases hr
        refine ⟨pageOf_update (s := none) ?_, ?_⟩
        · dsimp only
          split <;> rfl
        · dsimp only
          split <;> rfl
      next => cases hr

end ArcReplacer

namespace BufferPoolManager

variable {δ : Type} [PageDisk δ]

/-- For each page number, the file of the page with that number that was asked for last when it was
not resident, and of the one that was evicted last. -/
structure History where
  asked : PageId → Option FileId
  evicted : PageId → Option FileId

/-- The page that leaves the pool when a frame is needed. -/
def evicted (b : BufferPoolManager δ) : Option PageKey :=
  if b.freeFrames = [] then b.replacer.evict.map fun v => (b.pages v.1).key else none

namespace History

def empty : History := ⟨fun _ => none, fun _ => none⟩

def note (last : History) : Option PageKey → History
  | none => last
  | some k => { last with evicted := Function.update last.evicted k.pageId (some k.fileId) }

/-- Page `k` is asked for, and needs a frame. -/
def ask (last : History) (b : BufferPoolManager δ) (k : PageKey) : History where
  asked := Function.update last.asked k.pageId (some k.fileId)
  evicted := (last.note b.evicted).evicted

/-- After a request for page `k`, which needs a frame if it is not resident. -/
def after (last : History) (b : BufferPoolManager δ) (k : PageKey) : History :=
  if b.pageTable k = none then last.ask b k else last

end History

/-- The pools that calls lead to, with their history. A page that is brought in has to be one that
`may` be. -/
inductive Recorded (may : BufferPoolManager δ → History → PageKey → Prop) (poolSize : Nat) (d : δ) :
    History → BufferPoolManager δ → Prop where
  | create : Recorded may poolSize d .empty (create poolSize d)
  | newPage {last b b' file r} (h : Recorded may poolSize d last b)
      (hmay : may b last ⟨file, b.nextPageId⟩) (hr : b.newPage file = .ok (r, b')) :
      Recorded may poolSize d (last.ask b ⟨file, b.nextPageId⟩) b'
  | readPage {last b b' file page r} (h : Recorded may poolSize d last b)
      (hmay : b.pageTable ⟨file, page⟩ = none → may b last ⟨file, page⟩)
      (hr : b.readPage file page = .ok (r, b')) :
      Recorded may poolSize d (last.after b ⟨file, page⟩) b'
  | writePage {last b b' file page r} (h : Recorded may poolSize d last b)
      (hmay : b.pageTable ⟨file, page⟩ = none → may b last ⟨file, page⟩)
      (hr : b.writePage file page = .ok (r, b')) :
      Recorded may poolSize d (last.after b ⟨file, page⟩) b'
  | unpinPage {last b} (file : FileId) (page : PageId) (dirty : Bool)
      (h : Recorded may poolSize d last b) :
      Recorded may poolSize d last (b.unpinPage file page dirty).2
  | flushPage {last b b' file page r} (h : Recorded may poolSize d last b)
      (hr : b.flushPage file page = .ok (r, b')) : Recorded may poolSize d last b'
  | flushAllPages {last b b'} (h : Recorded may poolSize d last b)
      (hr : b.flushAllPages = .ok b') : Recorded may poolSize d last b'
  | deletePage {last b b' file page r} (h : Recorded may poolSize d last b)
      (hr : b.deletePage file page = .ok (r, b')) : Recorded may poolSize d last b'
  | setData {last b} (f : FrameId) (data : PageData) (h : Recorded may poolSize d last b) :
      Recorded may poolSize d last (b.setData f data)

/-- `k` is a page, no resident page has its number, and as long as the number is remembered, the
last page with it that was asked for is of the same file. -/
def Alone (b : BufferPoolManager δ) (last : History) (k : PageKey) : Prop :=
  k.pageId ≠ invalidPageId ∧ (∀ k' f, b.pageTable k' = some f → k'.pageId ≠ k.pageId) ∧
    ∀ file, b.replacer.Remembers k.pageId → last.asked k.pageId = some file → file = k.fileId

/-- The replacer of the pool records each resident page under its number, and has evicted the pages
it remembers. A resident or remembered page is the last one with its number that was asked for. -/
structure Recalled (b : BufferPoolManager δ) (last : History) : Prop where
  structural : Structural b none
  replacer : ArcReplacer.Reachable b.poolSize b.replacer
  own : ∀ f n, b.replacer.pageOf f = some n → n = (b.pages f).pageId
  known : ∀ n, b.replacer.Remembers n →
    ∃ file, last.evicted n = some file ∧ last.asked n = some file
  resident : ∀ k f, b.pageTable k = some f → last.asked k.pageId = some k.fileId

variable {b b' b₁ : BufferPoolManager δ} {last : History} {f : FrameId} {k : PageKey}

omit [PageDisk δ] in
/-- A frame keeps its page when its pins and its dirty flag change. -/
theorem pageId_eq_of_update {pin : Int} {dirty : Bool} (hpages : b'.pages =
      Function.update b.pages f { b.pages f with pinCount := pin, isDirty := dirty })
    (g : FrameId) : (b'.pages g).pageId = (b.pages g).pageId := by
  rw [hpages]
  by_cases hg : g = f
  · rw [hg, Function.update_self]
  · rw [Function.update_of_ne hg]

namespace Recalled

omit [PageDisk δ] in
theorem table_of_pageOf (h : Recalled b last) {n : PageId} (hn : b.replacer.pageOf f = some n) :
    b.pageTable (b.pages f).key = some f := by
  refine (h.structural.resident_of_flag fun hnone => ?_).table
  rw [ArcReplacer.pageOf, Option.map_eq_none_iff.mp hnone] at hn
  cases hn

/-- What is recorded and remembered once there is a frame. -/
theorem found (h : Recalled b last) (hfound : Found b b₁ f) :
    ArcReplacer.Reachable b₁.poolSize b₁.replacer ∧ b₁.replacer.pageOf f = none ∧
      (∀ g n, b₁.replacer.pageOf g = some n → n = (b.pages g).pageId ∧
        b.pageTable (b.pages g).key = some g) ∧
      ∀ n, b₁.replacer.Remembers n →
        (∃ file, (last.note b.evicted).evicted n = some file ∧ last.asked n = some file) ∧
          ((∀ k' f, b.pageTable k' = some f → k'.pageId ≠ n) → b.replacer.Remembers n) := by
  rw [hfound.poolSize]
  have hnone : b₁.replacer.pageOf f = none := by
    rw [ArcReplacer.pageOf, Option.map_eq_none_iff]
    by_contra hne
    exact (hfound.structural.tracked_lt f fun hflag => hne (Option.map_eq_none_iff.mp hflag)).2 rfl
  rcases hfound.replacer with ⟨hfree, he⟩ | ⟨hfree, he⟩
  · have hev : b.evicted = none := if_neg hfree
    rw [hev]
    rw [he] at hnone ⊢
    exact ⟨h.replacer, hnone, fun g n hn => ⟨h.own g n hn, h.table_of_pageOf hn⟩, fun n hn =>
      ⟨h.known n hn, fun _ => hn⟩⟩
  · have hev : b.evicted = some (b.pages f).key := by
      rw [evicted, if_pos hfree, he]
      rfl
    obtain ⟨m, hm, hpages, hremembers⟩ := ArcReplacer.pageOf_evict he
    have hkey : m = (b.pages f).key.pageId := h.own f m hm
    have htable := h.table_of_pageOf hm
    rw [hev]
    refine ⟨h.replacer.evict he, hnone, fun g n hn => ?_, fun n hn => ?_⟩
    · have hgf : g ≠ f := by
        rintro rfl
        rw [hnone] at hn
        cases hn
      rw [hpages, Function.update_of_ne hgf] at hn
      exact ⟨h.own g n hn, h.table_of_pageOf hn⟩
    · by_cases hnm : n = (b.pages f).key.pageId
      · subst hnm
        exact ⟨⟨_, Function.update_self _ _ _, h.resident _ f htable⟩, fun hno =>
          absurd rfl (hno _ f htable)⟩
      · have hn' : b.replacer.Remembers n := ((hremembers n).mp hn).resolve_left (hkey ▸ hnm)
        have hnote : (last.note (some (b.pages f).key)).evicted n = last.evicted n :=
          Function.update_of_ne hnm _ _
        rw [hnote]
        exact ⟨h.known n hn', fun _ => hn'⟩

omit [PageDisk δ] in
/-- A page that is asked for alone is the last one with its number. -/
theorem known_ask (halone : Alone b last k) {n : PageId} {e : PageId → Option FileId}
    (hknown : ∃ file, e n = some file ∧ last.asked n = some file)
    (hback : n = k.pageId → b.replacer.Remembers n) :
    ∃ file, e n = some file ∧
      Function.update last.asked k.pageId (some k.fileId) n = some file := by
  obtain ⟨file, hevicted, hasked⟩ := hknown
  refine ⟨file, hevicted, ?_⟩
  by_cases hn : n = k.pageId
  · rw [hn] at hasked hback ⊢
    rw [Function.update_self, halone.2.2 file (hback rfl) hasked]
  · rw [Function.update_of_ne hn, hasked]

omit [PageDisk δ] in
theorem resident_ask (h : Recalled b last) (halone : Alone b last k) {k' : PageKey}
    (hk : b.pageTable k' = some f) :
    Function.update last.asked k.pageId (some k.fileId) k'.pageId = some k'.fileId := by
  rw [Function.update_of_ne (halone.2.1 k' f hk)]
  exact h.resident k' f hk

omit [PageDisk δ] in
/-- No frame is found for the page. -/
theorem ask (h : Recalled b last) (halone : Alone b last k) (hnone : b.evicted = none) :
    Recalled b (last.ask b k) := by
  refine ⟨h.structural, h.replacer, h.own, fun n hn => ?_, fun k' f hk => h.resident_ask halone hk⟩
  rw [History.ask, hnone]
  exact known_ask halone (h.known n hn) fun _ => hn

theorem bring (h : Recalled b last) (hfound : Found b b₁ f) (halone : Alone b last k)
    (hs : Structural b' none) (hsize : b'.poolSize = b₁.poolSize)
    (hreplacer : b'.replacer = (b₁.replacer.recordAccess f k.pageId).setEvictable f false)
    (hpages : b'.pages = Function.update b₁.pages f ⟨k.fileId, k.pageId, 1, false⟩)
    (htable : b'.pageTable = Function.update b₁.pageTable k (some f)) :
    Recalled b' (last.ask b k) := by
  obtain ⟨hreach, hnone, hown, hknown⟩ := h.found hfound
  have hlt : f < b₁.poolSize := by
    rw [hfound.poolSize]
    exact Nat.lt_of_lt_of_le hfound.lt (Nat.mod_le _ _)
  have halive : b₁.replacer.aliveMap f = none := Option.map_eq_none_iff.mp hnone
  have hrecord := hreach.recordAccess (p := k.pageId) hlt
    (fun s hs => by rw [halive] at hs; cases hs) fun _ g s hg he => by
      obtain ⟨hn, htable⟩ := hown g s.pageId (by rw [ArcReplacer.pageOf, hg]; rfl)
      exact halone.2.1 _ g htable (hn.symm.trans he)
  obtain ⟨hset, hsetRemembers⟩ :=
    ArcReplacer.pageOf_setEvictable (b₁.replacer.recordAccess f k.pageId) f false
  obtain ⟨hrec, hrecRemembers⟩ := ArcReplacer.pageOf_recordAccess b₁.replacer f k.pageId
  refine ⟨hs, ?_, fun g n hn => ?_, fun n hn => ?_, fun k' g hk => ?_⟩
  · rw [hsize, hreplacer]
    exact hrecord.setEvictable f false
  · rw [hreplacer, hset, hrec, hnone] at hn
    rw [hpages]
    by_cases hg : g = f
    · subst hg
      rw [Function.update_self] at hn ⊢
      exact (Option.some.inj hn).symm
    · rw [Function.update_of_ne hg] at hn ⊢
      rw [hfound.pages]
      exact (hown g n hn).1
  · rw [hreplacer, hsetRemembers] at hn
    obtain ⟨hlast, hback⟩ := hknown n (hrecRemembers n hn)
    exact known_ask halone hlast fun he => hback (he ▸ halone.2.1)
  · rw [htable] at hk
    by_cases hkk : k' = k
    · rw [hkk]
      exact Function.update_self _ _ _
    · rw [Function.update_of_ne hkk] at hk
      exact h.resident_ask halone (hfound.table_of_some hk)

omit [PageDisk δ] in
/-- A call that leaves the frames their pages, and records and remembers no more. -/
theorem congr (h : Recalled b last) (hs : Structural b' none)
    (hreach : ArcReplacer.Reachable b'.poolSize b'.replacer)
    (hown : ∀ f n, b'.replacer.pageOf f = some n →
      b.replacer.pageOf f = some n ∧ (b'.pages f).pageId = (b.pages f).pageId)
    (hknown : ∀ n, b'.replacer.Remembers n → b.replacer.Remembers n)
    (htable : ∀ k f, b'.pageTable k = some f → b.pageTable k = some f) : Recalled b' last := by
  refine ⟨hs, hreach, fun f n hn => ?_, fun n hn => h.known n (hknown n hn), fun k f hk =>
    h.resident k f (htable k f hk)⟩
  obtain ⟨hn', hpage⟩ := hown f n hn
  rw [hpage]
  exact h.own f n hn'

omit [PageDisk δ] in
theorem repin (h : Recalled b last) (hk : b.pageTable k = some f)
    (hs : Structural ((b.setPage f { b.pages f with
      pinCount := (b.pages f).pinCount + 1 }).recordPin f k.pageId) none) :
    Recalled ((b.setPage f { b.pages f with
      pinCount := (b.pages f).pinCount + 1 }).recordPin f k.pageId) last := by
  have hkey := h.structural.key_of_table hk
  have hres := h.structural.resident_of_table hk
  obtain ⟨s, halive, _⟩ := Option.map_eq_some_iff.mp hres.tracked
  have hpageOf : b.replacer.pageOf f = some s.pageId := by
    rw [ArcReplacer.pageOf, halive]
    rfl
  have hnumber : s.pageId = k.pageId := (h.own f _ hpageOf).trans (congrArg PageKey.pageId hkey)
  have hlt : f < b.poolSize := Nat.lt_of_lt_of_le (h.structural.lt_of_table hk) (Nat.mod_le _ _)
  have hrecord := h.replacer.recordAccess (p := k.pageId) hlt
    (fun u hu => by rw [← hnumber, Option.some.inj (halive.symm.trans hu)])
    fun hnone => by rw [halive] at hnone; cases hnone
  obtain ⟨hset, hsetRemembers⟩ :=
    ArcReplacer.pageOf_setEvictable (b.replacer.recordAccess f k.pageId) f false
  obtain ⟨hrec, hrecRemembers⟩ := ArcReplacer.pageOf_recordAccess b.replacer f k.pageId
  refine h.congr hs (hrecord.setEvictable f false) (fun g n hn => ?_)
    (fun n hn => hrecRemembers n ((hsetRemembers n).mp hn)) fun _ _ => id
  have hn : ((b.replacer.recordAccess f k.pageId).setEvictable f false).pageOf g = some n := hn
  have hsame : Function.update b.replacer.pageOf f (some ((b.replacer.pageOf f).getD k.pageId)) =
      b.replacer.pageOf := by
    rw [hpageOf, Option.getD_some, ← hpageOf, Function.update_eq_self]
  rw [hset, hrec, hsame] at hn
  exact ⟨hn, pageId_eq_of_update rfl g⟩

omit [PageDisk δ] in
theorem evicted_of_full (h : Recalled b last) (hfree : b.freeFrames = [])
    (hflags : ∀ f, b.replacer.flags f ≠ some true) : b.evicted = none := by
  rw [evicted, if_pos hfree]
  cases he : b.replacer.evict with
  | none => rfl
  | some v => exact absurd (h.structural.tracks.evict_some he).1 (hflags v.1)

theorem fetchPage (h : Recalled b last) {r : Option FrameId}
    (halone : b.pageTable k = none → Alone b last k)
    (hr : b.fetchPage k.fileId k.pageId = .ok (r, b')) : Recalled b' (last.after b k) := by
  have hvalid : k.pageId ≠ invalidPageId := by
    cases hk : b.pageTable k with
    | none => exact (halone hk).1
    | some f => exact (h.structural.table k f hk).2.2.2
  have hs := h.structural.fetchPage hvalid hr
  rcases fetchPage_cases h.structural k.fileId k.pageId with ⟨m, he, _⟩ | ⟨f, _, _, he⟩ |
    ⟨f, hk, he⟩ | ⟨hk, he, hfree, hflags⟩ | ⟨f, b₁, data, d, hk, hfound, _, he⟩
  · cases he.symm.trans hr
  · cases he.symm.trans hr
  · cases he.symm.trans hr
    have hk : b.pageTable k = some f := hk
    have hafter : last.after b k = last := if_neg (by rw [hk]; simp)
    rw [hafter]
    exact h.repin hk hs
  · cases he.symm.trans hr
    have hafter : last.after b k = last.ask b k := if_pos hk
    rw [hafter]
    exact h.ask (halone hk) (h.evicted_of_full hfree hflags)
  · cases he.symm.trans hr
    have hafter : last.after b k = last.ask b k := if_pos hk
    rw [hafter]
    exact h.bring hfound (halone hk) hs rfl rfl rfl rfl

theorem newPage (h : Recalled b last) {file : FileId} {r : Option (FrameId × PageId)}
    (halone : Alone b last ⟨file, b.nextPageId⟩) (hr : b.newPage file = .ok (r, b')) :
    Recalled b' (last.ask b ⟨file, b.nextPageId⟩) := by
  have hfresh : b.pageTable ⟨file, b.nextPageId⟩ = none := by
    by_contra hne
    obtain ⟨f, hf⟩ := Option.ne_none_iff_exists'.mp hne
    exact halone.2.1 _ f hf rfl
  have hs := h.structural.newPage halone.1 hfresh hr
  rcases newPage_cases h.structural file with ⟨m, he, _⟩ | ⟨he, hfree, hflags⟩ |
    ⟨f, b₁, d, hfound, _, he⟩
  · cases he.symm.trans hr
  · cases he.symm.trans hr
    exact h.ask halone (h.evicted_of_full hfree hflags)
  · cases he.symm.trans hr
    exact h.bring hfound halone hs rfl rfl rfl rfl

omit [PageDisk δ] in
theorem unpinPage (h : Recalled b last) (file : FileId) (page : PageId) (dirty : Bool) :
    Recalled (b.unpinPage file page dirty).2 last := by
  have hs := h.structural.unpinPage file page dirty
  rcases unpinPage_cases b file page dirty with ⟨he, _⟩ | ⟨f, _, _, he⟩
  · rw [he]
    exact h
  · rw [he] at hs ⊢
    obtain ⟨hset, hsetRemembers⟩ := ArcReplacer.pageOf_setEvictable b.replacer f true
    refine h.congr hs ?_ (fun g n hn => ⟨?_, pageId_eq_of_update rfl g⟩) (fun n hn => ?_)
      fun _ _ => id
    · dsimp only
      split
      · exact h.replacer.setEvictable f true
      · exact h.replacer
    · dsimp only at hn
      split at hn
      · rwa [hset] at hn
      · exact hn
    · dsimp only at hn
      split at hn
      · exact (hsetRemembers n).mp hn
      · exact hn

omit [PageDisk δ] in
theorem clean (h : Recalled b last) (hs : Structural b' none) (hsize : b'.poolSize = b.poolSize)
    (hreplacer : b'.replacer = b.replacer) (htable : b'.pageTable = b.pageTable)
    (hpages : ∀ g, (b'.pages g).pageId = (b.pages g).pageId) : Recalled b' last := by
  refine h.congr hs (by rw [hsize, hreplacer]; exact h.replacer) (fun g n hn => ?_) (fun n hn => ?_)
    fun k f hk => htable ▸ hk
  · rw [hreplacer] at hn
    exact ⟨hn, hpages g⟩
  · rwa [hreplacer] at hn

theorem flushPage (h : Recalled b last) {file : FileId} {page : PageId} {r : Bool}
    (hr : b.flushPage file page = .ok (r, b')) : Recalled b' last := by
  have hs := h.structural.flushPage hr
  rcases flushPage_cases b file page with ⟨_, m, he, _⟩ | ⟨_, he⟩ | ⟨f, d, hk, _, he⟩
  · cases he.symm.trans hr
  · cases he.symm.trans hr
    exact h
  · cases he.symm.trans hr
    exact h.clean hs rfl rfl rfl fun g => pageId_eq_of_update rfl g

theorem flushFrames (h : Recalled b last) {fs : List FrameId} (hlt : ∀ f ∈ fs, f < b.frameCount)
    (hr : fs.foldlM flushFrame b = .ok b') : Recalled b' last := by
  induction fs generalizing b with
  | nil =>
      cases hr
      exact h
  | cons f fs ih =>
      rw [List.foldlM_cons] at hr
      obtain ⟨b₁, hf, hrest⟩ := bind_eq_ok.mp hr
      obtain ⟨hs, hcount⟩ := h.structural.flushFrame (hlt f List.mem_cons_self) hf
      have h₁ : Recalled b₁ last := by
        rcases flushFrame_cases b f with ⟨m, he, _⟩ | ⟨he, _⟩ | ⟨d, _, _, _, he⟩
        · cases he.symm.trans hf
        · cases he.symm.trans hf
          exact h
        · cases he.symm.trans hf
          exact h.clean hs rfl rfl rfl fun g => pageId_eq_of_update rfl g
      exact ih h₁ (fun g hg => hcount ▸ hlt g (List.mem_cons_of_mem f hg)) hrest

omit [PageDisk δ] in
theorem deletePage (h : Recalled b last) {file : FileId} {page : PageId} {r : Bool}
    (hr : b.deletePage file page = .ok (r, b')) : Recalled b' last := by
  obtain ⟨_, _, hr', hs⟩ := h.structural.deletePage file page
  cases hr'.symm.trans hr
  unfold BufferPoolManager.deletePage at hr
  split at hr
  next =>
    cases hr
    exact h
  next f hk =>
    split at hr
    next =>
      cases hr
      exact h
    next hpin =>
      obtain ⟨q, hq, hrest⟩ := bind_eq_ok.mp hr
      cases hrest
      have hres := h.structural.resident_of_table hk
      have hzero : (b.pages f).pinCount = 0 := by
        have := hres.pin_nonneg
        omega
      have hev : ∀ s, b.replacer.aliveMap f = some s → s.evictable = true := by
        intro s halive
        have htracked := hres.tracked
        rw [ArcReplacer.flags, halive, hzero] at htracked
        exact Option.some.inj htracked
      obtain ⟨hpageOf, hghost⟩ := ArcReplacer.pageOf_remove hq
      refine h.congr hs (h.replacer.remove hev hq) (fun g n hn => ?_) (fun n hn => ?_)
        fun k' g hg => ?_
      · have hn : q.pageOf g = some n := hn
        rw [hpageOf] at hn
        have hg : g ≠ f := by
          rintro rfl
          rw [Function.update_self] at hn
          cases hn
        rw [Function.update_of_ne hg] at hn
        exact ⟨hn, congrArg Page.pageId (Function.update_of_ne hg _ _)⟩
      · have hn : q.ghostMap n ≠ none := hn
        rwa [hghost] at hn
      · have hg : Function.update b.pageTable ⟨file, page⟩ none k' = some g := hg
        by_cases hkk : k' = ⟨file, page⟩
        · rw [hkk, Function.update_self] at hg
          cases hg
        · rwa [Function.update_of_ne hkk] at hg

end Recalled

theorem Recorded.recalled {poolSize : Nat} {d : δ} (h : Recorded Alone poolSize d last b) :
    Recalled b last := by
  induction h with
  | create =>
      exact ⟨.create poolSize d, .create, nofun, fun n hn => absurd rfl hn, nofun⟩
  | newPage _ hmay hr ih => exact ih.newPage hmay hr
  | readPage _ hmay hr ih => exact ih.fetchPage hmay hr
  | writePage _ hmay hr ih => exact ih.fetchPage hmay hr
  | unpinPage file page dirty _ ih => exact ih.unpinPage file page dirty
  | flushPage _ hr ih => exact ih.flushPage hr
  | flushAllPages _ hr ih => exact ih.flushFrames (fun _ hf => List.mem_range.mp hf) hr
  | deletePage _ hr ih => exact ih.deletePage hr
  | setData f data _ ih =>
      exact ih.clean (ih.structural.congr rfl rfl rfl rfl rfl) rfl rfl rfl fun _ => rfl

/-- `record_access` for page `k`, brought in with the next frame, hits a ghost list. -/
def GhostHit (b : BufferPoolManager δ) (k : PageKey) : Prop :=
  ∃ f b₁, b.findFrame = .ok (some (f, b₁)) ∧ b₁.replacer.aliveMap f = none ∧
    b₁.replacer.Remembers k.pageId

/-- As long as every page that is brought in is alone with its number, the ghost lists list each
page that is remembered once, and a ghost hit is for the page that was evicted. -/
theorem recorded_ghosts (poolSize : Nat) (d : δ) (last : History) (b : BufferPoolManager δ)
    (h : Recorded Alone poolSize d last b) :
    (b.replacer.mruGhost ++ b.replacer.mfuGhost).Nodup ∧
      (∀ n, n ∈ b.replacer.mruGhost ++ b.replacer.mfuGhost ↔ b.replacer.Remembers n) ∧
      ∀ k, Alone b last k → GhostHit b k →
        b.replacer.Remembers k.pageId ∧ last.evicted k.pageId = some k.fileId := by
  have hr := h.recalled
  obtain ⟨hd, _⟩ := hr.replacer.directory
  have hc := hd.consistent
  refine ⟨hc.ghosts_nodup, fun n => ⟨?_, ?_⟩, ?_⟩
  · intro hn hnone
    have hnot := hd.ghosts.not_mem hnone
    exact (List.mem_append.mp hn).elim hnot.1 hnot.2
  · exact hc.ghosts_listed n
  · rintro k ⟨_, hother, hsame⟩ ⟨f, b₁, hfind, _, hhit⟩
    rcases findFrame_cases hr.structural with ⟨_, _, he, _⟩ | ⟨he, _⟩ | ⟨g, b₂, he, hfound⟩
    · cases he.symm.trans hfind
    · cases he.symm.trans hfind
    · cases he.symm.trans hfind
      have hremembers := ((hr.found hfound).2.2.2 k.pageId hhit).2 hother
      obtain ⟨file, hevicted, hasked⟩ := hr.known _ hremembers
      rw [hevicted, hsame file hremembers hasked]
      exact ⟨hremembers, rfl⟩

omit [PageDisk δ] in
theorem Recalled.alone (h : Recalled b last) (hvalid : k.pageId ≠ invalidPageId)
    (hframes : ∀ f < b.frameCount, (b.pages f).pageId ≠ k.pageId)
    (hsame : b.replacer.Remembers k.pageId → last.asked k.pageId = some k.fileId) :
    Alone b last k := by
  refine ⟨hvalid, fun k' f hf he => ?_, fun file hremembers hasked => ?_⟩
  · refine hframes f (h.structural.lt_of_table hf) ?_
    rw [← he]
    exact congrArg PageKey.pageId (h.structural.key_of_table hf)
  · exact Option.some.inj (hasked.symm.trans (hsame hremembers))

section
variable {last : History} {b b' : BufferPoolManager Disk.PageMap} {n : Nat} {r : Option FrameId}

theorem Recorded.read (file : FileId) (page : PageId) (h : Recorded Alone n Disk.PageMap.zero last b)
    (hr : b.readPage file page = .ok (r, b')) (hvalid : page ≠ invalidPageId)
    (hframes : ∀ f < b.frameCount, (b.pages f).pageId ≠ page)
    (hsame : b.replacer.Remembers page → last.asked page = some file) :
    Recorded Alone n Disk.PageMap.zero (last.after b ⟨file, page⟩) b' :=
  .readPage h (fun _ => h.recalled.alone hvalid hframes hsame) hr

end

/-- Page 1 of file 1 is deleted, and then page 1 of file 0 is read. Pages are evicted from both lists,
some come back, and page 4 of file 1 is about to. -/
theorem recorded_ghosts_both_lists : ∃ last b, Recorded Alone 3 Disk.PageMap.zero last b ∧
    b.replacer.mruGhost = [4] ∧ b.replacer.mfuGhost = [1] ∧
    (b.replacer.mruGhost ++ b.replacer.mfuGhost).Nodup ∧ GhostHit b ⟨1, 4⟩ ∧
    b.replacer.Remembers 4 ∧ last.evicted 4 = some 1 := by
  have h₀ : Recorded Alone 3 Disk.PageMap.zero .empty _ := .create
  have h₁ := h₀.read 1 1 rfl (by decide) (by decide) (fun h => absurd rfl h)
  have h₂ := Recorded.unpinPage 1 1 false h₁
  have h₃ := @Recorded.deletePage Disk.PageMap _ _ _ _ _ _ _ 1 1 _ h₂ rfl
  have h₄ := h₃.read 0 1 rfl (by decide) (by decide) (fun h => absurd rfl h)
  have h₅ := @Recorded.readPage Disk.PageMap _ _ _ _ _ _ _ 0 1 _ h₄ nofun rfl
  have h₆ := Recorded.unpinPage 0 1 false (.unpinPage 0 1 false h₅)
  have h₇ := h₆.read 1 2 rfl (by decide) (by decide) (fun h => absurd rfl h)
  have h₈ := Recorded.unpinPage 1 2 false h₇
  have h₉ := h₈.read 0 3 rfl (by decide) (by decide) (fun h => absurd rfl h)
  have h₁₀ := h₉.read 1 4 rfl (by decide) (by decide) (fun h => absurd rfl h)
  have h₁₁ := Recorded.unpinPage 1 4 false h₁₀
  have h₁₂ := h₁₁.read 1 2 rfl (by decide) (by decide) (fun _ => rfl)
  have h₁₃ := h₁₂.read 0 5 rfl (by decide) (by decide) (fun h => absurd rfl h)
  have h₁₄ := Recorded.unpinPage 0 5 false h₁₃
  have halone := h₁₄.recalled.alone (k := ⟨1, 4⟩) (by decide) (by decide) (fun _ => rfl)
  obtain ⟨hnodup, _, hghost⟩ := recorded_ghosts 3 Disk.PageMap.zero _ _ h₁₄
  refine ⟨_, _, h₁₄, rfl, rfl, hnodup, ?hit, hghost _ halone ?hit⟩
  exact ⟨_, _, rfl, rfl, Option.some_ne_none _⟩

/-- Pages 5 of two files. In one run the page of file 1 is taken for the page of file 0 that was
evicted. In another both are evicted, and when one of them is forgotten the list keeps the other,
which the map does not have. -/
theorem recorded_ghosts_two_files :
    (∃ last b, Recorded (fun _ _ k => k.pageId ≠ invalidPageId) 1 Disk.PageMap.zero last b ∧
      GhostHit b ⟨1, 5⟩ ∧ (last.note b.evicted).evicted 5 = some 0) ∧
    ∃ last b, Recorded (fun _ _ k => k.pageId ≠ invalidPageId) 3 Disk.PageMap.zero last b ∧
      b.replacer.mruGhost = [5] ∧ ¬ b.replacer.Remembers 5 := by
  constructor
  · have h₁ := @Recorded.readPage Disk.PageMap _ (fun _ _ k => k.pageId ≠ invalidPageId) 1
      Disk.PageMap.zero _ _ _ 0 5 (some 0) .create (fun _ => by decide) rfl
    have h₂ := Recorded.unpinPage 0 5 false h₁
    exact ⟨_, _, h₂, ⟨_, _, rfl, rfl, Option.some_ne_none _⟩, rfl⟩
  · have h₁ := @Recorded.readPage Disk.PageMap _ (fun _ _ k => k.pageId ≠ invalidPageId) 3
      Disk.PageMap.zero _ _ _ 0 6 (some 0) .create (fun _ => by decide) rfl
    have h₂ := @Recorded.readPage Disk.PageMap _ _ _ _ _ _ _ 0 6 (some 0) h₁ (fun _ => by decide) rfl
    have h₃ := @Recorded.readPage Disk.PageMap _ _ _ _ _ _ _ 0 5 (some 1) h₂ (fun _ => by decide) rfl
    have h₄ := Recorded.unpinPage 0 5 false h₃
    have h₅ := @Recorded.readPage Disk.PageMap _ _ _ _ _ _ _ 1 5 (some 2) h₄ (fun _ => by decide) rfl
    have h₆ := Recorded.unpinPage 1 5 false h₅
    have h₇ := @Recorded.readPage Disk.PageMap _ _ _ _ _ _ _ 0 7 (some 1) h₆ (fun _ => by decide) rfl
    have h₈ := @Recorded.readPage Disk.PageMap _ _ _ _ _ _ _ 0 8 (some 2) h₇ (fun _ => by decide) rfl
    exact ⟨_, _, h₈, rfl, fun h => h rfl⟩

end BufferPoolManager

end TurtleDb.Buffer
