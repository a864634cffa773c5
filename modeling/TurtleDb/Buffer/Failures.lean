import TurtleDb.Buffer.Theorems
import TurtleDb.Buffer.Throwing

/-!
# Requests that throw

`fetch_page` and `new_page` take a frame before they use the disk. Where the disk throws, the frame
is neither free nor evictable afterwards.
-/

namespace TurtleDb.Buffer

open TurtleDb.Lib

/-- The calls of a client. -/
inductive Call where
  | readPage (file : FileId) (page : PageId)
  | writePage (file : FileId) (page : PageId)
  | newPage (file : FileId)
  | unpinPage (file : FileId) (page : PageId) (isDirty : Bool)
  | flushPage (file : FileId) (page : PageId)
  | flushAllPages
  | deletePage (file : FileId) (page : PageId)
  deriving DecidableEq, Repr

namespace Call

variable {δ : Type} [ThrowingDisk δ]

/-- The answers play no part. -/
def run : Call → PoolM δ Unit
  | readPage file page => discard (PoolM.fetchPage file page)
  | writePage file page => discard (PoolM.fetchPage file page)
  | newPage file => discard (PoolM.newPage file)
  | unpinPage file page isDirty => modify fun b => (b.unpinPage file page isDirty).2
  | flushPage file page => discard (PoolM.flushPage file page)
  | flushAllPages => PoolM.flushAllPages
  | deletePage file page => fun b =>
      match b.deletePage file page with
      | .ok (_, b') => .ok () b'
      | .error fault => .error fault b

/-- The calls that ask for a page. -/
def IsRequest : Call → Prop
  | readPage _ _ | writePage _ _ | newPage _ => True
  | _ => False

end Call

variable {δ : Type} [ThrowingDisk δ]

/-- The states of a pool that goes on after every exception of its disk. Guards write to frames, and
others use the disk. -/
inductive Lived (poolSize : Nat) (d : δ) : BufferPoolManager δ → Prop where
  | create : Lived poolSize d (.create poolSize d)
  | call {b b'} (h : Lived poolSize d b) (c : Call) (hc : c.run b = .ok () b') : Lived poolSize d b'
  | thrown {b b' message} (h : Lived poolSize d b) (c : Call)
      (hc : c.run b = .error (.raised message) b') : Lived poolSize d b'
  | setData {b} (h : Lived poolSize d b) (fid : FrameId) (data : PageData) :
      Lived poolSize d (b.setData fid data)
  | disk {b} (h : Lived poolSize d b) (d' : δ) : Lived poolSize d { b with diskManager := d' }

namespace BufferPoolManager

/-- How many requests for pages that are not in the pool it can serve: one for each frame that is
free or evictable. -/
def capacity (b : BufferPoolManager δ) : Nat := b.freeFrames.length + b.replacer.currSize

/-- The page is in the pool with these bytes, or a request reads them into it. -/
def Readable (b : BufferPoolManager δ) (k : PageKey) (data : PageData) : Prop :=
  (∃ fid, b.pageTable k = some fid ∧ b.data fid = data) ∨
    ∃ fid b', PoolM.fetchPage k.fileId k.pageId b = .ok (some fid) b' ∧ b'.data fid = data

/-- Nothing a client may rely on is lost from the one state to the other. -/
structure Undamaged (b b' : BufferPoolManager δ) : Prop where
  free : b'.freeFrames.Perm b.freeFrames
  tracked : ∀ f, b'.replacer.flags f = b.replacer.flags f
  pins : ∀ f < b.frameCount, (b'.pages f).pinCount = (b.pages f).pinCount
  readable : ∀ k f, b.pageTable k = some f → b'.Readable k (b.data f)
  capacity : b'.capacity = b.capacity

end BufferPoolManager

/-! ## The size of the replacer -/

namespace ArcReplacer.Tracks

variable {r r' : ArcReplacer} {t : FrameId → Option Bool} {f : FrameId}

/-- What one frame's change does to the number of evictable frames. -/
theorem currSize_update (h : Tracks r t) {x : Option Bool} (h' : Tracks r' (Function.update t f x)) :
    r'.currSize + (if t f = some true then 1 else 0) =
      r.currSize + if x = some true then 1 else 0 := by
  have hoff : ∀ g, g ≠ f → Function.update t f x g = t g := fun g hg => Function.update_of_ne hg _ _
  have hcount := @countP_of_off (r'.mru ++ r'.mfu) (r.mru ++ r.mfu) h'.nodup h.nodup f
    (fun g => Function.update t f x g == some true) (fun g => t g == some true)
    (fun g hg => by rw [h'.mem_live, h.mem_live, hoff g hg]) (fun g hg => by rw [hoff g hg])
  rw [h.size, h'.size]
  have hmem : (f ∈ r.mru ++ r.mfu ∧ (t f == some true) = true) ↔ t f = some true := by
    rw [h.mem_live, beq_iff_eq]
    exact ⟨And.right, fun hf => ⟨by rw [hf]; simp, hf⟩⟩
  have hmem' : (f ∈ r'.mru ++ r'.mfu ∧ (Function.update t f x f == some true) = true) ↔
      x = some true := by
    rw [h'.mem_live, Function.update_self, beq_iff_eq]
    exact ⟨And.right, fun hf => ⟨by rw [hf]; simp, hf⟩⟩
  simp only [hmem, hmem'] at hcount
  exact hcount

theorem currSize_eq_zero (h : Tracks r t) (hnone : ∀ f, t f ≠ some true) : r.currSize = 0 := by
  rw [h.size, List.countP_eq_zero]
  intro f _ hf
  exact hnone f (beq_iff_eq.mp hf)

end ArcReplacer.Tracks

/-! ## What a request takes -/

namespace PoolM

open BufferPoolManager

variable {α β : Type} {b b' : BufferPoolManager δ}

omit [ThrowingDisk δ] in
theorem bind_of_ok {x : PoolM δ α} {a : α} (h : x b = .ok a b') (k : α → PoolM δ β) :
    (x >>= k) b = k a b' := by
  show EStateM.bind x k b = _
  rw [EStateM.bind, h]

omit [ThrowingDisk δ] in
theorem bind_of_error {x : PoolM δ α} {fault : Fault} (h : x b = .error fault b') (k : α → PoolM δ β) :
    (x >>= k) b = .error fault b' := by
  show EStateM.bind x k b = _
  rw [EStateM.bind, h]

/-- The call succeeds or its disk throws, and the state it leaves satisfies `P` in both cases. -/
def Leaves (x : PoolM δ α) (b : BufferPoolManager δ) (P : BufferPoolManager δ → Prop) : Prop :=
  ∃ b', P b' ∧ ((∃ a, x b = .ok a b') ∨ ∃ message, x b = .error (.raised message) b')

omit [ThrowingDisk δ] in
theorem Leaves.of_ok {x : PoolM δ α} {P : BufferPoolManager δ → Prop} (b' : BufferPoolManager δ)
    (a : α) (h : x b = .ok a b') (hP : P b') : Leaves x b P := ⟨b', hP, .inl ⟨a, h⟩⟩

omit [ThrowingDisk δ] in
theorem Leaves.of_error {x : PoolM δ α} {P : BufferPoolManager δ → Prop}
    (b' : BufferPoolManager δ) (message : String) (h : x b = .error (.raised message) b')
    (hP : P b') : Leaves x b P := ⟨b', hP, .inr ⟨message, h⟩⟩

/-- Free list and replacer are as before. -/
def SameFrames (b b' : BufferPoolManager δ) : Prop :=
  b'.freeFrames = b.freeFrames ∧ b'.replacer = b.replacer

theorem diskWrite_leaves (file : FileId) (page : PageId) (data : PageData)
    (b : BufferPoolManager δ) : Leaves (diskWrite file page data) b (SameFrames b) := by
  cases h : PageDisk.writePage b.diskManager file page data with
  | ok d =>
      refine .of_ok { b with diskManager := d } () ?_ ⟨rfl, rfl⟩
      rw [diskWrite, h]
  | error fault =>
      obtain ⟨message, rfl⟩ := PageDisk.writePage_throws h
      refine .of_error { b with
        diskManager := ThrowingDisk.writeThrown b.diskManager file page data } message ?_ ⟨rfl, rfl⟩
      rw [diskWrite, h]

theorem diskRead_leaves (file : FileId) (page : PageId) (b : BufferPoolManager δ) :
    Leaves (diskRead file page) b (SameFrames b) := by
  cases h : PageDisk.readPage b.diskManager file page with
  | ok r =>
      refine .of_ok { b with diskManager := r.2 } r.1 ?_ ⟨rfl, rfl⟩
      rw [diskRead, h]
  | error fault =>
      obtain ⟨message, rfl⟩ := PageDisk.readPage_throws h
      refine .of_error { b with
        diskManager := ThrowingDisk.readThrown b.diskManager file page } message ?_ ⟨rfl, rfl⟩
      rw [diskRead, h]

omit [ThrowingDisk δ] in
/-- A call that begins with `get` goes on with the state. -/
theorem get_bind (k : BufferPoolManager δ → PoolM δ β) : (get >>= k : PoolM δ β) b = k b b := rfl

theorem vacate_leaves (f : FrameId) (b : BufferPoolManager δ) :
    Leaves (vacate f) b (SameFrames b) := by
  by_cases hinv : (b.pages f).pageId = invalidPageId
  · refine .of_ok b () ?_ ⟨rfl, rfl⟩
    rw [vacate, get_bind]
    simp only [hinv, if_true]
    rfl
  · cases hdirty : (b.pages f).isDirty with
    | false =>
        refine .of_ok { b with
          pageTable := Function.update b.pageTable (b.pages f).key none } () ?_ ⟨rfl, rfl⟩
        rw [vacate, get_bind]
        simp only [hinv, hdirty, if_false]
        rfl
    | true =>
        have hv : vacate f b = (diskWrite (b.pages f).fileId (b.pages f).pageId (b.data f) >>=
            fun _ => modify fun b' => { b' with
              pageTable := Function.update b'.pageTable (b.pages f).key none } : PoolM δ _) b := by
          rw [vacate, get_bind]
          simp only [hinv, hdirty, if_true, if_false]
        obtain ⟨b', hsame, ⟨_, hw⟩ | ⟨message, hw⟩⟩ :=
          diskWrite_leaves (b.pages f).fileId (b.pages f).pageId (b.data f) b
        · exact .of_ok _ () (hv.trans (bind_of_ok hw _)) hsame
        · exact .of_error b' message (hv.trans (bind_of_error hw _)) hsame

/-- A frame has been taken: the pool can serve one request less. -/
def Taken (b b' : BufferPoolManager δ) : Prop :=
  b'.replacer.Tracks b'.replacer.flags ∧ b'.capacity + 1 = b.capacity

theorem vacate_taken (f : FrameId) (b₁ : BufferPoolManager δ) (h : Taken b b₁)
    (hfind : findFrame b = (vacate f >>= fun _ => pure (some f) : PoolM δ _) b₁) :
    (∀ b', findFrame b ≠ .ok none b') ∧ Leaves findFrame b (Taken b) := by
  obtain ⟨b', ⟨hf, hr⟩, hv⟩ := vacate_leaves f b₁
  have htaken : Taken b b' := by
    rw [Taken, hr, BufferPoolManager.capacity, hf, hr]
    exact h
  rcases hv with ⟨_, hv⟩ | ⟨message, hv⟩
  · rw [bind_of_ok hv] at hfind
    refine ⟨fun b'' hb'' => ?_, .of_ok b' _ hfind htaken⟩
    cases hfind.symm.trans hb''
  · rw [bind_of_error hv] at hfind
    refine ⟨fun b'' hb'' => ?_, .of_error b' _ hfind htaken⟩
    cases hfind.symm.trans hb''

/-- Either nothing can be served, or a frame is taken, also where the write-back throws. -/
theorem findFrame_cases (h : b.replacer.Tracks b.replacer.flags) :
    (findFrame b = .ok none b ∧ b.capacity = 0) ∨
      (∀ b', findFrame b ≠ .ok none b') ∧ Leaves findFrame b (Taken b) := by
  cases hfree : b.freeFrames with
  | cons f rest =>
      refine .inr (vacate_taken f { b with freeFrames := rest } ⟨h, ?_⟩ ?_)
      · show rest.length + b.replacer.currSize + 1 = b.freeFrames.length + b.replacer.currSize
        rw [hfree, List.length_cons]
        omega
      · rw [findFrame, get_bind, hfree]
        rfl
  | nil =>
      cases hevict : b.replacer.evict with
      | none =>
          refine .inl ⟨?_, ?_⟩
          · rw [findFrame, get_bind, hfree, hevict]
            rfl
          · rw [BufferPoolManager.capacity, hfree, h.currSize_eq_zero (h.evict_none hevict)]
            rfl
      | some victim =>
          obtain ⟨f, r⟩ := victim
          obtain ⟨hflag, hr⟩ := h.evict_some hevict
          have hsize := h.currSize_update hr
          rw [if_pos hflag] at hsize
          refine .inr (vacate_taken f { b with replacer := r } ⟨?_, ?_⟩ ?_)
          · exact hr.eq_flags ▸ hr
          · show b.freeFrames.length + r.currSize + 1 = b.freeFrames.length + b.replacer.currSize
            rw [Nat.add_assoc, hsize]
            rfl
          · rw [findFrame, get_bind, hfree, hevict]
            rfl

/-- The pool can serve fewer requests than before. -/
def Drawn (b b' : BufferPoolManager δ) : Prop :=
  b'.replacer.Tracks b'.replacer.flags ∧ b'.capacity < b.capacity

omit [ThrowingDisk δ] in
theorem Taken.drawn (h : Taken b b') : Drawn b b' := ⟨h.1, by have := h.2; omega⟩

omit [ThrowingDisk δ] in
theorem Drawn.same {b₁ : BufferPoolManager δ} (h : Drawn b b₁) (hsame : SameFrames b₁ b') :
    Drawn b b' := by
  obtain ⟨hf, hr⟩ := hsame
  rw [Drawn, BufferPoolManager.capacity, hf, hr]
  exact h

omit [ThrowingDisk δ] in
/-- A pinned access makes no frame evictable. -/
theorem tracks_recordPin (b : BufferPoolManager δ) (h : b.replacer.Tracks b.replacer.flags)
    (f : FrameId) (page : PageId) :
    (b.recordPin f page).replacer.Tracks (b.recordPin f page).replacer.flags ∧
      (b.recordPin f page).capacity ≤ b.capacity := by
  have hpin := h.pin f page
  have hsize := h.currSize_update hpin
  refine ⟨hpin.eq_flags ▸ hpin, ?_⟩
  show b.freeFrames.length + ((b.replacer.recordAccess f page).setEvictable f false).currSize ≤
    b.freeFrames.length + b.replacer.currSize
  simp only [Option.some.injEq, Bool.false_eq_true, if_false] at hsize
  omega

omit [ThrowingDisk δ] in
theorem Drawn.install (h : Drawn b b') (f : FrameId) (k : PageKey) : Drawn b (b'.install f k) := by
  obtain ⟨htracks, hle⟩ := tracks_recordPin { b'.setPage f
    { fileId := k.fileId, pageId := k.pageId, pinCount := 1, isDirty := false } with
      pageTable := Function.update b'.pageTable k (some f) } h.1 f k.pageId
  exact ⟨htracks, Nat.lt_of_le_of_lt hle h.2⟩

theorem fetchPage_hit (h : b.replacer.Tracks b.replacer.flags) {file : FileId} {page : PageId}
    {f : FrameId} (hf : b.pageTable ⟨file, page⟩ = some f) :
    fetchPage file page b = .error .overflow b ∨
      ∃ b', fetchPage file page b = .ok (some f) b' ∧ b'.replacer.Tracks b'.replacer.flags := by
  rw [fetchPage, get_bind, hf]
  by_cases hmax : (b.pages f).pinCount = intMax
  · exact .inl (by simp only [hmax, if_true]; rfl)
  · refine .inr ⟨_, by simp only [hmax, if_false]; rfl, ?_⟩
    exact (tracks_recordPin (b.setPage f _) h f page).1

/-- Any other page needs a frame, which is lost when the disk throws. -/
theorem fetchPage_miss (h : b.replacer.Tracks b.replacer.flags) {file : FileId} {page : PageId}
    (hnone : b.pageTable ⟨file, page⟩ = none) :
    (fetchPage file page b = .ok none b ∧ b.capacity = 0) ∨
      Leaves (fetchPage file page) b (Drawn b) := by
  obtain ⟨next, hfetch, hfull, hnext⟩ : ∃ next : Option FrameId → PoolM δ (Option FrameId),
      fetchPage file page b = (findFrame >>= next) b ∧ next none = pure none ∧
        ∀ fid, next (some fid) = (do
          let data ← diskRead file page
          modify fun b => (b.setData fid data).install fid ⟨file, page⟩
          return some fid) := by
    rw [fetchPage, get_bind, hnone]
    exact ⟨_, rfl, rfl, fun _ => rfl⟩
  rcases findFrame_cases h with ⟨hfind, hzero⟩ | ⟨hne, b₁, htaken, ⟨found, hfind⟩ | ⟨message, hfind⟩⟩
  · refine .inl ⟨?_, hzero⟩
    rw [hfetch, bind_of_ok hfind, hfull]
    rfl
  · cases found with
    | none => exact absurd hfind (hne b₁)
    | some f =>
        refine .inr ?_
        obtain ⟨b₂, hsame, ⟨data, hread⟩ | ⟨message, hread⟩⟩ := diskRead_leaves file page b₁
        · refine .of_ok ((b₂.setData f data).install f ⟨file, page⟩) (some f) ?_
            (Drawn.install (htaken.drawn.same hsame) f ⟨file, page⟩)
          rw [hfetch, bind_of_ok hfind, hnext]
          exact bind_of_ok hread _
        · refine .of_error b₂ message ?_ (htaken.drawn.same hsame)
          rw [hfetch, bind_of_ok hfind, hnext]
          exact bind_of_error hread _
  · exact .inr (.of_error b₁ message (hfetch.trans (bind_of_error hfind _)) htaken.drawn)

theorem newPage_cases (h : b.replacer.Tracks b.replacer.flags) (file : FileId) :
    (newPage file b = .ok none b ∧ b.capacity = 0) ∨ Leaves (newPage file) b (Drawn b) := by
  rcases findFrame_cases h with ⟨hfind, hzero⟩ | ⟨hne, b₁, htaken, ⟨found, hfind⟩ | ⟨message, hfind⟩⟩
  · exact .inl ⟨bind_of_ok hfind _, hzero⟩
  · cases found with
    | none => exact absurd hfind (hne b₁)
    | some f =>
        refine .inr ?_
        have hdrawn : Drawn b (({ b₁ with nextPageId := add32 b₁.nextPageId 1 }.setData f
            Block.zero).install f ⟨file, b₁.nextPageId⟩) :=
          Drawn.install htaken.drawn f ⟨file, b₁.nextPageId⟩
        generalize hb₂ : ({ b₁ with nextPageId := add32 b₁.nextPageId 1 }.setData f
          Block.zero).install f ⟨file, b₁.nextPageId⟩ = b₂ at hdrawn
        have hnew : newPage file b = (diskWrite file b₁.nextPageId (b₂.data f) >>=
            fun _ => pure (some (f, b₁.nextPageId)) : PoolM δ _) b₂ := by
          rw [newPage, bind_of_ok hfind, ← hb₂]
          rfl
        obtain ⟨b₃, hsame, ⟨_, hw⟩ | ⟨message, hw⟩⟩ :=
          diskWrite_leaves file b₁.nextPageId (b₂.data f) b₂
        · exact .of_ok b₃ _ (hnew.trans (bind_of_ok hw _)) (hdrawn.same hsame)
        · exact .of_error b₃ message (hnew.trans (bind_of_error hw _)) (hdrawn.same hsame)
  · exact .inr (.of_error b₁ message (bind_of_error hfind _) htaken.drawn)

/-! ## The replacer in every state -/

theorem writeBack_leaves (f : FrameId) (b : BufferPoolManager δ) :
    Leaves (writeBack f) b (SameFrames b) := by
  have hwrite : writeBack f b = (diskWrite (b.pages f).fileId (b.pages f).pageId (b.data f) >>=
      fun _ => modify fun b' => b'.setPage f { b.pages f with isDirty := false } : PoolM δ _) b := rfl
  obtain ⟨b', hsame, ⟨_, hw⟩ | ⟨message, hw⟩⟩ :=
    diskWrite_leaves (b.pages f).fileId (b.pages f).pageId (b.data f) b
  · exact .of_ok _ () (hwrite.trans (bind_of_ok hw _)) hsame
  · exact .of_error b' message (hwrite.trans (bind_of_error hw _)) hsame

theorem flushPage_leaves (file : FileId) (page : PageId) (b : BufferPoolManager δ) :
    Leaves (flushPage file page) b (SameFrames b) := by
  cases hf : b.pageTable ⟨file, page⟩ with
  | none =>
      refine .of_ok b false ?_ ⟨rfl, rfl⟩
      rw [flushPage, get_bind, hf]
      rfl
  | some f =>
      have hflush : flushPage file page b = (writeBack f >>= fun _ => pure true : PoolM δ _) b := by
        rw [flushPage, get_bind, hf]
      obtain ⟨b', hsame, ⟨_, hw⟩ | ⟨message, hw⟩⟩ := writeBack_leaves f b
      · exact .of_ok b' true (hflush.trans (bind_of_ok hw _)) hsame
      · exact .of_error b' message (hflush.trans (bind_of_error hw _)) hsame

theorem flushFrame_leaves (f : FrameId) (b : BufferPoolManager δ) :
    Leaves (flushFrame f) b (SameFrames b) := by
  have hflush : flushFrame f b = (if (b.pages f).pageId ≠ invalidPageId ∧ (b.pages f).isDirty then
      writeBack f else pure () : PoolM δ _) b := rfl
  by_cases hp : (b.pages f).pageId ≠ invalidPageId ∧ (b.pages f).isDirty = true
  · rw [if_pos hp] at hflush
    obtain ⟨b', hsame, ⟨_, hw⟩ | ⟨message, hw⟩⟩ := writeBack_leaves f b
    · exact .of_ok b' () (hflush.trans hw) hsame
    · exact .of_error b' message (hflush.trans hw) hsame
  · rw [if_neg hp] at hflush
    exact .of_ok b () hflush ⟨rfl, rfl⟩

theorem flushFrames_leaves (fs : List FrameId) (b : BufferPoolManager δ) :
    Leaves (fs.forM flushFrame) b (SameFrames b) := by
  induction fs generalizing b with
  | nil => exact .of_ok b () rfl ⟨rfl, rfl⟩
  | cons f fs ih =>
      have hcons : (f :: fs).forM flushFrame b =
          (flushFrame f >>= fun _ => fs.forM flushFrame : PoolM δ PUnit) b := rfl
      obtain ⟨b₁, ⟨hfree, hreplacer⟩, ⟨_, hf⟩ | ⟨message, hf⟩⟩ := flushFrame_leaves f b
      · obtain ⟨b₂, hsame, hrest⟩ := ih b₁
        rw [SameFrames, hfree, hreplacer] at hsame
        rcases hrest with ⟨_, hrest⟩ | ⟨message, hrest⟩
        · exact .of_ok b₂ () (hcons.trans ((bind_of_ok hf _).trans hrest)) hsame
        · exact .of_error b₂ message (hcons.trans ((bind_of_ok hf _).trans hrest)) hsame
      · exact .of_error b₁ message (hcons.trans (bind_of_error hf _)) ⟨hfree, hreplacer⟩

/-- The state a call leaves, unless the process ends with it. -/
def After (x : PoolM δ α) (b b' : BufferPoolManager δ) : Prop :=
  (∃ a, x b = .ok a b') ∨ ∃ message, x b = .error (.raised message) b'

omit [ThrowingDisk δ] in
theorem Leaves.after {x : PoolM δ α} {P : BufferPoolManager δ → Prop} (h : Leaves x b P)
    (hafter : After x b b') : P b' := by
  obtain ⟨b₁, hP, ⟨a, hx⟩ | ⟨message, hx⟩⟩ := h
  · rcases hafter with ⟨a', hx'⟩ | ⟨message', hx'⟩
    · cases hx.symm.trans hx'
      exact hP
    · cases hx.symm.trans hx'
  · rcases hafter with ⟨a', hx'⟩ | ⟨message', hx'⟩
    · cases hx.symm.trans hx'
    · cases hx.symm.trans hx'
      exact hP

omit [ThrowingDisk δ] in
theorem discard_apply (x : PoolM δ α) (b : BufferPoolManager δ) :
    Functor.discard x b = match x b with
      | .ok _ b₁ => .ok ⟨⟩ b₁
      | .error fault b₁ => .error fault b₁ := by
  show EStateM.map _ x b = _
  rw [EStateM.map]
  cases x b with
  | ok a b₁ => rfl
  | error fault b₁ => rfl

omit [ThrowingDisk δ] in
theorem discard_eq_error {x : PoolM δ α} {fault : Fault} :
    Functor.discard x b = .error fault b' ↔ x b = .error fault b' := by
  rw [discard_apply]
  cases x b with
  | ok a b₁ => simp
  | error fault' b₁ => simp

omit [ThrowingDisk δ] in
theorem After.discard {x : PoolM δ α} (h : After (Functor.discard x) b b') : After x b b' := by
  rcases h with ⟨_, h⟩ | ⟨message, h⟩
  · rw [discard_apply] at h
    cases hb : x b with
    | ok a b₁ =>
        rw [hb] at h
        cases h
        exact .inl ⟨a, hb⟩
    | error fault b₁ =>
        rw [hb] at h
        cases h
  · exact .inr ⟨message, discard_eq_error.mp h⟩

theorem fetchPage_tracks (h : b.replacer.Tracks b.replacer.flags) {file : FileId} {page : PageId}
    (hafter : After (fetchPage file page) b b') : b'.replacer.Tracks b'.replacer.flags := by
  cases hf : b.pageTable ⟨file, page⟩ with
  | some f =>
      rcases fetchPage_hit h hf with hover | ⟨b₁, hok, htracks⟩
      · rcases hafter with ⟨a, ha⟩ | ⟨message, ha⟩
        · cases hover.symm.trans ha
        · cases hover.symm.trans ha
      · exact (Leaves.of_ok b₁ _ hok htracks : Leaves _ b fun b' =>
          b'.replacer.Tracks b'.replacer.flags).after hafter
  | none =>
      rcases fetchPage_miss h hf with ⟨hnone, -⟩ | hleaves
      · exact (Leaves.of_ok b _ hnone h : Leaves _ b fun b' =>
          b'.replacer.Tracks b'.replacer.flags).after hafter
      · exact (hleaves.after hafter).1

theorem newPage_tracks (h : b.replacer.Tracks b.replacer.flags) {file : FileId}
    (hafter : After (newPage file) b b') : b'.replacer.Tracks b'.replacer.flags := by
  rcases newPage_cases h file with ⟨hnone, -⟩ | hleaves
  · exact (Leaves.of_ok b _ hnone h : Leaves _ b fun b' =>
      b'.replacer.Tracks b'.replacer.flags).after hafter
  · exact (hleaves.after hafter).1

end PoolM

open PoolM

variable {b b' : BufferPoolManager δ}

omit [ThrowingDisk δ] in
theorem ArcReplacer.Tracks.setEvictable_flags {r : ArcReplacer} (h : r.Tracks r.flags)
    (f : FrameId) (evictable : Bool) :
    (r.setEvictable f evictable).Tracks (r.setEvictable f evictable).flags := by
  cases hf : r.aliveMap f with
  | none =>
      rw [ArcReplacer.setEvictable, hf]
      exact h
  | some status =>
      have hset := h.setEvictable (f := f) (by simp [ArcReplacer.flags, hf]) evictable
      exact hset.eq_flags ▸ hset

omit [ThrowingDisk δ] in
theorem unpinPage_tracks (h : b.replacer.Tracks b.replacer.flags) (file : FileId) (page : PageId)
    (isDirty : Bool) : (b.unpinPage file page isDirty).2.replacer.Tracks
      (b.unpinPage file page isDirty).2.replacer.flags := by
  unfold BufferPoolManager.unpinPage
  cases b.pageTable ⟨file, page⟩ with
  | none => exact h
  | some f =>
      by_cases hpin : (b.pages f).pinCount ≤ 0
      · simp only [hpin, if_true]
        exact h
      · simp only [hpin, if_false]
        split
        · exact h.setEvictable_flags f true
        · exact h

omit [ThrowingDisk δ] in
theorem deletePage_tracks (h : b.replacer.Tracks b.replacer.flags) {file : FileId} {page : PageId}
    {r : Bool} (hr : b.deletePage file page = .ok (r, b')) :
    b'.replacer.Tracks b'.replacer.flags := by
  unfold BufferPoolManager.deletePage at hr
  cases hf : b.pageTable ⟨file, page⟩ with
  | none =>
      rw [hf] at hr
      cases hr
      exact h
  | some f =>
      rw [hf] at hr
      dsimp only at hr
      by_cases hpin : (b.pages f).pinCount > 0
      · rw [if_pos hpin] at hr
        cases hr
        exact h
      · rw [if_neg hpin] at hr
        obtain ⟨replacer, hremove, hrest⟩ := bind_eq_ok.mp hr
        cases hrest
        show replacer.Tracks replacer.flags
        cases hflag : b.replacer.flags f with
        | none =>
            cases halive : b.replacer.aliveMap f with
            | none =>
                rw [ArcReplacer.remove, halive] at hremove
                cases hremove
                exact h
            | some status => simp [ArcReplacer.flags, halive] at hflag
        | some evictable =>
            cases evictable with
            | true =>
                obtain ⟨r', hr', htracks⟩ := h.remove hflag
                cases hremove.symm.trans hr'
                exact htracks.eq_flags ▸ htracks
            | false =>
                cases halive : b.replacer.aliveMap f with
                | none => simp [ArcReplacer.flags, halive] at hflag
                | some status =>
                    have hev : status.evictable = false := by
                      simpa [ArcReplacer.flags, halive] using hflag
                    rw [ArcReplacer.remove, halive] at hremove
                    simp only [hev, Bool.false_eq_true, if_false] at hremove
                    cases hremove

theorem Call.run_deletePage (file : FileId) (page : PageId) (b : BufferPoolManager δ) :
    (Call.deletePage file page).run b = match b.deletePage file page with
      | .ok (_, b₁) => .ok () b₁
      | .error fault => .error fault b :=
  rfl

/-- Each call of a client keeps what the replacer knows consistent. -/
theorem Call.tracks (c : Call) (h : b.replacer.Tracks b.replacer.flags)
    (hafter : After c.run b b') : b'.replacer.Tracks b'.replacer.flags := by
  have hsame : SameFrames b b' → b'.replacer.Tracks b'.replacer.flags := fun hs => hs.2 ▸ h
  cases c with
  | readPage file page => exact fetchPage_tracks h hafter.discard
  | writePage file page => exact fetchPage_tracks h hafter.discard
  | newPage file => exact newPage_tracks h hafter.discard
  | unpinPage file page isDirty =>
      rcases hafter with ⟨_, ha⟩ | ⟨_, ha⟩
      · cases ha
        exact unpinPage_tracks h file page isDirty
      · cases ha
  | flushPage file page => exact hsame ((flushPage_leaves file page b).after hafter.discard)
  | flushAllPages => exact hsame ((flushFrames_leaves _ b).after hafter)
  | deletePage file page =>
      rw [After, run_deletePage] at hafter
      cases hdelete : b.deletePage file page with
      | ok r =>
          rw [hdelete] at hafter
          rcases hafter with ⟨_, ha⟩ | ⟨_, ha⟩
          · cases ha
            exact deletePage_tracks h hdelete
          · cases ha
      | error fault =>
          rw [hdelete] at hafter
          rcases hafter with ⟨_, ha⟩ | ⟨_, ha⟩
          · cases ha
          · cases ha
            exact h

theorem Lived.tracks {poolSize : Nat} {d : δ} (h : Lived poolSize d b) :
    b.replacer.Tracks b.replacer.flags := by
  induction h with
  | create => exact ArcReplacer.Tracks.create poolSize
  | call _ c hc ih => exact c.tracks ih (.inl ⟨(), hc⟩)
  | thrown _ c hc ih => exact c.tracks ih (.inr ⟨_, hc⟩)
  | setData _ _ _ ih => exact ih
  | disk _ _ ih => exact ih

theorem Lived.discard {poolSize : Nat} {d : δ} (h : Lived poolSize d b) {α : Type} {a : α} (c : Call)
    {x : PoolM δ α} (hrun : c.run = Functor.discard x) (hx : result x b = .ok (a, b')) :
    Lived poolSize d b' := by
  refine .call h c ?_
  rw [hrun, discard_apply, ok_of_result hx]

/-- Calls of which none throws lead to such states too. -/
theorem BufferPoolManager.Reachable.lived {poolSize : Nat} {d : δ} {n : Nat} {handed : List PageKey}
    (h : Reachable poolSize d n handed b) : Lived poolSize d b := by
  induction h with
  | create => exact .create
  | newPage _ _ hr ih => exact ih.discard (.newPage _) rfl ((result_newPage _).trans hr)
  | readPage _ _ hr ih => exact ih.discard (.readPage _ _) rfl ((result_fetchPage _ _).trans hr)
  | writePage _ _ hr ih => exact ih.discard (.writePage _ _) rfl ((result_fetchPage _ _).trans hr)
  | unpinPage file page dirty _ ih => exact .call ih (.unpinPage file page dirty) rfl
  | flushPage _ hr ih => exact ih.discard (.flushPage _ _) rfl ((result_flushPage _ _).trans hr)
  | flushAllPages _ hr ih =>
      refine .call ih .flushAllPages (ok_of_result (result_flushAllPages.trans ?_))
      rw [hr]
      rfl
  | @deletePage _ _ b _ _ file page _ hr ih =>
      refine .call ih (.deletePage file page) ?_
      rw [Call.run_deletePage, hr]
  | setData fid data _ ih => exact .setData ih fid data

/-! ## A request that throws -/

theorem Call.capacity_lt (h : b.replacer.Tracks b.replacer.flags) {c : Call} (hc : c.IsRequest)
    {message : String} (hthrow : c.run b = .error (.raised message) b') :
    b'.capacity < b.capacity := by
  have hfetch : ∀ file page, PoolM.fetchPage file page b = .error (.raised message) b' →
      b'.capacity < b.capacity := by
    intro file page hx
    cases hf : b.pageTable ⟨file, page⟩ with
    | some f =>
        rcases fetchPage_hit h hf with hover | ⟨_, hok, _⟩
        · cases hover.symm.trans hx
        · cases hok.symm.trans hx
    | none =>
        rcases fetchPage_miss h hf with ⟨hnone, -⟩ | hleaves
        · cases hnone.symm.trans hx
        · exact (hleaves.after (.inr ⟨message, hx⟩)).2
  cases c with
  | readPage file page => exact hfetch file page (discard_eq_error.mp hthrow)
  | writePage file page => exact hfetch file page (discard_eq_error.mp hthrow)
  | newPage file =>
      have hx := discard_eq_error.mp hthrow
      rcases newPage_cases h file with ⟨hnone, -⟩ | hleaves
      · cases hnone.symm.trans hx
      · exact (hleaves.after (.inr ⟨message, hx⟩)).2
  | unpinPage file page isDirty => exact absurd hc id
  | flushPage file page => exact absurd hc id
  | flushAllPages => exact absurd hc id
  | deletePage file page => exact absurd hc id

/-- No request that throws leaves the pool undamaged, in whatever state it comes. -/
theorem request_damages (poolSize : Nat) (d : δ) (h : Lived poolSize d b) (c : Call)
    (hc : c.IsRequest) (message : String) (hthrow : c.run b = .error (.raised message) b') :
    ¬ b.Undamaged b' := by
  intro hundamaged
  have hlt := Call.capacity_lt h.tracks hc hthrow
  rw [hundamaged.capacity] at hlt
  exact Nat.lt_irrefl _ hlt

/-- A disk manager with one file. -/
def oneFile : Disk.DiskManager := ((Disk.DiskManager.init fun _ => File.empty).createFile "table").2

/-- The page in the only frame was evicted for a page of a file that is not there. -/
theorem newPage_damages : ∃ b b', Lived 1 oneFile b ∧ b.pageTable ⟨0, 0⟩ = some 0 ∧
    (Call.newPage 7).run b = .error (.raised "Invalid file id in write_page") b' ∧
    ¬ b.Undamaged b' := by
  have hmade := @BufferPoolManager.Reachable.newPage _ _ 1 oneFile _ _ _ _ (some (0, 0)) 0 .create
    (by decide) rfl
  have hlived := (hmade.unpinPage 0 0 true).lived
  exact ⟨_, _, hlived, rfl, rfl, request_damages 1 oneFile hlived (.newPage 7) trivial _ rfl⟩

/-- A pool of one frame serves nothing any more after one request for a file that is not there. -/
theorem readPage_exhausts :
    ∃ b', (Call.readPage 7 0).run (.create 1 oneFile) =
        .error (.raised "Invalid file id in read_page") b' ∧
      (∃ b'', PoolM.newPage 0 (.create 1 oneFile) = .ok (some (0, 0)) b'') ∧
      PoolM.newPage 0 b' = .ok none b' ∧ ¬ (BufferPoolManager.create 1 oneFile).Undamaged b' := by
  refine ⟨_, rfl, ⟨_, rfl⟩, rfl, fun hundamaged => ?_⟩
  exact absurd hundamaged.capacity (by decide)

end TurtleDb.Buffer
