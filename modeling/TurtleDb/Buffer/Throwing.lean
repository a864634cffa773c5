import TurtleDb.Buffer.Disks

/-!
# The pool with exceptions

The calls of `buffer/buffer_pool_manager.cpp` that use the disk, with the state in which an
exception leaves the pool. Without an exception they are the calls of `BufferPoolManager`.
-/

namespace TurtleDb.Buffer

open TurtleDb.Lib

/-- A disk that says how it is after a call that threw. -/
class ThrowingDisk (δ : Type) extends PageDisk δ where
  readThrown : δ → FileId → PageId → δ
  writeThrown : δ → FileId → PageId → PageData → δ

/-- An id that is not registered changes nothing, and a failed write leaves its stream failed. -/
instance : ThrowingDisk Disk.DiskManager where
  toPageDisk := inferInstance
  readThrown d _ _ := d
  writeThrown d file page data :=
    match d.files file with
    | none => d
    | some opened =>
        let s := opened.stream.seekp (page * pageSize)
        let (f, s) := s.write (d.fileSystem opened.path) data
        (d.setFile opened.path f).setStream file opened s

/-- A call on the pool. What it has done when it throws stays done. -/
abbrev PoolM (δ : Type) := EStateM Fault (BufferPoolManager δ)

namespace PoolM

variable {δ : Type} [ThrowingDisk δ]

def diskRead (file : FileId) (page : PageId) : PoolM δ PageData := fun b =>
  match PageDisk.readPage b.diskManager file page with
  | .ok (data, d) => .ok data { b with diskManager := d }
  | .error fault =>
      .error fault { b with diskManager := ThrowingDisk.readThrown b.diskManager file page }

def diskWrite (file : FileId) (page : PageId) (data : PageData) : PoolM δ Unit := fun b =>
  match PageDisk.writePage b.diskManager file page data with
  | .ok d => .ok () { b with diskManager := d }
  | .error fault =>
      .error fault { b with diskManager := ThrowingDisk.writeThrown b.diskManager file page data }

def vacate (fid : FrameId) : PoolM δ Unit := do
  let b ← get
  let frame := b.pages fid
  if frame.pageId = invalidPageId then return ()
  if frame.isDirty then diskWrite frame.fileId frame.pageId (b.data fid)
  modify fun b => { b with pageTable := Function.update b.pageTable frame.key none }

def findFrame : PoolM δ (Option FrameId) := do
  let b ← get
  match b.freeFrames with
  | fid :: rest =>
      set { b with freeFrames := rest }
      vacate fid
      return some fid
  | [] =>
      match b.replacer.evict with
      | none => return none
      | some (fid, replacer) =>
          set { b with replacer }
          vacate fid
          return some fid

def fetchPage (file : FileId) (page : PageId) : PoolM δ (Option FrameId) := do
  let b ← get
  match b.pageTable ⟨file, page⟩ with
  | some fid =>
      if (b.pages fid).pinCount = intMax then throw .overflow
      set ((b.setPage fid
        { b.pages fid with pinCount := (b.pages fid).pinCount + 1 }).recordPin fid page)
      return some fid
  | none =>
      match ← findFrame with
      | none => return none
      | some fid =>
          let data ← diskRead file page
          modify fun b => (b.setData fid data).install fid ⟨file, page⟩
          return some fid

def newPage (file : FileId) : PoolM δ (Option (FrameId × PageId)) := do
  match ← findFrame with
  | none => return none
  | some fid =>
      let pageId := (← get).nextPageId
      modify fun b => (({ b with nextPageId := add32 b.nextPageId 1 }).setData fid
        Block.zero).install fid ⟨file, pageId⟩
      diskWrite file pageId ((← get).data fid)
      return some (fid, pageId)

def writeBack (fid : FrameId) : PoolM δ Unit := do
  let b ← get
  let page := b.pages fid
  diskWrite page.fileId page.pageId (b.data fid)
  modify fun b => b.setPage fid { page with isDirty := false }

def flushPage (file : FileId) (page : PageId) : PoolM δ Bool := do
  match (← get).pageTable ⟨file, page⟩ with
  | none => return false
  | some fid =>
      writeBack fid
      return true

def flushFrame (fid : FrameId) : PoolM δ Unit := do
  let page := (← get).pages fid
  if page.pageId ≠ invalidPageId ∧ page.isDirty then writeBack fid

def flushAllPages : PoolM δ Unit := do
  (List.range (← get).frameCount).forM flushFrame

/-! ## The same calls, without the state after an exception -/

/-- What a call gives when an exception loses the state. -/
def result {α : Type} (x : PoolM δ α) (b : BufferPoolManager δ) :
    Except Fault (α × BufferPoolManager δ) :=
  match x b with
  | .ok a b' => .ok (a, b')
  | .error fault _ => .error fault

section Result

variable {α β : Type} {b : BufferPoolManager δ}

omit [ThrowingDisk δ]

@[simp] theorem result_pure (a : α) : result (pure a : PoolM δ α) b = .ok (a, b) := rfl

@[simp] theorem result_get : result (get : PoolM δ _) b = .ok (b, b) := rfl

@[simp] theorem result_set (b' : BufferPoolManager δ) :
    result (set b' : PoolM δ PUnit) b = .ok (⟨⟩, b') := rfl

@[simp] theorem result_modify (f : BufferPoolManager δ → BufferPoolManager δ) :
    result (modify f : PoolM δ PUnit) b = .ok (⟨⟩, f b) := rfl

@[simp] theorem result_throw (fault : Fault) :
    result (throw fault : PoolM δ α) b = .error fault := rfl

@[simp] theorem result_bind (x : PoolM δ α) (k : α → PoolM δ β) :
    result (x >>= k) b = result x b >>= fun r => result (k r.1) r.2 := by
  show (match EStateM.bind x k b with
    | .ok a b' => Except.ok (a, b')
    | .error fault _ => .error fault) = _
  rw [EStateM.bind, result]
  cases x b with
  | ok a b' => rfl
  | error fault b' => rfl

theorem ok_of_result {x : PoolM δ α} {a : α} {b' : BufferPoolManager δ}
    (h : result x b = .ok (a, b')) : x b = .ok a b' := by
  rw [result] at h
  cases hx : x b with
  | ok a₁ b₁ =>
      rw [hx] at h
      cases h
      rfl
  | error fault b₁ =>
      rw [hx] at h
      cases h

end Result

variable {b : BufferPoolManager δ}

@[simp] theorem result_diskWrite (file : FileId) (page : PageId) (data : PageData) :
    result (diskWrite file page data) b =
      PageDisk.writePage b.diskManager file page data >>= fun d =>
        .ok ((), { b with diskManager := d }) := by
  unfold result diskWrite
  cases PageDisk.writePage b.diskManager file page data with
  | error fault => rfl
  | ok d => rfl

@[simp] theorem result_diskRead (file : FileId) (page : PageId) :
    result (diskRead file page) b =
      PageDisk.readPage b.diskManager file page >>= fun r =>
        .ok (r.1, { b with diskManager := r.2 }) := by
  unfold result diskRead
  cases PageDisk.readPage b.diskManager file page with
  | error fault => rfl
  | ok r => rfl

@[simp] theorem result_vacate (fid : FrameId) :
    result (vacate fid) b = b.vacate fid >>= fun b' => .ok ((), b') := by
  unfold vacate BufferPoolManager.vacate
  by_cases hinv : (b.pages fid).pageId = invalidPageId
  · simp [hinv]
  · cases hdirty : (b.pages fid).isDirty with
    | false => simp [hinv, hdirty]
    | true =>
        simp only [result_bind, result_get, ok_bind, hinv, hdirty, if_true, if_false, result_diskWrite]
        cases PageDisk.writePage b.diskManager (b.pages fid).fileId (b.pages fid).pageId
            (b.data fid) with
        | error fault => rfl
        | ok d => rfl

/-- Where `findFrame` finds no frame it answers with none, and the pool is as before. -/
@[simp] theorem result_findFrame :
    result findFrame b = b.findFrame >>= fun
      | none => .ok (none, b)
      | some (fid, b') => .ok (some fid, b') := by
  unfold findFrame BufferPoolManager.findFrame
  simp only [result_bind, result_get, ok_bind]
  cases b.freeFrames with
  | cons fid rest =>
      simp only [result_bind, result_set, result_vacate, ok_bind, result_pure]
      cases BufferPoolManager.vacate { b with freeFrames := rest } fid with
      | error fault => rfl
      | ok b' => rfl
  | nil =>
      cases b.replacer.evict with
      | none => rfl
      | some victim =>
          obtain ⟨fid, replacer⟩ := victim
          simp only [result_bind, result_set, result_vacate, ok_bind, result_pure]
          cases BufferPoolManager.vacate { b with freeFrames := [], replacer } fid with
          | error fault => rfl
          | ok b' => rfl

theorem result_fetchPage (file : FileId) (page : PageId) :
    result (fetchPage file page) b = b.fetchPage file page := by
  unfold fetchPage BufferPoolManager.fetchPage
  simp only [result_bind, result_get, ok_bind]
  cases b.pageTable ⟨file, page⟩ with
  | some fid =>
      by_cases hmax : (b.pages fid).pinCount = intMax
      · simp [hmax]
      · simp only [hmax, if_false]
        rfl
  | none =>
      simp only [result_bind, result_findFrame]
      cases b.findFrame with
      | error fault => rfl
      | ok found =>
          cases found with
          | none => rfl
          | some found =>
              simp only [ok_bind, result_bind, result_diskRead, result_modify, result_pure]
              cases PageDisk.readPage found.2.diskManager file page with
              | error fault => rfl
              | ok r => rfl

theorem result_newPage (file : FileId) : result (newPage file) b = b.newPage file := by
  unfold newPage BufferPoolManager.newPage
  simp only [result_bind, result_findFrame]
  cases b.findFrame with
  | error fault => rfl
  | ok found =>
      cases found with
      | none => rfl
      | some found =>
          simp only [ok_bind, result_bind, result_get, result_diskWrite, result_modify, result_pure]
          rw [bind_assoc]
          rfl

theorem result_writeBack (fid : FrameId) :
    result (writeBack fid) b = b.writeBack fid >>= fun b' => .ok ((), b') := by
  unfold writeBack BufferPoolManager.writeBack
  simp only [result_bind, result_get, ok_bind, result_diskWrite, result_modify]
  cases PageDisk.writePage b.diskManager (b.pages fid).fileId (b.pages fid).pageId
      (b.data fid) with
  | error fault => rfl
  | ok d => rfl

theorem result_flushPage (file : FileId) (page : PageId) :
    result (flushPage file page) b = b.flushPage file page := by
  unfold flushPage BufferPoolManager.flushPage
  simp only [result_bind, result_get, ok_bind]
  cases b.pageTable ⟨file, page⟩ with
  | none => rfl
  | some fid =>
      simp only [result_bind, result_writeBack, result_pure]
      cases b.writeBack fid with
      | error fault => rfl
      | ok b' => rfl

theorem result_flushFrame (fid : FrameId) :
    result (flushFrame fid) b = b.flushFrame fid >>= fun b' => .ok ((), b') := by
  unfold flushFrame BufferPoolManager.flushFrame
  simp only [result_bind, result_get, ok_bind]
  split
  · exact result_writeBack fid
  · rfl

theorem result_flushAllPages :
    result flushAllPages b = b.flushAllPages >>= fun b' => .ok ((), b') := by
  unfold flushAllPages BufferPoolManager.flushAllPages
  simp only [result_bind, result_get, ok_bind]
  generalize List.range b.frameCount = frames
  induction frames generalizing b with
  | nil => rfl
  | cons fid frames ih =>
      rw [show (fid :: frames).forM flushFrame =
        (flushFrame fid >>= fun _ => frames.forM flushFrame : PoolM δ PUnit) from rfl]
      simp only [List.foldlM_cons, result_bind, result_flushFrame]
      cases b.flushFrame fid with
      | error fault => rfl
      | ok b' => exact ih

end PoolM

end TurtleDb.Buffer
