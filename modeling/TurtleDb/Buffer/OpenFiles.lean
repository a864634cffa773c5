import TurtleDb.Buffer.Disks

/-!
# The disk manager keeps pages

A file that has a path of its own and whose stream is good keeps the pages it holds. Only a read
behind its end fails a stream.
-/

namespace TurtleDb.Buffer

open TurtleDb.Lib TurtleDb.Disk

/-- The paths of the open files, and whether their streams are good. -/
def streams (d : DiskManager) (fileId : FileId) : Option (String × Bool) :=
  (d.files fileId).map fun file => (file.path, file.stream.good)

def OpenedAt (d : DiskManager) (fileId : FileId) (path : String) : Prop :=
  streams d fileId = some (path, true) ∧ ∀ g good, streams d g = some (path, good) → g = fileId

def pageOf (f : File) (page : PageId) : PageData := fun i => f.get (page * pageSize + i)

theorem byte_pageOf (f : File) (page : PageId) {i : Nat} (hi : i < pageSize) :
    (pageOf f page).byte i = f.get (page * pageSize + i) := dif_pos hi

open Classical in
/-- The pages that lie within their file. -/
noncomputable def fileContent (d : DiskManager) (k : PageKey) : Option PageData :=
  if h : ∃ path, OpenedAt d k.fileId path ∧ pageSize * (k.pageId + 1) ≤ (d.fileSystem path).size then
    some (pageOf (d.fileSystem h.choose) k.pageId)
  else none

variable {d d' : DiskManager} {k : PageKey} {fileId : FileId} {path : String} {file : OpenFile}
  {data : PageData}

theorem OpenedAt.path_eq {path' : String} (h : OpenedAt d fileId path)
    (h' : OpenedAt d fileId path') : path' = path :=
  congrArg Prod.fst (Option.some.inj (h'.1.symm.trans h.1))

theorem fileContent_eq_some : fileContent d k = some data ↔
    ∃ path, OpenedAt d k.fileId path ∧ pageSize * (k.pageId + 1) ≤ (d.fileSystem path).size ∧
      data = pageOf (d.fileSystem path) k.pageId := by
  unfold fileContent
  split
  · rename_i h
    obtain ⟨hopen, hsize⟩ := h.choose_spec
    refine ⟨fun heq => ⟨_, hopen, hsize, (Option.some.inj heq).symm⟩, ?_⟩
    rintro ⟨path, hopen', _, rfl⟩
    rw [hopen.path_eq hopen']
  · rename_i h
    refine ⟨fun heq => (nomatch heq), ?_⟩
    rintro ⟨path, hopen, hsize, _⟩
    exact absurd ⟨path, hopen, hsize⟩ h

theorem openedAt_congr (hs : streams d' = streams d) : OpenedAt d' = OpenedAt d := by
  unfold OpenedAt
  rw [hs]

theorem fileContent_congr (hs : streams d' = streams d) (hf : d'.fileSystem = d.fileSystem) :
    fileContent d' = fileContent d := by
  unfold fileContent
  rw [openedAt_congr hs, hf]

/-- The stream that leads to an open file. -/
theorem OpenedAt.stream (h : OpenedAt d fileId path) :
    ∃ file, d.files fileId = some file ∧ file.path = path ∧ file.stream.failbit = false ∧
      file.stream.eofbit = false := by
  obtain ⟨file, hfile, heq⟩ := Option.map_eq_some_iff.mp h.1
  obtain ⟨hpath, hgood⟩ := Prod.mk.inj heq
  rw [Fstream.good, Bool.and_eq_true, Bool.not_eq_true', Bool.not_eq_true'] at hgood
  exact ⟨file, hfile, hpath, hgood.2, hgood.1⟩

theorem streams_setStream (hfile : d.files fileId = some file) (hgood : file.stream.good = true)
    {s : Fstream} (hs : s.good = true) : streams (d.setStream fileId file s) = streams d := by
  funext g
  unfold streams DiskManager.setStream
  dsimp only
  by_cases hg : g = fileId
  · rw [hg, Function.update_self, hfile, Option.map_some, Option.map_some, hs, hgood]
  · rw [Function.update_of_ne hg]

/-- Reading within the file reads what it holds, and the stream stays good. -/
theorem OpenedAt.readPage (h : OpenedAt d fileId path) {page : PageId}
    (hsize : pageSize * (page + 1) ≤ (d.fileSystem path).size) :
    ∃ d', d.readPage fileId page = .ok (pageOf (d.fileSystem path) page, d') ∧
      d'.fileSystem = d.fileSystem ∧ streams d' = streams d := by
  obtain ⟨file, hfile, rfl, hfail, heof⟩ := h.stream
  have hgood : file.stream.good = true := by rw [Fstream.good, hfail, heof]; rfl
  have hseek := Fstream.seekg_of_ok hfail (page * pageSize)
  have hdata : Block.zero.put 0 ((({ pos := page * pageSize, eofbit := false, failbit := false } :
      Fstream).read (d.fileSystem file.path) pageSize).1) =
        pageOf (d.fileSystem file.path) page := by
    apply Block.ext_byte
    intro i hi
    rw [Fstream.byte_put_read _ _ _ hi, byte_pageOf _ _ hi]
  have hfull : decide (min pageSize ((d.fileSystem file.path).size - page * pageSize) < pageSize) =
      false := by
    have hpage : pageSize = 4096 := rfl
    rw [hpage] at hsize ⊢
    rw [decide_eq_false_iff_not]
    omega
  have hread : d.readPage fileId page = .ok (pageOf (d.fileSystem file.path) page,
      d.setStream fileId file (({ pos := page * pageSize, eofbit := false, failbit := false } :
        Fstream).read (d.fileSystem file.path) pageSize).2) := by
    simp only [DiskManager.readPage, hfile, hseek, Fstream.good_at, Bool.not_true,
      Bool.false_eq_true, if_false, hdata]
  refine ⟨_, hread, rfl, streams_setStream hfile hgood ?_⟩
  simp only [Fstream.read, Fstream.good_at, if_true, hfull]

/-- Writing goes through, and changes nothing but the page. -/
theorem OpenedAt.writePage (h : OpenedAt d fileId path) (page : PageId) (data : PageData) :
    ∃ d', d.writePage fileId page data = .ok d' ∧
      d'.fileSystem = Function.update d.fileSystem path
        ((d.fileSystem path).write (page * pageSize) data) ∧ streams d' = streams d := by
  obtain ⟨file, hfile, rfl, hfail, heof⟩ := h.stream
  have hgood : file.stream.good = true := by rw [Fstream.good, hfail, heof]; rfl
  have hseek := Fstream.seekp_of_ok heof hfail (page * pageSize)
  refine ⟨_, by
    simp only [DiskManager.writePage, DiskManager.overwrite, hfile, hseek,
      Fstream.write_of_good (Fstream.good_at _), Fstream.fail, Bool.false_eq_true, if_false]
    rfl, rfl, ?_⟩
  exact streams_setStream (d := d.setFile file.path _) hfile hgood rfl

theorem pageOf_write_self (f : File) (page : PageId) (data : PageData) :
    pageOf (f.write (page * pageSize) data) page = data := by
  apply Block.ext_byte
  intro i hi
  rw [byte_pageOf _ _ hi, File.get_write, if_pos ⟨by omega, by omega⟩, Nat.add_sub_cancel_left]

theorem pageOf_write_of_ne (f : File) {page page' : PageId} (hne : page' ≠ page)
    (data : PageData) : pageOf (f.write (page * pageSize) data) page' = pageOf f page' := by
  apply Block.ext_byte
  intro i hi
  rw [byte_pageOf _ _ hi, byte_pageOf _ _ hi, File.get_write, if_neg]
  have hpage : pageSize = 4096 := rfl
  rw [hpage] at hi ⊢
  rcases Nat.lt_or_gt_of_ne hne with hlt | hlt <;> omega

noncomputable instance : LawfulPageDisk DiskManager where
  content := fileContent
  opened d fileId := ∃ path, OpenedAt d fileId path
  read h := by
    obtain ⟨path, hopen, hsize, rfl⟩ := fileContent_eq_some.mp h
    obtain ⟨d', hread, hfiles, hstreams⟩ := hopen.readPage hsize
    refine ⟨d', hread, fileContent_congr hstreams hfiles, ?_⟩
    rw [openedAt_congr hstreams]
  write := by
    rintro d k data ⟨path, hopen⟩
    obtain ⟨d', hwrite, hfiles, hstreams⟩ := hopen.writePage k.pageId data
    have hopened := openedAt_congr hstreams
    refine ⟨d', hwrite, fileContent_eq_some.mpr ⟨path, ?_, ?_, ?_⟩, fun k' bytes hne hk' => ?_, ?_⟩
    · rw [hopened]
      exact hopen
    · rw [hfiles, Function.update_self, File.write, Nat.mul_succ, Nat.mul_comm]
      exact Nat.le_max_right _ _
    · rw [hfiles, Function.update_self, pageOf_write_self]
    · obtain ⟨path', hopen', hsize, rfl⟩ := fileContent_eq_some.mp hk'
      rw [fileContent_eq_some, hopened, hfiles]
      refine ⟨path', hopen', ?_⟩
      by_cases hpath : path' = path
      · subst hpath
        have hfile : k'.fileId = k.fileId := hopen.2 _ _ hopen'.1
        have hpage : k'.pageId ≠ k.pageId := fun hpage => hne (by cases k; cases k'; simp_all)
        rw [Function.update_self, pageOf_write_of_ne _ hpage]
        exact ⟨Nat.le_trans hsize (Nat.le_max_left _ _), rfl⟩
      · rw [Function.update_of_ne hpath]
        exact ⟨hsize, rfl⟩
    · rw [hopened]

/-- A new file has a path of its own. -/
theorem streams_createFile (d : DiskManager) (path : String) :
    streams (d.createFile path).2 =
      Function.update (streams d) d.nextFileId (some (path, true)) := by
  funext g
  unfold streams DiskManager.createFile
  dsimp only
  by_cases hg : g = d.nextFileId
  · rw [hg, Function.update_self, Function.update_self]
    rfl
  · rw [Function.update_of_ne hg, Function.update_of_ne hg]

theorem openedAt_createFile (hid : streams d d.nextFileId = none)
    (hpath : ∀ g good, streams d g ≠ some (path, good)) :
    OpenedAt (d.createFile path).2 d.nextFileId path ∧
      ∀ g path', OpenedAt d g path' → OpenedAt (d.createFile path).2 g path' := by
  unfold OpenedAt
  rw [streams_createFile]
  refine ⟨⟨Function.update_self _ _ _, fun g good hg => ?_⟩, fun g path' ⟨hg, halone⟩ => ?_⟩
  · by_contra hne
    rw [Function.update_of_ne hne] at hg
    exact hpath g good hg
  · have hne : g ≠ d.nextFileId := fun heq => by rw [heq, hid] at hg; cases hg
    refine ⟨by rw [Function.update_of_ne hne, hg], fun g' good hg' => ?_⟩
    by_cases hnew : g' = d.nextFileId
    · rw [hnew, Function.update_self] at hg'
      cases hg'
      exact absurd hg (hpath g true)
    · rw [Function.update_of_ne hnew] at hg'
      exact halone g' good hg'

theorem fileContent_createFile (hid : streams d d.nextFileId = none)
    (hpath : ∀ g good, streams d g ≠ some (path, good)) (h : ∃ path', OpenedAt d k.fileId path') :
    fileContent (d.createFile path).2 k = fileContent d k := by
  obtain ⟨path', hopen⟩ := h
  have hopen' := (openedAt_createFile hid hpath).2 _ _ hopen
  apply Option.ext
  intro data
  rw [fileContent_eq_some, fileContent_eq_some]
  constructor
  · rintro ⟨path'', h'', hsize, rfl⟩
    rw [hopen'.path_eq h''] at hsize ⊢
    exact ⟨path', hopen, hsize, rfl⟩
  · rintro ⟨path'', h'', hsize, rfl⟩
    rw [hopen.path_eq h''] at hsize ⊢
    exact ⟨path', hopen', hsize, rfl⟩

end TurtleDb.Buffer
