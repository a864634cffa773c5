import Mathlib.Data.List.Nodup
import TurtleDb.Disk.DiskManager
import TurtleDb.Lib.Run

/-!
# The disk manager and the page map

What the disk manager is for is a map from pages to their bytes. A read behind the end of a file
leaves the stream of the file failed, and the next call on the file finds it so: `Orderly` lists the
sequences of calls that do not suffer from it, and they are exactly those answered like the map.
-/

namespace TurtleDb.Disk

open TurtleDb.Lib

inductive DiskCall where
  | read (key : PageKey)
  | write (key : PageKey) (pageData : PageData)
  | delete (key : PageKey)

inductive DiskReply where
  | data (pageData : PageData)
  | done

namespace DiskCall

def key : DiskCall → PageKey
  | .read key => key
  | .write key _ => key
  | .delete key => key

/-- A call that writes. -/
def Writes : DiskCall → Prop
  | .read _ => False
  | _ => True

end DiskCall

namespace DiskManager

def step (d : DiskManager) : DiskCall → Except Fault (DiskReply × DiskManager)
  | .read key => do
      let (pageData, d) ← d.readPage key.fileId key.pageId
      return (.data pageData, d)
  | .write key pageData => do
      let d ← d.writePage key.fileId key.pageId pageData
      return (.done, d)
  | .delete key => do
      let d ← d.deletePage key.fileId key.pageId
      return (.done, d)

end DiskManager

/-! ## The page map -/

/-- The content of every page of every file. -/
abbrev PageMap := PageKey → PageData

namespace PageMap

def zero : PageMap := fun _ => Block.zero

def apply (m : PageMap) : DiskCall → PageMap
  | .read _ => m
  | .write key pageData => Function.update m key pageData
  | .delete key => Function.update m key Block.zero

def reply (m : PageMap) : DiskCall → DiskReply
  | .read key => .data (m key)
  | _ => .done

/-- The replies of the map to a sequence of calls. -/
def replies (m : PageMap) : List DiskCall → List DiskReply
  | [] => []
  | call :: calls => m.reply call :: (m.apply call).replies calls

end PageMap

/-! ## Short reads -/

/-- How many pages a file has, and whether its last call was a read behind them. -/
structure Extent where
  pages : Nat
  short : Bool

def Extent.apply (e : Extent) : DiskCall → Extent
  | .read key => { e with short := !e.short && decide (e.pages ≤ key.pageId) }
  | .write key _ => { e with pages := max e.pages (key.pageId + 1) }
  | .delete key => { e with pages := max e.pages (key.pageId + 1) }

abbrev Extents := FileId → Extent

def Extents.empty : Extents := fun _ => { pages := 0, short := false }

def Extents.apply (e : Extents) (call : DiskCall) : Extents :=
  Function.update e call.key.fileId ((e call.key.fileId).apply call)

/-- After a short read of a file, the next call on the file reads a page of zeros. -/
def Orderly (e : Extents) (m : PageMap) : List DiskCall → Prop
  | [] => True
  | call :: calls =>
      ((e call.key.fileId).short = true → ¬ call.Writes ∧ m call.key = Block.zero) ∧
        Orderly (e.apply call) (m.apply call) calls

/-! ## The simulation -/

/-- The file of `file` holds the pages of `m`, and its stream is failed after a short read only. -/
structure Tracks (fs : String → File) (file : OpenFile) (fileId : FileId) (e : Extent)
    (m : PageMap) : Prop where
  fail : file.stream.failbit = e.short
  eof : file.stream.eofbit = true → file.stream.failbit = true
  size : (fs file.path).size = e.pages * pageSize
  content : ∀ page i, i < pageSize →
    (fs file.path).get (page * pageSize + i) = (m ⟨fileId, page⟩).byte i

/-- The files of `ids` are open, every open file is as the map and the extents say, and no two
share a path. -/
structure Refines (ids : List FileId) (d : DiskManager) (e : Extents) (m : PageMap) : Prop where
  opened : ∀ fileId ∈ ids, ∃ file, d.files fileId = some file
  tracks : ∀ fileId file, d.files fileId = some file →
    Tracks d.fileSystem file fileId (e fileId) m
  paths : ∀ f g file file', d.files f = some file → d.files g = some file' →
    file.path = file'.path → f = g

theorem Tracks.eof_false {fs : String → File} {file : OpenFile} {fileId : FileId} {e : Extent}
    {m : PageMap} (h : Tracks fs file fileId e m) (hs : e.short = false) :
    file.stream.failbit = false ∧ file.stream.eofbit = false := by
  have hf : file.stream.failbit = false := h.fail.trans hs
  refine ⟨hf, ?_⟩
  by_contra he
  have := h.eof (by simpa using he)
  rw [hf] at this
  cases this

/-- Reading behind the end reads zeros. -/
theorem Tracks.zero {fs : String → File} {file : OpenFile} {fileId : FileId} {e : Extent}
    {m : PageMap} (h : Tracks fs file fileId e m) {page : PageId} (hp : e.pages ≤ page) :
    m ⟨fileId, page⟩ = Block.zero := by
  apply Block.ext_byte
  intro i hi
  have hle : e.pages * pageSize ≤ page * pageSize := Nat.mul_le_mul_right _ hp
  rw [← h.content page i hi, Block.byte_zero, File.get, if_neg]
  rw [h.size]
  omega

section
variable {ids : List FileId} {d : DiskManager} {e : Extents} {m : PageMap} {file : OpenFile}
  {fileId : FileId}

/-- Replacing a stream keeps the relation, when the new extent says what the new stream is. -/
theorem Refines.setStream (h : Refines ids d e m) (hf : d.files fileId = some file) {s : Fstream}
    {e' : Extent} (ht : Tracks d.fileSystem { file with stream := s } fileId e' m) :
    Refines ids (d.setStream fileId file s) (Function.update e fileId e') m := by
  constructor
  case opened =>
    intro g hg
    by_cases hgf : g = fileId
    · subst hgf
      exact ⟨_, Function.update_self ..⟩
    · obtain ⟨file', hg'⟩ := h.opened g hg
      exact ⟨file', by simp only [DiskManager.setStream, Function.update_of_ne hgf, hg']⟩
  case tracks =>
    intro g file' hg
    by_cases hgf : g = fileId
    · subst hgf
      simp only [DiskManager.setStream, Function.update_self, Option.some.injEq] at hg ⊢
      rw [← hg]
      exact ht
    · simp only [DiskManager.setStream, Function.update_of_ne hgf] at hg ⊢
      exact h.tracks g file' hg
  case paths =>
    have hold : ∀ g file', (d.setStream fileId file s).files g = some file' →
        ∃ old, d.files g = some old ∧ old.path = file'.path := by
      intro g file' hg
      by_cases hgf : g = fileId
      · subst hgf
        simp only [DiskManager.setStream, Function.update_self, Option.some.injEq] at hg
        exact ⟨file, hf, by rw [← hg]⟩
      · simp only [DiskManager.setStream, Function.update_of_ne hgf] at hg
        exact ⟨file', hg, rfl⟩
    intro f g file₁ file₂ h₁ h₂ hpath
    obtain ⟨old₁, ho₁, hp₁⟩ := hold f file₁ h₁
    obtain ⟨old₂, ho₂, hp₂⟩ := hold g file₂ h₂
    exact h.paths f g old₁ old₂ ho₁ ho₂ (by rw [hp₁, hp₂, hpath])

theorem readPage_short (h : Refines ids d e m) (hf : d.files fileId = some file) (page : PageId)
    (hs : (e fileId).short = true) :
    ∃ d', d.readPage fileId page = .ok (Block.zero, d') ∧
      Refines ids d' (e.apply (.read ⟨fileId, page⟩)) m := by
  have ht := h.tracks fileId file hf
  have hgood := Fstream.seekg_of_fail (ht.fail.trans hs) (page * pageSize)
  refine ⟨_, by simp only [DiskManager.readPage, hf, hgood, Bool.not_false, if_true]; rfl, ?_⟩
  apply h.setStream hf
  refine ⟨?_, ?_, ht.size, ht.content⟩
  · simp [Extent.apply, DiskCall.key, Fstream.clear, hs]
  · simp [Fstream.clear]

theorem readPage_ok (h : Refines ids d e m) (hf : d.files fileId = some file) (page : PageId)
    (hs : (e fileId).short = false) :
    ∃ d', d.readPage fileId page = .ok (m ⟨fileId, page⟩, d') ∧
      Refines ids d' (e.apply (.read ⟨fileId, page⟩)) m := by
  have ht := h.tracks fileId file hf
  have hseek := Fstream.seekg_of_ok (ht.eof_false hs).1 (page * pageSize)
  have hdata : Block.zero.put 0 ((({ pos := page * pageSize, eofbit := false, failbit := false } :
      Fstream).read (d.fileSystem file.path) pageSize).1) = m ⟨fileId, page⟩ := by
    apply Block.ext_byte
    intro i hi
    rw [Fstream.byte_put_read _ _ _ hi, ht.content page i hi]
  refine ⟨_, by
    simp only [DiskManager.readPage, hf, hseek, Fstream.good_at, Bool.not_true, Bool.false_eq_true,
      if_false, hdata]
    rfl, ?_⟩
  apply h.setStream hf
  have hshort : decide (min pageSize ((d.fileSystem file.path).size - page * pageSize) < pageSize) =
      decide ((e fileId).pages ≤ page) := by
    rw [ht.size, decide_eq_decide]
    have hpage : pageSize = 4096 := rfl
    rw [hpage]
    omega
  refine ⟨?_, ?_, ht.size, ht.content⟩
  · change decide _ = _
    rw [hshort]
    simp only [Extent.apply, DiskCall.key, hs, Bool.not_false, Bool.true_and]
    exact decide_eq_decide.mpr Iff.rfl
  · exact id

theorem overwrite_short (h : Refines ids d e m) (hf : d.files fileId = some file) (page : PageId)
    (pageData : PageData) (invalid failed : String) (hs : (e fileId).short = true) :
    d.overwrite fileId page pageData invalid failed = .error (.raised failed) := by
  have ht := h.tracks fileId file hf
  have hgood := Fstream.seekp_of_fail (ht.fail.trans hs) (page * pageSize)
  simp [DiskManager.overwrite, hf, Fstream.write, hgood, Fstream.fail]

theorem overwrite_ok (h : Refines ids d e m) (hf : d.files fileId = some file) (page : PageId)
    (pageData : PageData) (invalid failed : String) (hs : (e fileId).short = false) :
    ∃ d', d.overwrite fileId page pageData invalid failed = .ok d' ∧
      Refines ids d' (Function.update e fileId
          { (e fileId) with pages := max (e fileId).pages (page + 1) })
        (Function.update m ⟨fileId, page⟩ pageData) := by
  have ht := h.tracks fileId file hf
  obtain ⟨hfail, heof⟩ := ht.eof_false hs
  have hseek := Fstream.seekp_of_ok heof hfail (page * pageSize)
  have hpage : pageSize = 4096 := rfl
  refine ⟨_, by
    simp only [DiskManager.overwrite, hf, hseek, Fstream.write_of_good (Fstream.good_at _),
      Fstream.fail, Bool.false_eq_true, if_false]
    rfl, ?_⟩
  have hset : Refines ids (d.setStream fileId file ⟨page * pageSize + pageSize, false, false⟩)
      (Function.update e fileId (e fileId)) m :=
    h.setStream hf ⟨hs.symm, by simp, ht.size, ht.content⟩
  constructor
  case opened => exact hset.opened
  case paths => exact hset.paths
  case tracks =>
    intro g file' hg
    by_cases hgf : g = fileId
    · subst hgf
      simp only [DiskManager.setStream, DiskManager.setFile, Function.update_self,
        Option.some.injEq] at hg ⊢
      subst hg
      constructor
      case fail => exact hs.symm
      case eof => simp
      case size =>
        simp only [Function.update_self, File.write, ht.size, hpage]
        omega
      case content =>
        intro p i hi
        rw [Function.update_self, File.get_write]
        by_cases hp : p = page
        · subst hp
          rw [if_pos (by omega), Function.update_self, Nat.add_sub_cancel_left]
        · rw [Function.update_of_ne (by simp [hp]), ← ht.content p i hi, if_neg]
          rw [hpage] at hi ⊢
          omega
    · simp only [DiskManager.setStream, DiskManager.setFile, Function.update_of_ne hgf] at hg ⊢
      have hg' := h.tracks g file' hg
      have hpath : file'.path ≠ file.path := fun heq => hgf (h.paths g fileId file' file hg hf heq)
      constructor
      case fail => exact hg'.fail
      case eof => exact hg'.eof
      case size => rw [Function.update_of_ne hpath]; exact hg'.size
      case content =>
        intro p i hi
        rw [Function.update_of_ne hpath, Function.update_of_ne (by simp [hgf])]
        exact hg'.content p i hi

/-! ## One call -/

theorem step_ok (h : Refines ids d e m) {call : DiskCall} (hid : call.key.fileId ∈ ids)
    (hc : (e call.key.fileId).short = true → ¬ call.Writes ∧ m call.key = Block.zero) :
    ∃ d', d.step call = .ok (m.reply call, d') ∧ Refines ids d' (e.apply call) (m.apply call) := by
  obtain ⟨file, hf⟩ := h.opened _ hid
  cases call with
  | read key =>
      simp only [DiskCall.key] at hf hc
      by_cases hs : (e key.fileId).short = true
      · obtain ⟨d', hd, hr⟩ := readPage_short h hf key.pageId hs
        have hz : m key = Block.zero := (hc hs).2
        exact ⟨d', by simp only [DiskManager.step, hd, ok_bind, PageMap.reply, hz]; rfl, hr⟩
      · obtain ⟨d', hd, hr⟩ := readPage_ok h hf key.pageId (by simpa using hs)
        exact ⟨d', by simp only [DiskManager.step, hd, ok_bind, PageMap.reply]; rfl, hr⟩
  | write key pageData =>
      simp only [DiskCall.key] at hf hc
      have hs : (e key.fileId).short = false := by
        by_contra hs
        exact (hc (by simpa using hs)).1 trivial
      obtain ⟨d', hd, hr⟩ := overwrite_ok h hf key.pageId pageData
        "Invalid file id in write_page" "Disk write failed" hs
      exact ⟨d', by simp only [DiskManager.step, DiskManager.writePage, hd, ok_bind]; rfl, hr⟩
  | delete key =>
      simp only [DiskCall.key] at hf hc
      have hs : (e key.fileId).short = false := by
        by_contra hs
        exact (hc (by simpa using hs)).1 trivial
      obtain ⟨d', hd, hr⟩ := overwrite_ok h hf key.pageId Block.zero
        "Invalid file id in delete_page" "Disk delete (zero-fill) failed" hs
      exact ⟨d', by simp only [DiskManager.step, DiskManager.deletePage, hd, ok_bind]; rfl, hr⟩

/-- After a short read a write fails, and a read returns zeros whatever the page holds. -/
theorem step_wrong (h : Refines ids d e m) {call : DiskCall} (hid : call.key.fileId ∈ ids)
    (hs : (e call.key.fileId).short = true) (hc : call.Writes ∨ m call.key ≠ Block.zero)
    (d' : DiskManager) : d.step call ≠ .ok (m.reply call, d') := by
  obtain ⟨file, hf⟩ := h.opened _ hid
  cases call with
  | read key =>
      simp only [DiskCall.key] at hf hs hc
      obtain ⟨d₁, hd, _⟩ := readPage_short h hf key.pageId hs
      have hne : m key ≠ Block.zero := hc.resolve_left id
      simp only [DiskManager.step, hd, ok_bind, PageMap.reply]
      intro heq
      obtain ⟨hdata, _⟩ := Prod.mk.inj (Except.ok.inj heq)
      exact hne (DiskReply.data.inj hdata).symm
  | write key pageData =>
      simp only [DiskCall.key] at hf hs hc
      have hd := overwrite_short h hf key.pageId pageData "Invalid file id in write_page"
        "Disk write failed" hs
      simp only [DiskManager.step, DiskManager.writePage, hd, error_bind]
      exact fun heq => by cases heq
  | delete key =>
      simp only [DiskCall.key] at hf hs hc
      have hd := overwrite_short h hf key.pageId Block.zero "Invalid file id in delete_page"
        "Disk delete (zero-fill) failed" hs
      simp only [DiskManager.step, DiskManager.deletePage, hd, error_bind]
      exact fun heq => by cases heq

/-! ## Every sequence of calls -/

theorem run_iff_orderly (h : Refines ids d e m) {calls : List DiskCall}
    (hids : ∀ call ∈ calls, call.key.fileId ∈ ids) :
    (∃ d', run DiskManager.step d calls = .ok (m.replies calls, d')) ↔ Orderly e m calls := by
  induction calls generalizing d e m with
  | nil => exact ⟨fun _ => trivial, fun _ => ⟨d, rfl⟩⟩
  | cons call calls ih =>
      have hid := hids call (by simp)
      have hrest : ∀ c ∈ calls, c.key.fileId ∈ ids := fun c hc => hids c (by simp [hc])
      by_cases hc : (e call.key.fileId).short = true → ¬ call.Writes ∧ m call.key = Block.zero
      · obtain ⟨d₁, hd, hr⟩ := step_ok h hid hc
        rw [Orderly, ← ih hr hrest]
        constructor
        · rintro ⟨d', hrun⟩
          obtain ⟨o, s, os, ho, hos, heq⟩ := run_cons_eq_ok.mp hrun
          cases hd.symm.trans ho
          cases heq
          exact ⟨hc, d', hos⟩
        · rintro ⟨_, d', hrun⟩
          exact ⟨d', run_cons_eq_ok.mpr ⟨_, d₁, _, hd, hrun, rfl⟩⟩
      · rw [Orderly]
        refine iff_of_false ?_ fun hno => hc hno.1
        rintro ⟨d', hrun⟩
        obtain ⟨o, s, os, ho, _, heq⟩ := run_cons_eq_ok.mp hrun
        cases heq
        simp only [Classical.not_imp, not_and_or, not_not] at hc
        exact step_wrong h hid hc.1 hc.2 s ho

end

/-! ## New files -/

theorem createFile_refines {ids : List FileId} {d : DiskManager} {path : String}
    (h : Refines ids d Extents.empty PageMap.zero) (hnew : d.fileSystem path = File.empty)
    (hpath : ∀ f file, d.files f = some file → file.path ≠ path) :
    Refines (ids ++ [(d.createFile path).1]) (d.createFile path).2 Extents.empty PageMap.zero := by
  have hcases : ∀ f file, (d.createFile path).2.files f = some file →
      (f = d.nextFileId ∧ file = ⟨path, Fstream.opened⟩) ∨
        (f ≠ d.nextFileId ∧ d.files f = some file) := by
    intro f file hf
    by_cases hfn : f = d.nextFileId
    · subst hfn
      simp only [DiskManager.createFile, Function.update_self, Option.some.injEq] at hf
      exact .inl ⟨rfl, hf.symm⟩
    · simp only [DiskManager.createFile, Function.update_of_ne hfn] at hf
      exact .inr ⟨hfn, hf⟩
  constructor
  case opened =>
    intro f hf
    by_cases hfn : f = d.nextFileId
    · exact ⟨_, by rw [hfn]; exact Function.update_self ..⟩
    · have hold : f ∈ ids := by simpa [DiskManager.createFile, hfn] using hf
      obtain ⟨file, hfile⟩ := h.opened f hold
      exact ⟨file, by simp only [DiskManager.createFile, Function.update_of_ne hfn, hfile]⟩
  case tracks =>
    intro f file hf
    rcases hcases f file hf with ⟨_, rfl⟩ | ⟨_, hold⟩
    · refine ⟨rfl, by simp [Fstream.opened], ?_, ?_⟩
      · change (d.fileSystem path).size = _
        rw [hnew]
        simp [File.empty, Extents.empty]
      · intro page i _
        change (d.fileSystem path).get _ = _
        rw [hnew]
        simp [File.empty, File.get, PageMap.zero]
    · exact h.tracks f file hold
  case paths =>
    intro f g file file' hf hg heq
    rcases hcases f file hf with ⟨rfl, rfl⟩ | ⟨_, hof⟩ <;>
      rcases hcases g file' hg with ⟨rfl, rfl⟩ | ⟨_, hog⟩
    · rfl
    · exact absurd heq.symm (hpath g file' hog)
    · exact absurd heq (hpath f file hof)
    · exact h.paths f g file file' hof hog heq

theorem createFiles_refines {ids : List FileId} {d : DiskManager} {paths : List String}
    (h : Refines ids d Extents.empty PageMap.zero) (hnodup : paths.Nodup)
    (hnew : ∀ path ∈ paths, d.fileSystem path = File.empty)
    (hpath : ∀ f file, d.files f = some file → file.path ∉ paths) :
    Refines (ids ++ (d.createFiles paths).1) (d.createFiles paths).2 Extents.empty
      PageMap.zero := by
  induction paths generalizing ids d with
  | nil => simpa [DiskManager.createFiles] using h
  | cons path paths ih =>
      obtain ⟨hnotin, hnodup⟩ := List.nodup_cons.mp hnodup
      have hone := createFile_refines h (hnew path (by simp)) fun f file hf heq =>
        hpath f file hf (by simp [heq])
      have hrest := ih hone hnodup (fun p hp => hnew p (by simp [hp])) ?_
      · simpa [DiskManager.createFiles] using hrest
      intro f file hf hin
      by_cases hfn : f = d.nextFileId
      · subst hfn
        simp only [DiskManager.createFile, Function.update_self, Option.some.injEq] at hf
        subst hf
        exact hnotin hin
      · simp only [DiskManager.createFile, Function.update_of_ne hfn] at hf
        exact hpath f file hf (by simp [hin])

/-- On new files, the disk manager answers like the page map exactly the orderly sequences. -/
theorem run_answers_iff (fs : String → File) (paths : List String) (calls : List DiskCall)
    (hnodup : paths.Nodup) (hnew : ∀ path ∈ paths, fs path = File.empty)
    (hids : ∀ call ∈ calls, call.key.fileId ∈ ((DiskManager.init fs).createFiles paths).1) :
    (∃ d, run DiskManager.step ((DiskManager.init fs).createFiles paths).2 calls =
        .ok (PageMap.zero.replies calls, d)) ↔
      Orderly Extents.empty PageMap.zero calls := by
  have hinit : Refines [] (DiskManager.init fs) Extents.empty PageMap.zero := by
    constructor <;> simp [DiskManager.init]
  have hrefines := createFiles_refines hinit hnodup hnew (by simp [DiskManager.init])
  rw [List.nil_append] at hrefines
  exact run_iff_orderly hrefines hids

/-- A page of a new file is read, and then a page of the same file is written. -/
def writeAfterShortRead : List DiskCall := [.read ⟨0, 9⟩, .write ⟨0, 0⟩ (fun _ => 17)]

theorem run_writeAfterShortRead :
    ["sparse.db"].Nodup ∧
      (∀ call ∈ writeAfterShortRead, call.key.fileId ∈
        ((DiskManager.init fun _ => File.empty).createFiles ["sparse.db"]).1) ∧
      run DiskManager.step ((DiskManager.init fun _ => File.empty).createFiles ["sparse.db"]).2
        writeAfterShortRead = .error (.raised "Disk write failed") ∧
      ¬ ∃ d, run DiskManager.step
        ((DiskManager.init fun _ => File.empty).createFiles ["sparse.db"]).2 writeAfterShortRead =
          .ok (PageMap.zero.replies writeAfterShortRead, d) := by
  have hrun : run DiskManager.step
      ((DiskManager.init fun _ => File.empty).createFiles ["sparse.db"]).2 writeAfterShortRead =
        .error (.raised "Disk write failed") := rfl
  refine ⟨by decide, ?_, hrun, ?_⟩
  · intro call hcall
    simp only [writeAfterShortRead, List.mem_cons, List.not_mem_nil, or_false] at hcall
    rcases hcall with rfl | rfl <;> decide
  · rintro ⟨d, hd⟩
    rw [hrun] at hd
    cases hd

theorem run_answers_iff_reads :
    (∃ d, run DiskManager.step
        ((DiskManager.init fun _ => File.empty).createFiles ["a.db", "b.db"]).2
          [.write ⟨1, 0⟩ Block.zero, .read ⟨1, 0⟩, .read ⟨0, 3⟩] =
        .ok (PageMap.zero.replies [.write ⟨1, 0⟩ Block.zero, .read ⟨1, 0⟩, .read ⟨0, 3⟩], d)) ↔
      Orderly Extents.empty PageMap.zero
        [.write ⟨1, 0⟩ Block.zero, .read ⟨1, 0⟩, .read ⟨0, 3⟩] :=
  run_answers_iff (fun _ => File.empty) _ _ (by decide) (fun _ _ => rfl) (by
    intro call hcall
    simp only [List.mem_cons, List.not_mem_nil, or_false] at hcall
    rcases hcall with rfl | rfl | rfl <;> decide)

end TurtleDb.Disk
