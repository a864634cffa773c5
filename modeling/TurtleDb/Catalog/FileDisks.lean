import TurtleDb.Buffer.Deletion
import TurtleDb.Buffer.OpenFiles
import TurtleDb.Catalog.TableRegistry

/-!
# Disks that create files

A new path leads to a new file, and what the other files hold stays. The disk manager is such a disk.
-/

namespace TurtleDb.Catalog

open TurtleDb.Lib TurtleDb.Buffer TurtleDb.Buffer.BufferPoolManager TurtleDb.Table LawfulPageDisk

/-- A path that names no open file gets a file of its own, unless the call throws. The open files
stay as they are. -/
class LawfulFileDisk (δ : Type) [PageDisk δ] [LawfulPageDisk δ] [FileDisk δ] where
  creatable : δ → Bytes → Prop
  created : ∀ {d path answer d'}, creatable d path → FileDisk.createFile d path = (answer, d') →
    (∀ file, opened d file → opened d' file) ∧
      (∀ k, opened d k.fileId → content d' k = content d k) ∧
        ∀ file, answer = .ok file → ¬ opened d file ∧ opened d' file

/-! ## The disk manager of the repository -/

/-- A path as the disk manager takes it. -/
def pathString (path : Bytes) : String := String.ofList (path.map fun b => Char.ofNat b.toNat)

instance : FileDisk Disk.DiskManager where
  createFile d path := (.ok (d.createFile (pathString path)).1, (d.createFile (pathString path)).2)

/-- A path of no open file, and an id that no file has. -/
def Creatable (d : Disk.DiskManager) (path : Bytes) : Prop :=
  streams d d.nextFileId = none ∧ ∀ g good, streams d g ≠ some (pathString path, good)

instance : LawfulFileDisk Disk.DiskManager where
  creatable := Creatable
  created := by
    rintro d path answer d' ⟨hid, hpath⟩ h
    cases h
    obtain ⟨hnew, hold⟩ := openedAt_createFile hid hpath
    refine ⟨fun file ⟨path', hopen⟩ => ⟨path', hold _ _ hopen⟩,
      fun k hopen => fileContent_createFile hid hpath hopen, fun file hfile => ?_⟩
    cases hfile
    refine ⟨fun ⟨path', hopen⟩ => ?_, _, hnew⟩
    cases hid.symm.trans hopen.1

section
variable {d : Disk.DiskManager} {b b' : BufferPoolManager Disk.DiskManager}

/-- Which files are open. -/
def SameFiles (d d' : Disk.DiskManager) : Prop :=
  streams d' = streams d ∧ d'.nextFileId = d.nextFileId

theorem SameFiles.trans {d₁ d₂ : Disk.DiskManager} (h : SameFiles d d₁) (h' : SameFiles d₁ d₂) :
    SameFiles d d₂ := ⟨h'.1.trans h.1, h'.2.trans h.2⟩

theorem good_of_write {n : Nat} {s : Fstream} {off : Nat} {f : File} {data : Block n}
    (h : ((s.seekp off).write f data).2.fail = false) :
    s.good = true ∧ ((s.seekp off).write f data).2.good = true := by
  obtain ⟨pos, _ | _, _ | _⟩ := s <;>
    simp_all [Fstream.seekp, Fstream.write, Fstream.good, Fstream.fail]

/-- A write that goes through leaves the streams good. -/
theorem writePage_sameFiles {file : FileId} {page : PageId} {data : PageData}
    {d' : Disk.DiskManager} (hr : PageDisk.writePage d file page data = .ok d') :
    SameFiles d d' := by
  change d.writePage file page data = .ok d' at hr
  unfold Disk.DiskManager.writePage Disk.DiskManager.overwrite at hr
  split at hr
  · cases hr
  rename_i file' hfile
  dsimp only at hr
  split at hr
  · cases hr
  rename_i hok
  cases hr
  obtain ⟨hgood, hgood'⟩ := good_of_write (Bool.not_eq_true _ ▸ hok)
  exact ⟨streams_setStream (d := d.setFile file'.path _) hfile hgood hgood', rfl⟩

theorem vacate_sameFiles {f : FrameId} (hr : b.vacate f = .ok b') :
    SameFiles b.diskManager b'.diskManager := by
  unfold BufferPoolManager.vacate at hr
  dsimp only at hr
  split at hr
  · cases hr
    exact ⟨rfl, rfl⟩
  split at hr
  · obtain ⟨d, hd, hr⟩ := bind_eq_ok.mp hr
    cases hr
    exact writePage_sameFiles hd
  · cases hr
    exact ⟨rfl, rfl⟩

theorem findFrame_sameFiles {f : FrameId} (hr : b.findFrame = .ok (some (f, b'))) :
    SameFiles b.diskManager b'.diskManager := by
  unfold BufferPoolManager.findFrame at hr
  split at hr
  · obtain ⟨b₁, hb, hr⟩ := bind_eq_ok.mp hr
    cases hr
    have hsame := vacate_sameFiles hb
    exact hsame
  · split at hr
    · cases hr
    · obtain ⟨b₁, hb, hr⟩ := bind_eq_ok.mp hr
      cases hr
      have hsame := vacate_sameFiles hb
      exact hsame

theorem newPage_sameFiles {file : FileId} {r : Option (FrameId × PageId)}
    (hr : b.newPage file = .ok (r, b')) : SameFiles b.diskManager b'.diskManager := by
  unfold BufferPoolManager.newPage at hr
  obtain ⟨found, hfound, hr⟩ := bind_eq_ok.mp hr
  split at hr
  · cases hr
    exact ⟨rfl, rfl⟩
  · obtain ⟨d, hd, hr⟩ := bind_eq_ok.mp hr
    cases hr
    exact (findFrame_sameFiles hfound).trans (writePage_sameFiles hd)

theorem create_sameFiles {file : FileId} {table : TableHeap}
    (hr : TableHeap.create b file = .ok (table, b')) :
    SameFiles b.diskManager b'.diskManager := by
  unfold TableHeap.create at hr
  obtain ⟨⟨r, b₁⟩, hb, hr⟩ := bind_eq_ok.mp hr
  have hsame := newPage_sameFiles hb
  split at hr
  · cases hr
  · dsimp only at hr
    split at hr
    · cases hr
      cases ‹(_, _) = (_, _)›
      exact hsame
    · cases hr
      cases ‹(_, _) = (_, _)›
      unfold SameFiles WritePageGuard.drop
      rw [unpinPage_disk]
      exact hsame

end

end TurtleDb.Catalog
