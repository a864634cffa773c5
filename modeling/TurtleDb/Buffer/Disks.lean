import TurtleDb.Buffer.BufferPoolManager
import TurtleDb.Disk.Theorems

/-!
# Disks that keep pages

A lawful disk acts as a map from pages to bytes on the pages it holds. A plain map is one. The disk
manager is a disk that may throw.
-/

namespace TurtleDb.Buffer

open TurtleDb.Lib

/-- The pages a disk holds, with their bytes, and the files it writes to. Reading a page it holds
changes none of that; writing a page adds it and keeps the others. -/
class LawfulPageDisk (δ : Type) [PageDisk δ] where
  content : δ → PageKey → Option PageData
  opened : δ → FileId → Prop
  read : ∀ {d k data}, content d k = some data →
    ∃ d', PageDisk.readPage d k.fileId k.pageId = .ok (data, d') ∧ content d' = content d ∧
      opened d' = opened d
  write : ∀ {d k} (data : PageData), opened d k.fileId →
    ∃ d', PageDisk.writePage d k.fileId k.pageId data = .ok d' ∧ content d' k = some data ∧
      (∀ k' bytes, k' ≠ k → content d k' = some bytes → content d' k' = some bytes) ∧
      opened d' = opened d

instance : PageDisk Disk.PageMap where
  readPage m file page := .ok (m ⟨file, page⟩, m)
  writePage m file page data := .ok (Function.update m ⟨file, page⟩ data)
  readPage_throws h := by cases h
  writePage_throws h := by cases h

instance : PageDisk Disk.DiskManager where
  readPage := Disk.DiskManager.readPage
  writePage := Disk.DiskManager.writePage
  readPage_throws := by
    intro d file page fault h
    unfold Disk.DiskManager.readPage at h
    split at h
    · cases h
      exact ⟨_, rfl⟩
    · dsimp only at h
      split at h <;> cases h
  writePage_throws := by
    intro d file page data fault h
    unfold Disk.DiskManager.writePage Disk.DiskManager.overwrite at h
    split at h
    · cases h
      exact ⟨_, rfl⟩
    · dsimp only at h
      split at h
      · cases h
        exact ⟨_, rfl⟩
      · cases h

instance : LawfulPageDisk Disk.PageMap where
  content m k := some (m k)
  opened _ _ := True
  read h := by
    cases h
    exact ⟨_, rfl, rfl, rfl⟩
  write data _ := by
    refine ⟨_, rfl, by rw [Function.update_self], ?_, rfl⟩
    intro k' bytes hne h
    rw [Function.update_of_ne hne, h]

end TurtleDb.Buffer
