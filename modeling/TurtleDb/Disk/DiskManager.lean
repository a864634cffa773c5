import TurtleDb.Common
import TurtleDb.Lib.Fstream

/-!
# The disk manager

`storage/disk/disk_manager.{hpp,cpp}`. A file id names an open stream, and the stream the file of a
path. `page_id * PAGE_SIZE` is computed in 64 bits and does not wrap.
-/

namespace TurtleDb.Disk

open TurtleDb.Lib

/-- An entry of `files_`. -/
structure OpenFile where
  path : String
  stream : Fstream

structure DiskManager where
  /-- The files of the operating system, by path. -/
  fileSystem : String → File
  files : FileId → Option OpenFile
  nextFileId : FileId

namespace DiskManager

/-- A disk manager that has opened nothing yet. -/
def init (fileSystem : String → File) : DiskManager :=
  { fileSystem, files := fun _ => none, nextFileId := 0 }

/-- Opening for append leaves the bytes a file already has. -/
def createFile (d : DiskManager) (path : String) : FileId × DiskManager :=
  let fileId := d.nextFileId
  (fileId, { d with
    files := Function.update d.files fileId (some { path, stream := Fstream.opened }),
    nextFileId := add32 fileId 1 })

def setStream (d : DiskManager) (fileId : FileId) (file : OpenFile) (s : Fstream) : DiskManager :=
  { d with files := Function.update d.files fileId (some { file with stream := s }) }

def setFile (d : DiskManager) (path : String) (f : File) : DiskManager :=
  { d with fileSystem := Function.update d.fileSystem path f }

def readPage (d : DiskManager) (fileId : FileId) (pageId : PageId) :
    Except Fault (PageData × DiskManager) :=
  match d.files fileId with
  | none => .error (.raised "Invalid file id in read_page")
  | some file =>
      let s := file.stream.seekg (pageId * pageSize)
      if !s.good then .ok (Block.zero, d.setStream fileId file s.clear)
      else
        let (bytes, s) := s.read (d.fileSystem file.path) pageSize
        .ok (Block.zero.put 0 bytes, d.setStream fileId file s)

/-- The body that `write_page` and `delete_page` share. -/
def overwrite (d : DiskManager) (fileId : FileId) (pageId : PageId) (pageData : PageData)
    (invalid failed : String) : Except Fault DiskManager :=
  match d.files fileId with
  | none => .error (.raised invalid)
  | some file =>
      let s := file.stream.seekp (pageId * pageSize)
      let (f, s) := s.write (d.fileSystem file.path) pageData
      if s.fail then .error (.raised failed)
      else .ok ((d.setFile file.path f).setStream fileId file s)

def writePage (d : DiskManager) (fileId : FileId) (pageId : PageId) (pageData : PageData) :
    Except Fault DiskManager :=
  d.overwrite fileId pageId pageData "Invalid file id in write_page" "Disk write failed"

def deletePage (d : DiskManager) (fileId : FileId) (pageId : PageId) : Except Fault DiskManager :=
  d.overwrite fileId pageId Block.zero "Invalid file id in delete_page"
    "Disk delete (zero-fill) failed"

/-- One `create_file` for each path. -/
def createFiles (d : DiskManager) : List String → List FileId × DiskManager
  | [] => ([], d)
  | path :: paths =>
      let (fileId, d) := d.createFile path
      let (ids, d) := d.createFiles paths
      (fileId :: ids, d)

end DiskManager

end TurtleDb.Disk
