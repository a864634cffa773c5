import Mathlib.Data.List.AList
import TurtleDb.Disk.DiskManager

/-!
# The file table of the disk manager

`create_file` and `open_file` of `storage/disk/disk_manager.cpp`, with the calls the operating
system refuses. A refused call throws and keeps what it has done so far.
-/

namespace TurtleDb.Disk

open TurtleDb.Lib

structure FileTable where
  disk : DiskManager
  pathToFileId : AList fun _ : String => FileId

/-- What the operating system says to one call. -/
structure OsReply where
  /-- The parent directory exists, or can be created. -/
  prepared : Bool
  /-- The file can be opened for reading and writing. -/
  opened : Bool
  deriving DecidableEq, Repr

namespace FileTable

def init (fileSystem : String → File) : FileTable :=
  { disk := DiskManager.init fileSystem, pathToFileId := ∅ }

def fileIdOf (t : FileTable) (path : String) : Option FileId := t.pathToFileId.lookup path

def failedToOpen (path : String) : Fault := .raised ("Failed to open file: " ++ path)

/-- The id is taken, and the path mapped to it, before the stream is known to be open. -/
def createFile (t : FileTable) (path : String) (os : OsReply) : Except Fault FileId × FileTable :=
  if !os.prepared then (.error (.raised "filesystem error: cannot create directories"), t)
  else
    let (fileId, disk) := t.disk.createFile path
    let pathToFileId := t.pathToFileId.insert path fileId
    if os.opened then (.ok fileId, { disk, pathToFileId })
    else
      (.error (failedToOpen path),
        { disk := { t.disk with nextFileId := disk.nextFileId }, pathToFileId })

/-- The stream of a path that is not mapped yet is opened and dropped. -/
def openFile (t : FileTable) (path : String) (os : OsReply) : Except Fault FileId × FileTable :=
  match t.fileIdOf path with
  | some fileId => (.ok fileId, t)
  | none =>
      let newId := trunc32 (t.pathToFileId.keys.length + 1)
      let t := { t with pathToFileId := t.pathToFileId.insert path newId }
      if os.opened then (.ok newId, t) else (.error (failedToOpen path), t)

end FileTable

inductive FileCall where
  | create (path : String) (os : OsReply)
  | openFile (path : String) (os : OsReply)

namespace FileCall

def path : FileCall → String
  | .create path _ => path
  | .openFile path _ => path

end FileCall

def FileTable.call (t : FileTable) : FileCall → Except Fault FileId × FileTable
  | .create path os => t.createFile path os
  | .openFile path os => t.openFile path os

end TurtleDb.Disk
