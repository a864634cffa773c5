import TurtleDb.Catalog.Database
import TurtleDb.Lib.ByteReader

/-!
# The catalog

`catalog/catalog.{hpp,cpp}` and `common/util/binary_serializer.{hpp,cpp}`, without the registry of
tables, which is not persistent. `metadatas_` and `databases_` have the same keys, and a `Database`
refers to its `Metadata`; here they are one map.
-/

set_option linter.dupNamespace false

namespace TurtleDb.Catalog

open TurtleDb.Lib

/-! ## What is around the catalog -/

/-- The length a `std::string` can have before an allocation throws: a `size_t`, and 15 characters
need no allocation. -/
structure StringLimit where
  val : Nat
  small : 15 ≤ val
  lt : val < 2 ^ 64

/-- The files, by path: `none` where there is no file that can be read. -/
structure FileSystem where
  content : Bytes → Option Bytes
  writable : Bytes → Bool

/-- Opening with `trunc` and writing `bytes`. -/
def FileSystem.write (fs : FileSystem) (path bytes : Bytes) : FileSystem :=
  { fs with content := Function.update fs.content path (some bytes) }

/-- The order in which an `unordered_map` is iterated. -/
structure Iteration where
  order {α : Type} : List α → List α
  perm {α : Type} (l : List α) : (order l).Perm l

/-- What `now()` answers while the `i`-th database of a file is loaded: when its `Metadata` is made,
and when its `Metadata` is touched for the `j`-th time. -/
structure Clock where
  created : Nat → UInt64
  touched : Nat → Nat → UInt64

def ascii (s : String) : Bytes := s.toList.map fun c => UInt8.ofNat c.toNat

/-- Bytes in the text of an error. -/
def text (bytes : Bytes) : String := String.ofList (bytes.map fun b => Char.ofNat b.toNat)

def alloc (limit : StringLimit) (s : Bytes) : Except Fault Bytes :=
  if s.length ≤ limit.val then .ok s else .error (.raised "std::length_error")

/-! ## The serializer -/

def writeString (s : Bytes) : Bytes := leBytes 8 s.length ++ s

/-- A string whose length cannot be read is empty; one whose characters cannot be read is padded
with zeros. -/
def readString (limit : StringLimit) (r : ByteReader) : Except Fault (Bytes × ByteReader) :=
  let (len, r) := r.readWord 8 0
  if !r.good then .ok ([], r)
  else if limit.val < len then .error (.raised "std::length_error")
  else .ok (r.read (List.replicate len 0))

def magicNumber : Nat := 0xDEADBEEF

def databaseVersion : Nat := 1

/-! ## The catalog in memory -/

structure Catalog where
  catalogFilePath : Bytes
  dbDir : Bytes
  databases : AList fun _ : Bytes => Database

/-- `operator/` of `std::filesystem::path`. -/
def joinPath (dir p : Bytes) : Bytes :=
  if p.head? = some 47 then p
  else if dir = [] ∨ dir.getLast? = some 47 then dir ++ p
  else dir ++ 47 :: p

namespace Catalog

def empty (catalogFilePath dbDir : Bytes) : Catalog :=
  { catalogFilePath, dbDir, databases := ∅ }

/-- `create_database`, when the disk manager has created both files or has thrown. The outcome says
whether a database is returned. -/
def createDatabase (c : Catalog) (limit : StringLimit) (databaseName : Bytes) (filesCreated : Bool)
    (now touched : UInt64) : Except Fault (Bool × Catalog) :=
  match c.databases.lookup databaseName with
  | some _ => .ok (false, c)
  | none => do
      let dbFilePath ← alloc limit (joinPath c.dbDir (databaseName ++ ascii ".db"))
      let metaFilePath ← alloc limit (joinPath c.dbDir (databaseName ++ ascii ".meta"))
      if filesCreated then
        let metadata := Metadata.make databaseName dbFilePath metaFilePath now
        let db := (Database.make metadata).createNamespace (ascii "public") touched
        return (true, { c with databases := c.databases.insert databaseName db })
      else return (false, c)

/-- `get_database(database_name)->create_namespace(namespace_name)`. -/
def createNamespace (c : Catalog) (limit : StringLimit) (databaseName namespaceName : Bytes)
    (now : UInt64) : Except Fault Catalog :=
  match c.databases.lookup databaseName with
  | none => .ok c
  | some db => do
      let namespaceName ← alloc limit namespaceName
      return { c with
        databases := c.databases.insert databaseName (db.createNamespace namespaceName now) }

end Catalog

/-! ## Saving -/

def encodeNamespace (metadata : Metadata) (name : Bytes) : Bytes :=
  writeString name ++ leBytes 4 (trunc32 metadata.tableCount)

/-- What `save_database_metadata` writes: the meta path before the path of the database. -/
def encodeMetadata (it : Iteration) (db : Database) : Bytes :=
  leBytes 4 magicNumber ++ writeString db.metadata.dbName ++ writeString db.metadata.metaFilePath ++
    writeString db.metadata.dbFilePath ++ leBytes 8 db.metadata.createdAt.toNat ++
    leBytes 8 db.metadata.updatedAt.toNat ++ leBytes 4 (trunc32 db.metadata.namespaceCount) ++
    ((it.order db.namespaces.entries).map fun e => encodeNamespace db.metadata e.1).flatten

def saveDatabaseMetadata (it : Iteration) (fs : FileSystem) (db : Database) :
    Except Fault FileSystem :=
  if !fs.writable db.metadata.metaFilePath then
    .error (.raised ("Cannot open metadata file for writing: " ++ text db.metadata.metaFilePath))
  else .ok (fs.write db.metadata.metaFilePath (encodeMetadata it db))

def encodeEntry (name : Bytes) (db : Database) : Bytes :=
  writeString name ++ writeString db.metadata.dbFilePath ++ writeString db.metadata.metaFilePath

/-- What `flush` writes to the catalog file. -/
def encodeCatalog (entries : List (Sigma fun _ : Bytes => Database)) : Bytes :=
  leBytes 4 magicNumber ++ leBytes 4 databaseVersion ++ leBytes 4 (trunc32 entries.length) ++
    (entries.map fun e => encodeEntry e.1 e.2).flatten

/-- The catalog file is written when its stream is closed, behind the files of the databases. -/
def Catalog.flush (c : Catalog) (it : Iteration) (fs : FileSystem) : Except Fault FileSystem :=
  if !fs.writable c.catalogFilePath then .ok fs
  else do
    let entries := it.order c.databases.entries
    let fs ← entries.foldlM (fun fs e => saveDatabaseMetadata it fs e.2) fs
    return fs.write c.catalogFilePath (encodeCatalog entries)

/-! ## Loading -/

/-- The loop over the namespaces, `k` of them ahead and the `i`-th next. What was created before an
exception stays. -/
def loadNamespaces (limit : StringLimit) (touched : Nat → UInt64) :
    Nat → Nat → ByteReader → Database → Database × Option Fault
  | 0, _, _, db => (db, none)
  | k + 1, i, r, db =>
      match readString limit r with
      | .error e => (db, some e)
      | .ok (namespaceName, r) =>
          let db := db.createNamespace namespaceName (touched i)
          let (_, r) := r.readWord 4 0
          loadNamespaces limit touched k (i + 1) r db

/-- What is read of a metadata file before its namespaces. -/
structure MetadataHeader where
  dbName : Bytes
  metaFilePath : Bytes
  dbFilePath : Bytes
  createdAt : Nat
  updatedAt : Nat
  namespaceCount : Nat

/-- `namespace_count` is not initialised: `garbage` is what it holds. -/
def readHeader (limit : StringLimit) (garbage : Nat) (metaFile content : Bytes) :
    Except Fault (MetadataHeader × ByteReader) := do
  let (magic, r) := (ByteReader.ofBytes content).readWord 4 0
  if !r.good || magic ≠ magicNumber then
    .error (.raised ("Invalid or corrupted metadata file: " ++ text metaFile))
  else
    let (dbName, r) ← readString limit r
    let (metaFilePath, r) ← readString limit r
    let (dbFilePath, r) ← readString limit r
    let (createdAt, r) := r.readWord 8 0
    let (updatedAt, r) := r.readWord 8 0
    let (namespaceCount, r) := r.readWord 4 garbage
    return ({ dbName, metaFilePath, dbFilePath, createdAt, updatedAt, namespaceCount }, r)

/-- `load_database_metadata`: the database as it is left, and the exception if one is thrown. Of the
header only the count is used. -/
def loadDatabaseMetadata (limit : StringLimit) (touched : Nat → UInt64) (garbage : Nat)
    (metaFile : Bytes) (content : Option Bytes) (db : Database) : Database × Option Fault :=
  match content with
  | none =>
      (db, some (.raised ("Cannot open metadata file for reading: " ++ text metaFile)))
  | some content =>
      match readHeader limit garbage metaFile content with
      | .error e => (db, some e)
      | .ok (header, r) =>
          match loadNamespaces limit touched header.namespaceCount 0 r db with
          | (db, some e) => (db, some e)
          | (db, none) =>
              ({ db with metadata := db.metadata.touch (touched header.namespaceCount) }, none)

/-- The loop over the databases. An exception from a metadata file is caught, and a name that is
there already is not emplaced again. -/
def loadDatabases (limit : StringLimit) (clock : Clock) (garbage : Nat → Nat) (fs : FileSystem) :
    Nat → Nat → ByteReader → (AList fun _ : Bytes => Database) →
      Except Fault (AList fun _ : Bytes => Database)
  | 0, _, _, databases => .ok databases
  | k + 1, i, r, databases => do
      let (dbName, r) ← readString limit r
      let (dbFilePath, r) ← readString limit r
      let (metaFilePath, r) ← readString limit r
      let metadata := Metadata.make dbName dbFilePath metaFilePath (clock.created i)
      let (db, _) := loadDatabaseMetadata limit (clock.touched i) (garbage i) metaFilePath
        (fs.content metaFilePath) (Database.make metadata)
      let databases :=
        match databases.lookup dbName with
        | some _ => databases
        | none => databases.insert dbName db
      loadDatabases limit clock garbage fs k (i + 1) r databases

/-- The constructor, which calls `load`. From a file with a wrong magic number or version nothing is
loaded. -/
def Catalog.load (limit : StringLimit) (clock : Clock) (garbage : Nat → Nat) (fs : FileSystem)
    (catalogFilePath dbDir : Bytes) : Except Fault Catalog :=
  match fs.content catalogFilePath with
  | none => .ok (empty catalogFilePath dbDir)
  | some content =>
      let (magic, r) := (ByteReader.ofBytes content).readWord 4 0
      if !r.good || magic ≠ magicNumber then .ok (empty catalogFilePath dbDir)
      else
        let (version, r) := r.readWord 4 0
        if !r.good || version ≠ databaseVersion then .ok (empty catalogFilePath dbDir)
        else
          let (dbCount, r) := r.readWord 4 0
          if !r.good then .error (.raised "Failed to read database count from catalog.")
          else do
            let databases ← loadDatabases limit clock garbage fs dbCount 0 r ∅
            return { catalogFilePath, dbDir, databases }

end TurtleDb.Catalog
