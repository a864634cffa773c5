import Mathlib.Data.List.AList
import TurtleDb.Common

/-!
# Databases

`catalog/metadata.{hpp,cpp}`, `catalog/database.{hpp,cpp}` and the name a `Namespace` has; nothing
puts tables into one. A `std::string` is its bytes, and a time point its 64-bit count of ticks.
-/

namespace TurtleDb.Catalog

abbrev Bytes := List UInt8

structure Metadata where
  dbName : Bytes
  dbFilePath : Bytes
  metaFilePath : Bytes
  createdAt : UInt64
  updatedAt : UInt64
  namespaceCount : Nat
  tableCount : Nat
  deriving DecidableEq, Repr

namespace Metadata

def make (dbName dbFilePath metaFilePath : Bytes) (now : UInt64) : Metadata :=
  { dbName, dbFilePath, metaFilePath, createdAt := now, updatedAt := now, namespaceCount := 0,
    tableCount := 0 }

def touch (m : Metadata) (now : UInt64) : Metadata := { m with updatedAt := now }

def increaseNamespace (m : Metadata) : Metadata :=
  { m with namespaceCount := m.namespaceCount + 1 }

end Metadata

structure Namespace where
  name : Bytes
  deriving DecidableEq, Repr

structure Database where
  metadata : Metadata
  namespaces : AList fun _ : Bytes => Namespace

namespace Database

/-- `Database(metadata)`. -/
def make (metadata : Metadata) : Database := { metadata, namespaces := ∅ }

def createNamespace (db : Database) (namespaceName : Bytes) (now : UInt64) : Database :=
  match db.namespaces.lookup namespaceName with
  | some _ => db
  | none =>
      { metadata := db.metadata.increaseNamespace.touch now,
        namespaces := db.namespaces.insert namespaceName { name := namespaceName } }

end Database

end TurtleDb.Catalog
