import TurtleDb.Datatype.Value

/-!
# Tuples

`storage/table/tuple.{hpp,cpp}`: a row as one buffer, a bitmap of the NULL columns followed by the
encoded values.
-/

namespace TurtleDb.Table

open TurtleDb.Lib TurtleDb.Datatype

structure Column where
  name : String
  type : DataType
  length : Nat
  deriving DecidableEq, Repr

abbrev ColumnSchema := List Column

structure Tuple where
  data : Buffer
  recordId : RecordId
  deriving DecidableEq, Repr

namespace Tuple

/-- A default-constructed tuple. -/
def empty : Tuple := { data := [], recordId := .invalid }

def storageSize (t : Tuple) : Nat := t.data.length

/-- The bits of byte `b` with bit `i` set. -/
def setBit (b : UInt8) (i : Nat) : UInt8 := b ||| UInt8.ofNat (2 ^ i)

def testBit (b : UInt8) (i : Nat) : Bool := b &&& UInt8.ofNat (2 ^ i) != 0

/-- A write that has to stay inside the buffer. -/
def put (data : Buffer) (off : Nat) (bytes : List UInt8) : Except Fault Buffer :=
  match data.store off bytes with
  | some data => .ok data
  | none => .error .outOfBounds

/-- The loop that serialises the bitmap and the values, from column `i` on with `data_ptr` at
`ptr`. Nothing is written for a NULL column, and `data_ptr` stays. -/
def encode (data : Buffer) (ptr i : Nat) : List Value → Except Fault Buffer
  | [] => .ok data
  | v :: vs =>
      if v.isNull then do
        let bitmap ← Value.fetch data (i / 8) 1
        let data ← put data (i / 8) [setBit (bitmap.getD 0 0) (i % 8)]
        encode data ptr (i + 1) vs
      else do
        let data ← put data ptr v.serialize
        encode data (ptr + v.storageSize) (i + 1) vs

/-- `null_bitmap_size` of the constructor, which counts columns in 32 bits. -/
def bitmapSize (columnCount : Nat) : Nat := add32 columnCount 7 / 8

/-- `storage_size_`, summed in 32 bits. -/
def sizeOf (values : List Value) : Nat :=
  values.foldl (fun size v => add32 size v.storageSize) (bitmapSize (trunc32 values.length))

/-- `Tuple(schema, values)`. The size counts a NULL column, though nothing is written for it. -/
def make (schema : ColumnSchema) (values : List Value) : Except Fault Tuple :=
  if values.length ≠ schema.length then
    .error (.terminated "values.size() == schema->get_columns().size()")
  else do
    let columnCount := trunc32 values.length
    let data ← encode (List.replicate (sizeOf values) 0) (bitmapSize columnCount) 0
      (values.take columnCount)
    return { data, recordId := .invalid }

/-- The bytes `serialize_to` copies to the storage. -/
def serializeTo (t : Tuple) : List UInt8 := t.data

def deserializeFrom (t : Tuple) (storage : List UInt8) (size : Nat) : Tuple :=
  { t with data := storage.take size }

/-- How far `value` moves over a column. The bitmap plays no part in it; over a `VARCHAR` it moves
by the length it finds there, plus four in 32 bits. -/
def advance (data : Buffer) (offset : Nat) (t : DataType) : Except Fault Nat :=
  if t = .varchar then do
    let len ← Value.fetch data offset 4
    return offset + add32 4 (leNat len)
  else do
    let size ← getTypeSize t
    return offset + size

def value (t : Tuple) (schema : ColumnSchema) (columnIdx : Nat) : Except Fault Value :=
  match schema[columnIdx]? with
  | none => .error (.terminated "Column is out of range")
  | some column => do
      let offset ← (schema.take columnIdx).foldlM (fun offset c => advance t.data offset c.type)
        ((schema.length + 7) / 8)
      let bitmap ← Value.fetch t.data (columnIdx / 8) 1
      if testBit (bitmap.getD 0 0) (columnIdx % 8) then return Value.null column.type
      else Value.deserialize column.type t.data offset

end Tuple

end TurtleDb.Table
