import TurtleDb.Common
import TurtleDb.Lib.Buffer

/-!
# Values

`datatype/value.{hpp,cpp}` and the type classes beside it: the constructors, storage sizes and the
byte encoding of each type. `INVALID`, the type of a default-constructed value, is no column's type
and is left out.
-/

namespace TurtleDb.Datatype

open TurtleDb.Lib

inductive DataType where
  | boolean
  | integer
  | tinyint
  | smallint
  | bigint
  | decimal
  | varchar
  | timestamp
  deriving DecidableEq, Repr

namespace DataType

/-- The bytes a value takes; for `VARCHAR`, those of its length prefix. -/
def size : DataType → Nat
  | .boolean => 1
  | .tinyint => 1
  | .smallint => 2
  | .integer => 4
  | .bigint => 8
  | .decimal => 8
  | .timestamp => 8
  | .varchar => 4

end DataType

/-- `Type::get_type_size`. -/
def getTypeSize (t : DataType) : Except Fault Nat :=
  if t = .varchar then .error (.raised "unsupported type") else .ok t.size

/-- `TURTLE_VALUE_NULL`. -/
def valueNull : Nat := 4294967295

/-- `bits` are the bytes of the union `value_`, `varlen` the characters it points to if the value is
a `VARCHAR`, and `len` is `size_.len_`. -/
structure Value where
  dataType : DataType
  bits : BitVec 64
  varlen : List UInt8
  len : Nat
  deriving DecidableEq, Repr

namespace Value

def isNull (v : Value) : Bool := v.len == valueNull

/-- `Value(type)`. -/
def null (t : DataType) : Value := { dataType := t, bits := 0, varlen := [], len := valueNull }

/-! ## Constructors -/

/-- The constructor of the `w`-bit types: one bit pattern stands for NULL. The bytes of the union
above the pattern are never read. -/
def ofBits {w : Nat} (pattern : BitVec w) (t : DataType) (i : BitVec w) : Value where
  dataType := t
  bits := i.setWidth 64
  varlen := []
  len := if i = pattern then valueNull else 0

/-- `TURTLE_BOOLEAN_NULL`, also for `TINYINT`. -/
def ofInt8 : DataType → BitVec 8 → Value := ofBits 0x80#8

def ofInt16 : DataType → BitVec 16 → Value := ofBits 0x8000#16

def ofInt32 : DataType → BitVec 32 → Value := ofBits 0x80000000#32

def ofInt64 : DataType → BitVec 64 → Value := ofBits 0x8000000000000000#64

/-- `TURTLE_DECIMAL_NULL` is the lowest double; no other bit pattern compares equal to it. -/
def ofDouble : DataType → BitVec 64 → Value := ofBits 0xFFEFFFFFFFFFFFFF#64

/-- `TURTLE_TIMESTAMP_NULL`. -/
def ofUInt64 : DataType → BitVec 64 → Value := ofBits 0xFFFFFFFFFFFFFFFF#64

/-- `Value(type, data, len, manage_data)` with `len` characters at `data`. -/
def ofChars (t : DataType) (data : List UInt8) : Value :=
  { dataType := t, bits := 0, varlen := data, len := data.length }

/-- `get_as`, by the width of the type it is asked for. -/
def getAs (v : Value) (w : Nat) : BitVec w := v.bits.setWidth w

/-! ## Encoding -/

/-- `get_storage_size`. The size of a `VARCHAR` is computed in 32 bits. -/
def storageSize (v : Value) : Nat :=
  if v.dataType = .varchar then if v.isNull then 4 else add32 v.len 4 else v.dataType.size

/-- The bytes that carry a value. -/
def payload (v : Value) : List UInt8 :=
  if v.dataType = .varchar then v.varlen.take v.len else leBytes v.dataType.size v.bits.toNat

/-- `serialize`: the bytes written. -/
def serialize (v : Value) : List UInt8 :=
  if v.dataType = .varchar then
    if v.isNull then leBytes 4 0 else leBytes 4 v.len ++ v.payload
  else v.payload

/-- The constructor each fixed-size type's `deserialize` calls. `TINYINT` calls the one of
`SMALLINT`, so no pattern of its byte stands for NULL. -/
def ofWord (t : DataType) (n : Nat) : Value :=
  match t with
  | .boolean => ofInt8 t (BitVec.ofNat 8 n)
  | .tinyint => ofInt16 t ((BitVec.ofNat 8 n).signExtend 16)
  | .smallint => ofInt16 t (BitVec.ofNat 16 n)
  | .integer => ofInt32 t (BitVec.ofNat 32 n)
  | .bigint => ofInt64 t (BitVec.ofNat 64 n)
  | .decimal => ofDouble t (BitVec.ofNat 64 n)
  | .timestamp => ofUInt64 t (BitVec.ofNat 64 n)
  | .varchar => null t

/-- A read that has to stay inside the buffer. -/
def fetch (storage : Buffer) (off len : Nat) : Except Fault (List UInt8) :=
  match storage.load off len with
  | some bytes => .ok bytes
  | none => .error .outOfBounds

/-- `deserialize` of type `t` at `off`. -/
def deserialize (t : DataType) (storage : Buffer) (off : Nat) : Except Fault Value :=
  if t = .varchar then do
    let len ← fetch storage off 4
    if leNat len = 0 then return null .varchar
    let data ← fetch storage (off + 4) (leNat len)
    return ofChars .varchar data
  else do
    let bytes ← fetch storage off t.size
    return ofWord t (leNat bytes)

end Value

end TurtleDb.Datatype
