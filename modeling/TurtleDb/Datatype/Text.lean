import TurtleDb.Datatype.Value

/-!
# The texts of strings and timestamps

`to_string` of `VarcharType` and `TimestampType`. A timestamp packs its fields into one number.
-/

namespace TurtleDb.Datatype

open TurtleDb.Lib

/-- The string of these bytes. -/
def ofBytes (bytes : List UInt8) : String := String.ofList (bytes.map fun b => Char.ofNat b.toNat)

def varcharToString (v : Value) : String := if v.isNull then "varchar_null" else ofBytes v.payload

structure TimestampFields where
  year : Nat
  month : Nat
  day : Nat
  hour : Nat
  min : Nat
  sec : Nat
  micro : Nat
  tz : Int
  deriving DecidableEq, Repr

/-- The fields are unpacked from the lowest on. -/
def TimestampFields.ofNumber (tm : Nat) : TimestampFields :=
  let micro := tm % 1000000
  let tm := tm / 1000000
  let second := tm % 100000
  let tm := tm / 100000
  let year := tm % 10000
  let tm := tm / 10000
  let tz := (tm % 27 : Nat)
  let tm := tm / 27
  { year, month := tm / 32, day := tm % 32, hour := second / 60 / 60 % 24, min := second / 60 % 60,
    sec := second % 60, micro, tz := tz - 12 }

/-- `%0wd`. -/
def padded (w n : Nat) : String :=
  String.ofList (List.replicate (w - (toString n).length) '0') ++ toString n

/-- The format string of `snprintf`, with the sign and the hours of the time zone behind it. -/
def TimestampFields.text (f : TimestampFields) : String :=
  padded 4 f.year ++ "-" ++ padded 2 f.month ++ "-" ++ padded 2 f.day ++ " " ++ padded 2 f.hour ++
    ":" ++ padded 2 f.min ++ ":" ++ padded 2 f.sec ++ "." ++ padded 6 f.micro ++
    (if 0 ≤ f.tz then "+" else "-") ++ padded 2 f.tz.natAbs

def timestampToString (v : Value) : String :=
  if v.isNull then "timestamp_null" else (TimestampFields.ofNumber (v.getAs 64).toNat).text

end TurtleDb.Datatype
