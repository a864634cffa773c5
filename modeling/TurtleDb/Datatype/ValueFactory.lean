import TurtleDb.Datatype.Casts
import TurtleDb.Datatype.Text

/-!
# The casts of values

`cast_as` of the types that are no integers, and `datatype/value_factory.hpp`, which converts once
more, by the type that is asked for. What is computed with doubles is a parameter.
-/

namespace TurtleDb.Datatype

open TurtleDb.Lib Value

/-- What the casts do with doubles. -/
structure Decimals where
  /-- The conversion of an integer. -/
  ofInt : Int → BitVec 64
  /-- `DecimalType::to_string`. -/
  text : Value → String
  /-- `DecimalType::cast_as`. -/
  castAs : Value → DataType → Except Fault Value
  /-- The branches of `ValueFactory` from and to `DECIMAL`. -/
  convert : DataType → Value → Except Fault Value

/-- No cast from or to `DECIMAL`. -/
def Decimals.refusing : Decimals where
  ofInt _ := 0
  text _ := ""
  castAs _ _ := .error (.raised "")
  convert _ _ := .error (.raised "")

namespace DataType

/-- `is_coercable_from`: only `TimestampType` overrides the one of `Type`. -/
def isCoercableFrom (t source : DataType) : Bool :=
  match t with
  | .timestamp => source = .varchar || source = .timestamp
  | _ => false

def nullText : DataType → String
  | .boolean => "boolean_null"
  | .tinyint => "tinyint_null"
  | .smallint => "smallint_null"
  | .integer => "integer_null"
  | .bigint => "bigint_null"
  | .decimal => "decimal_null"
  | .varchar => "varchar_null"
  | .timestamp => "timestamp_null"

end DataType

namespace Value

variable (decimals : Decimals)

/-! ## Texts -/

/-- `Type::get_instance(t)->to_string(v)`. The classes of the integers assert that `v` is one, and
`SmallintType` looks at the type of `v`. -/
def toStringBy (t : DataType) (v : Value) : Except Fault String :=
  match t with
  | .boolean =>
      let b := (v.getAs 8).toInt
      .ok (if b = 1 then "true" else if b = 0 then "false" else t.nullText)
  | .smallint =>
      if !v.checkInteger then .error (.terminated "val.check_integer()")
      else .ok (if v.isNull then v.dataType.nullText else toString v.number)
  | .tinyint | .integer | .bigint =>
      if !v.checkInteger then .error (.terminated "val.check_integer()")
      else .ok (if v.isNull then t.nullText else toString (v.getAs t.width).toInt)
  | .decimal => .ok (if v.isNull then t.nullText else decimals.text v)
  | .varchar => if v.isNull then .ok t.nullText else do return ofBytes (← v.toStdString)
  | .timestamp => .ok (timestampToString v)

/-- The characters of a text. -/
def chars (text : String) : List UInt8 := text.toList.map Char.toUInt8

/-! ## `cast_as` of the type classes -/

def booleanCastAs (v : Value) (t : DataType) : Except Fault Value :=
  match t with
  | .boolean => v.copy
  | .varchar =>
      if v.isNull then .ok (null .varchar)
      else do return ofChars .varchar (chars (← toStringBy decimals .boolean v))
  | _ => .error (.raised ("BOOLEAN is not coercable to " ++ t.name))

def varcharCastAs (v : Value) (t : DataType) : Except Fault Value :=
  if v.isNull then .ok (null t) else .error (.raised "VARCHAR cannot be cast to other types.")

/-- The text of the error is what the class of `t` makes of the timestamp. -/
def timestampCastAs (v : Value) (t : DataType) : Except Fault Value :=
  match t with
  | .timestamp => v.copy
  | .varchar =>
      if v.isNull then .ok (null .varchar)
      else do return ofChars .varchar (chars (← toStringBy decimals .timestamp v))
  | _ => do
      let text ← toStringBy decimals t v
      .error (.raised ("TIMESTAMP is not coercable to " ++ text))

def otherCastAs (v : Value) (t : DataType) : Except Fault Value :=
  match v.dataType with
  | .boolean => booleanCastAs decimals v t
  | .varchar => varcharCastAs v t
  | .timestamp => timestampCastAs decimals v t
  | _ => decimals.castAs v t

end Value

namespace ValueFactory

variable (decimals : Decimals)

/-- What the conversions share: the test in front of the switch, and the exception behind it, which
a `break` reaches. -/
def coerce (t : DataType) (v : Value) (switch : Option (Except Fault Value)) : Except Fault Value :=
  match if t.isCoercableFrom v.dataType then switch else none with
  | some r => r
  | none => do
      let text ← toStringBy decimals v.dataType v
      .error (.raised (text ++ " is not coercable to " ++ t.name ++ "."))

/-! ## Integers -/

def isSpace (b : UInt8) : Bool := b = 32 || (9 ≤ b && b ≤ 13)

def isDigit (b : UInt8) : Bool := 48 ≤ b && b ≤ 57

/-- The number of these decimal digits. -/
def numberOf (digits : List UInt8) : Nat := digits.foldl (fun n b => 10 * n + (b.toNat - 48)) 0

/-- `stoi` and `stoll` for words of `w` bits: white space, a sign, digits. The rest is not read. -/
def stoll (w : Nat) (typeName : String) (str : List UInt8) : Except Fault Int :=
  let (sign, rest) :=
    match str.dropWhile isSpace with
    | 45 :: rest => (-1, rest)
    | 43 :: rest => (1, rest)
    | rest => (1, rest)
  let digits := rest.takeWhile isDigit
  if digits = [] then
    .error (.raised ("Invalid input syntax for " ++ typeName ++ ": '" ++ ofBytes str ++ "'"))
  else if Fits w (sign * (numberOf digits : Int)) then .ok (sign * (numberOf digits : Int))
  else .error (.raised "Numeric value out of range.")

/-- The switch of the four integer types: a string is read as a word of `w` bits and cut to the type,
and the pattern of NULL is refused. -/
def convertNumber (t : DataType) (w : Nat) (typeName : String) (v : Value) :
    Option (Except Fault Value) :=
  if v.isNull then some (.ok (ofInteger t t.nullNumber))
  else
    match v.dataType with
    | .tinyint | .smallint | .integer | .bigint =>
        if t.width < v.dataType.width ∧ ¬ t.InRange v.number then
          some (.error (.raised "Numeric value out of range."))
        else some (.ok (ofInteger t v.number))
    | .decimal => some (decimals.convert t v)
    | .varchar => some do
        let n ← stoll w typeName (← v.toStdString)
        if wrap t.width n ≤ t.nullNumber then throw (.raised "Numeric value out of range.")
        return ofInteger t n
    | .boolean | .timestamp => none

def castAsBigInt (v : Value) : Except Fault Value :=
  coerce decimals .bigint v (convertNumber decimals .bigint 64 "bigint" v)

def castAsInteger (v : Value) : Except Fault Value :=
  coerce decimals .integer v (convertNumber decimals .integer 32 "integer" v)

def castAsSmallInt (v : Value) : Except Fault Value :=
  coerce decimals .smallint v (convertNumber decimals .smallint 32 "smallint" v)

def castAsTinyInt (v : Value) : Except Fault Value :=
  coerce decimals .tinyint v (convertNumber decimals .tinyint 32 "tinyint" v)

/-! ## Strings and truth values -/

def castAsDecimal (v : Value) : Except Fault Value :=
  coerce decimals .decimal v
    (if v.isNull then some (.ok (ofDouble .decimal 0xFFEFFFFFFFFFFFFF#64))
    else
      match v.dataType with
      | .tinyint | .smallint | .integer | .bigint =>
          some (.ok (ofDouble .decimal (decimals.ofInt v.number)))
      | .decimal => some (.ok (ofDouble .decimal (v.getAs 64)))
      | .varchar => some (decimals.convert .decimal v)
      | .boolean | .timestamp => none)

/-- `get_varchar_value(value.to_string().c_str(), false)`: the string is gone when the value has been
built, and no character can be read through its pointer. -/
def castAsVarchar (v : Value) : Except Fault Value :=
  coerce decimals .varchar v
    (if v.isNull then some (.ok (null .varchar))
    else
      match v.dataType with
      | .timestamp => none
      | t => some do
          let text ← toStringBy decimals t v
          return { null .varchar with len := ((chars text).takeWhile (· ≠ 0)).length + 1 })

def toLower (b : UInt8) : UInt8 := if 65 ≤ b ∧ b ≤ 90 then b + 32 else b

def castAsBoolean (v : Value) : Except Fault Value :=
  coerce decimals .boolean v
    (if v.isNull then some (.ok (ofInt8 .boolean 0x80#8))
    else
      match v.dataType with
      | .boolean => some (.ok (ofInt8 .boolean (v.getAs 8)))
      | .varchar => some do
          let str := (← v.toStdString).map toLower
          if ["true", "1", "t"].any fun s => str == chars s then return ofInt8 .boolean 1#8
          if ["false", "0", "f"].any fun s => str == chars s then return ofInt8 .boolean 0#8
          throw (.raised "Boolean value format error.")
      | _ => none)

/-! ## Timestamps -/

/-- The constructor of `BIGINT` is the one that fits. -/
def getTimestampValue (value : BitVec 64) : Value := ofInt64 .timestamp value

/-- The form without microseconds gets them. -/
def expanded (str : List UInt8) : List UInt8 :=
  if str.length = 22 then str.take 19 ++ [46, 48, 48, 48, 48, 48, 48] ++ (str.drop 19).take 3
  else str

/-- `is_digit`. -/
def digitPlaces : List Bool :=
  [true, true, true, true, false, true, true, false, true, true, false, true, true, false, true,
    true, false, true, true, false, true, true, true, true, true, true, false, true, true]

/-- The form is `yyyy-mm-dd hh:mm:ss.uuuuuu+zz`, or with `-` at the end. -/
def wellFormed (str : List UInt8) : Bool :=
  str.length = 29 && str[10]? == some ' '.toUInt8 && str[4]? == some '-'.toUInt8 &&
    str[7]? == some '-'.toUInt8 && str[13]? == some ':'.toUInt8 &&
    str[16]? == some ':'.toUInt8 && str[19]? == some '.'.toUInt8 &&
    (str[26]? == some '+'.toUInt8 || str[26]? == some '-'.toUInt8) &&
    (str.zip digitPlaces).all fun p => !p.2 || isDigit p.1

/-- The number `sscanf` reads in the `n` places from `i` on. -/
def numberAt (str : List UInt8) (i n : Nat) : Nat := numberOf ((str.drop i).take n)

/-- `%3d`: a sign and two digits. -/
def signedAt (str : List UInt8) (i : Nat) : Int :=
  if str[i]? = some '-'.toUInt8 then -(numberAt str (i + 1) 2 : Int) else numberAt str (i + 1) 2

/-- `sscanf` of a well-formed string, where all eight numbers are found. -/
def scan (str : List UInt8) : TimestampFields where
  year := numberAt str 0 4
  month := numberAt str 5 2
  day := numberAt str 8 2
  hour := numberAt str 11 2
  min := numberAt str 14 2
  sec := numberAt str 17 2
  micro := numberAt str 20 6
  tz := signedAt str 26

def maxDay : List Nat := [0, 31, 28, 31, 30, 31, 30, 31, 31, 30, 31, 30, 31]

def maxDayLunar : List Nat := [0, 31, 29, 31, 30, 31, 30, 31, 31, 30, 31, 30, 31]

def isLeap (year : Nat) : Bool := (year % 4 = 0 && year % 100 ≠ 0) || year % 400 = 0

/-- The two tests of the date and the time. -/
def outOfRange (f : TimestampFields) : Bool :=
  9999 < f.year || 12 < f.month || 31 < f.day || 23 < f.hour || 59 < f.min || 59 < f.sec ||
    999999 < f.micro || f.day = 0 || f.month = 0 ||
    (if isLeap f.year then maxDayLunar else maxDay).getD f.month 0 < f.day

/-- `uint32_t timezone = tz + 12`. -/
def timezone (tz : Int) : BitVec 32 := BitVec.ofInt 32 (tz + 12)

/-- The chain of additions and multiplications. -/
def pack (f : TimestampFields) : BitVec 64 :=
  let res := BitVec.ofNat 64 f.month
  let res := res * 32#64 + BitVec.ofNat 64 f.day
  let res := res * 27#64 + (timezone f.tz).setWidth 64
  let res := res * 10000#64 + BitVec.ofNat 64 f.year
  let res := res * 100000#64 + BitVec.ofNat 64 (f.hour * 3600 + f.min * 60 + f.sec)
  res * 1000000#64 + BitVec.ofNat 64 f.micro

/-- The test of the time zone asks for the number before 12 is added. -/
def parseTimestamp (str : List UInt8) : Except Fault Value :=
  if !wellFormed (expanded str) then .error (.raised "Timestamp format error.")
  else if outOfRange (scan (expanded str)) then .error (.raised "Timestamp value out of range.")
  else if 26 < (scan (expanded str)).tz then .error (.raised "Timestamp format error.")
  else .ok (getTimestampValue (pack (scan (expanded str))))

/-- `TURTLE_TIMESTAMP_NULL` goes through the constructor of `BIGINT`, where it is -1 and not NULL. -/
def castAsTimestamp (v : Value) : Except Fault Value :=
  coerce decimals .timestamp v
    (if v.isNull then some (.ok (getTimestampValue 0xFFFFFFFFFFFFFFFF#64))
    else
      match v.dataType with
      | .timestamp => some (.ok (getTimestampValue (v.getAs 64)))
      | .varchar => some do parseTimestamp (← v.toStdString)
      | _ => none)

def castAs (v : Value) (t : DataType) : Except Fault Value :=
  match t with
  | .boolean => castAsBoolean decimals v
  | .tinyint => castAsTinyInt decimals v
  | .smallint => castAsSmallInt decimals v
  | .integer => castAsInteger decimals v
  | .bigint => castAsBigInt decimals v
  | .decimal => castAsDecimal decimals v
  | .varchar => castAsVarchar decimals v
  | .timestamp => castAsTimestamp decimals v

end ValueFactory

end TurtleDb.Datatype
