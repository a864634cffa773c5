import TurtleDb.Datatype.TimestampOrder
import TurtleDb.Datatype.ValueFactory
import TurtleDb.Lib.MixedRadix

/-!
# Timestamps and the strings they are read from

`cast_as_timestamp` packs what a string states, `to_string` unpacks it. One digit of the packed number
has room for the time zones from -12 to 14; the parser lets others through, and does not know that one
of the numbers stands for NULL.
-/

namespace TurtleDb.Datatype

open TurtleDb.Lib Value

/-! ## What a string states -/

/-- The fields as they stand in the string. The form of 22 characters has no microseconds. -/
def TimestampFields.stated (str : List UInt8) : TimestampFields where
  year := ValueFactory.numberAt str 0 4
  month := ValueFactory.numberAt str 5 2
  day := ValueFactory.numberAt str 8 2
  hour := ValueFactory.numberAt str 11 2
  min := ValueFactory.numberAt str 14 2
  sec := ValueFactory.numberAt str 17 2
  micro := if str.length = 22 then 0 else ValueFactory.numberAt str 20 6
  tz := ValueFactory.signedAt str (str.length - 3)

/-- What `to_string` of a timestamp unpacks. -/
def Value.timestampFields (v : Value) : Option TimestampFields :=
  if v.isNull then none else some (.ofNumber v.packed)

namespace ValueFactory

variable {decimals : Decimals} {str : List UInt8} {u v t : Value} {f g : TimestampFields}

/-- `v` is a string that `cast_as_timestamp` makes the timestamp `t` of. -/
structure Accepted (decimals : Decimals) (v : Value) (str : List UInt8) (t : Value) : Prop where
  dataType : v.dataType = .varchar
  notNull : v.isNull = false
  string : v.toStdString = .ok str
  cast : castAsTimestamp decimals v = .ok t

theorem numberAt_append_left {a b : List UInt8} {i n : Nat} (h : i + n ≤ a.length) :
    numberAt (a ++ b) i n = numberAt a i n := by
  rw [numberAt, numberAt, List.drop_append_of_le_length (by omega),
    List.take_append_of_le_length (by rw [List.length_drop]; omega)]

theorem numberAt_append_right {a b : List UInt8} {i n : Nat} (h : a.length ≤ i) :
    numberAt (a ++ b) i n = numberAt b (i - a.length) n := by
  rw [numberAt, numberAt, List.drop_append, List.drop_eq_nil_of_le h, List.nil_append]

theorem numberAt_take {i n k : Nat} (h : i + n ≤ k) :
    numberAt (str.take k) i n = numberAt str i n := by
  rw [numberAt, numberAt, List.drop_take, List.take_take, Nat.min_eq_left (by omega)]

theorem numberAt_drop {i n k : Nat} : numberAt (str.drop k) i n = numberAt str (k + i) n := by
  rw [numberAt, numberAt, List.drop_drop]

/-- The expanded string states the same. -/
theorem scan_expanded (h : str.length = 22 ∨ str.length = 29) :
    scan (expanded str) = .stated str := by
  rcases h with h | h
  · have hlen : (str.take 19).length = 19 := by rw [List.length_take]; omega
    have hfront : ∀ {i n}, i + n ≤ 19 → numberAt (expanded str) i n = numberAt str i n := by
      intro i n hin
      rw [expanded, if_pos h, List.append_assoc, numberAt_append_left (by omega),
        numberAt_take hin]
    have hmicro : numberAt (expanded str) 20 6 = 0 := by
      rw [expanded, if_pos h, numberAt_append_left (by simp [hlen]),
        numberAt_append_right (by omega), hlen]
      decide
    have hsign : (expanded str)[26]? = str[19]? := by
      rw [expanded, if_pos h, List.getElem?_append_right (by simp [hlen])]
      simp [hlen]
    have hzone : numberAt (expanded str) 27 2 = numberAt str 20 2 := by
      rw [expanded, if_pos h, numberAt_append_right (by simp [hlen])]
      simp only [List.length_append, hlen, List.length_cons, List.length_nil]
      rw [numberAt_take (by omega), numberAt_drop]
    simp only [scan, TimestampFields.stated, signedAt, h, hmicro, hsign, hzone, if_true,
      hfront (i := 0) (n := 4) (by omega), hfront (i := 5) (n := 2) (by omega),
      hfront (i := 8) (n := 2) (by omega), hfront (i := 11) (n := 2) (by omega),
      hfront (i := 14) (n := 2) (by omega), hfront (i := 17) (n := 2) (by omega)]
  · have hne : ¬ str.length = 22 := by omega
    simp [scan, TimestampFields.stated, expanded, h]

/-! ## Accepted strings -/

/-- The fields are in the ranges the parser asks for. -/
structure InRange (f : TimestampFields) : Prop where
  year : f.year ≤ 9999
  month : f.month ≤ 12
  day : f.day ≤ 31
  hour : f.hour ≤ 23
  min : f.min ≤ 59
  sec : f.sec ≤ 59
  micro : f.micro ≤ 999999

theorem inRange_of_not_outOfRange (h : outOfRange f = false) : InRange f := by
  simp only [outOfRange, Bool.or_eq_false_iff, decide_eq_false_iff_not, Nat.not_lt] at h
  exact ⟨h.1.1.1.1.1.1.1.1.1, h.1.1.1.1.1.1.1.1.2, h.1.1.1.1.1.1.1.2, h.1.1.1.1.1.1.2,
    h.1.1.1.1.1.2, h.1.1.1.1.2, h.1.1.1.2⟩

theorem length_of_wellFormed (h : wellFormed (expanded str) = true) :
    str.length = 22 ∨ str.length = 29 := by
  have hlen : (expanded str).length = 29 := by
    simp only [wellFormed, Bool.and_eq_true, decide_eq_true_eq] at h
    exact h.1.1.1.1.1.1.1.1
  by_cases h22 : str.length = 22
  · exact .inl h22
  · rw [expanded, if_neg h22] at hlen
    exact .inr hlen

theorem parseTimestamp_ok (h : parseTimestamp str = .ok t) :
    InRange (.stated str) ∧ t = getTimestampValue (pack (.stated str)) := by
  unfold parseTimestamp at h
  split at h
  · cases h
  next hform =>
    rw [scan_expanded (length_of_wellFormed (by simpa using hform))] at h
    split at h
    · cases h
    next hrange =>
      split at h
      · cases h
      · exact ⟨inRange_of_not_outOfRange (by simpa using hrange), (Except.ok.inj h).symm⟩

theorem castAsTimestamp_varchar (ht : v.dataType = .varchar) (hn : v.isNull = false)
    (hs : v.toStdString = .ok str) : castAsTimestamp decimals v = parseTimestamp str := by
  simp only [castAsTimestamp, coerce, ht, hn, hs, ok_bind]
  rfl

theorem Accepted.eq (h : Accepted decimals v str t) :
    InRange (.stated str) ∧ t = getTimestampValue (pack (.stated str)) :=
  parseTimestamp_ok (castAsTimestamp_varchar h.dataType h.notNull h.string ▸ h.cast)

/-! ## Packing -/

/-- The radices behind the month. -/
def radices : List Nat := [32, 27, 10000, 100000, 1000000]

def seconds (f : TimestampFields) : Nat := f.hour * 3600 + f.min * 60 + f.sec

/-- The number the fields stand for with `zone` in place of the time zone. -/
def packedWith (zone : Nat) (f : TimestampFields) : Nat :=
  MixedRadix.encode radices f.month [f.day, zone, f.year, seconds f, f.micro]

theorem toNat_pack (f : TimestampFields) :
    (pack f).toNat = packedWith (timezone f.tz).toNat f % 2 ^ 64 := by
  have h : pack f = BitVec.ofNat 64 (packedWith (timezone f.tz).toNat f) := by
    simp only [pack, packedWith, radices, MixedRadix.encode, seconds, BitVec.ofNat_add,
      BitVec.ofNat_mul, BitVec.ofNat_toNat]
  rw [h, BitVec.toNat_ofNat]

theorem packedWith_eq (zone : Nat) (f : TimestampFields) :
    packedWith zone f = zone * 1000000000000000 + packedWith 0 f := by
  simp only [packedWith, radices, MixedRadix.encode]
  omega

theorem InRange.digits (h : InRange f) {zone : Nat} (hz : zone < 27) :
    MixedRadix.Digits radices [f.day, zone, f.year, seconds f, f.micro] := by
  obtain ⟨hy, -, hd, hh, hmin, hs, hmic⟩ := h
  have hsec : seconds f < 100000 := by
    rw [seconds]
    omega
  exact .cons (by omega) (.cons hz (.cons (by omega) (.cons hsec (.cons (by omega) .nil))))

/-- The fields come out again if the time zone fits into its digit. -/
theorem ofNumber_packedWith (h : InRange f) (hlo : -12 ≤ f.tz) (hhi : f.tz ≤ 14) :
    TimestampFields.ofNumber (packedWith (f.tz + 12).toNat f) = f := by
  have hdec : MixedRadix.decode radices (packedWith (f.tz + 12).toNat f) =
      [f.month, f.day, (f.tz + 12).toNat, f.year, seconds f, f.micro] :=
    MixedRadix.decode_encode (h.digits (by omega))
  simp only [radices, MixedRadix.decode, List.cons.injEq, and_true] at hdec
  obtain ⟨hmonth, hday, hzone, hyear, hsec, hmicro⟩ := hdec
  obtain ⟨-, -, -, hh, hmin, hs, -⟩ := h
  have hhour : seconds f / 60 / 60 % 24 = f.hour := by rw [seconds]; omega
  have hminute : seconds f / 60 % 60 = f.min := by rw [seconds]; omega
  have hsecond : seconds f % 60 = f.sec := by rw [seconds]; omega
  have htz : (((f.tz + 12).toNat : Nat) : Int) - 12 = f.tz := by omega
  rw [TimestampFields.ofNumber, hmonth, hday, hzone, hyear, hsec, hmicro, hhour, hminute, hsecond,
    htz]

theorem toNat_timezone {tz : Int} (hlo : -12 ≤ tz) (hhi : tz ≤ 26) :
    (timezone tz).toNat = (tz + 12).toNat := by
  rw [timezone, BitVec.toNat_ofInt, Int.emod_eq_of_lt (by omega) (by omega)]

theorem packedWith_zero_lt (h : InRange f) : packedWith 0 f < 11206000000000000000 := by
  obtain ⟨hy, hm, hd, hh, hmin, hs, hmic⟩ := h
  simp only [packedWith, radices, MixedRadix.encode, seconds]
  omega

/-- Nothing overflows if the time zone fits into its digit. -/
theorem toNat_pack_of_fits (h : InRange f) (hlo : -12 ≤ f.tz) (hhi : f.tz ≤ 14) :
    (pack f).toNat = packedWith (f.tz + 12).toNat f := by
  have hlt := packedWith_zero_lt h
  have heq := packedWith_eq (f.tz + 12).toNat f
  rw [toNat_pack, toNat_timezone hlo (by omega)]
  exact Nat.mod_eq_of_lt (by omega)

/-! ## Unpacking -/

theorem packed_getTimestampValue (w : BitVec 64) : (getTimestampValue w).packed = w.toNat := by
  simp [packed, getTimestampValue, ofInt64, ofBits, getAs]

theorem isNull_getTimestampValue (w : BitVec 64) :
    (getTimestampValue w).isNull = decide (w.toNat = 2 ^ 63) := by
  have hiff : w = 0x8000000000000000#64 ↔ w.toNat = 2 ^ 63 := by
    rw [← BitVec.toNat_inj]
    rfl
  by_cases h : w.toNat = 2 ^ 63
  · rw [decide_eq_true h, getTimestampValue, hiff.mpr h]
    rfl
  · rw [decide_eq_false h, getTimestampValue, ofInt64, ofBits, if_neg (mt hiff.mp h)]
    rfl

/-- The time zone has room in its digit, and the fields are not those of the number that stands for
NULL. -/
def Representable (f : TimestampFields) : Prop :=
  -12 ≤ f.tz ∧ f.tz ≤ 14 ∧ f ≠ .ofNumber (2 ^ 63)

theorem tz_ofNumber (n : Nat) :
    -12 ≤ (TimestampFields.ofNumber n).tz ∧ (TimestampFields.ofNumber n).tz ≤ 14 := by
  rw [TimestampFields.ofNumber]
  constructor
  · dsimp only
    omega
  · dsimp only
    omega

theorem timestampFields_pack (h : InRange f) :
    (getTimestampValue (pack f)).timestampFields = some f ↔ Representable f := by
  have hpack : Representable f → TimestampFields.ofNumber (pack f).toNat = f := by
    rintro ⟨hlo, hhi, -⟩
    rw [toNat_pack_of_fits h hlo hhi, ofNumber_packedWith h hlo hhi]
  rw [timestampFields, isNull_getTimestampValue, packed_getTimestampValue]
  by_cases hnull : (pack f).toNat = 2 ^ 63
  · rw [decide_eq_true hnull, if_pos rfl]
    refine ⟨nofun, fun hf => ?_⟩
    exact absurd (by rw [← hnull, hpack hf]) hf.2.2
  · rw [decide_eq_false hnull, if_neg Bool.false_ne_true, Option.some.injEq]
    refine ⟨fun hf => ?_, hpack⟩
    obtain ⟨hlo, hhi⟩ := tz_ofNumber (pack f).toNat
    rw [hf] at hlo hhi
    refine ⟨hlo, hhi, fun hne => hnull ?_⟩
    -- 2 ^ 63 is the packing of its own fields
    rw [toNat_pack_of_fits h hlo hhi, hne]
    decide +kernel

theorem timestampToString_of_fields (h : t.timestampFields = some f) :
    timestampToString t = f.text := by
  rw [timestampFields] at h
  rw [timestampToString]
  split at h
  · cases h
  next hn =>
    rw [if_neg hn, ← Option.some.inj h]
    rfl

theorem Accepted.timestampFields_iff (h : Accepted decimals v str t) :
    t.timestampFields = some (.stated str) ↔ Representable (.stated str) := by
  obtain ⟨hrange, rfl⟩ := h.eq
  exact timestampFields_pack hrange

/-- `to_string` unpacks what an accepted string states exactly if the fields are representable. Two
such strings with equal values state the same. -/
theorem round_trip_iff (decimals : Decimals) (v t : Value) (str : List UInt8)
    (h : Accepted decimals v str t) :
    (t.timestampFields = some (.stated str) ∧
        timestampToString t = (TimestampFields.stated str).text ↔
      Representable (.stated str)) ∧
    ∀ v' t' str', Accepted decimals v' str' t' → Representable (.stated str) →
      Representable (.stated str') → t.packed = t'.packed →
        TimestampFields.stated str = .stated str' := by
  refine ⟨?_, fun v' t' str' h' hf hf' heq => ?_⟩
  · rw [← h.timestampFields_iff]
    exact ⟨And.left, fun hfields => ⟨hfields, timestampToString_of_fields hfields⟩⟩
  · have hunpack : ∀ {u : Value} {f}, u.timestampFields = some f → .ofNumber u.packed = f := by
      intro u f hu
      rw [timestampFields] at hu
      split at hu
      · cases hu
      · exact Option.some.inj hu
    rw [← hunpack (h.timestampFields_iff.mpr hf), heq, hunpack (h'.timestampFields_iff.mpr hf')]

def leapDay : List UInt8 := chars "2020-02-29 23:59:59.123456-08"

theorem round_trip_iff_leapDay : (getTimestampValue (pack (.stated leapDay))).timestampFields =
    some ⟨2020, 2, 29, 23, 59, 59, 123456, -8⟩ :=
  ((round_trip_iff .refusing (ofChars .varchar leapDay) _ leapDay
    ⟨rfl, by decide +kernel, by decide +kernel, by decide +kernel⟩).1.mpr
      (by rw [Representable]; decide +kernel)).1

/-- Twenty hours east: a day later in the zone seven hours west. -/
def farEast : List UInt8 := chars "2020-01-01 00:00:00+20"

theorem farEast_not_round_trip : ¬ ∀ (decimals : Decimals) (v t : Value) (str : List UInt8),
    Accepted decimals v str t → t.timestampFields = some (.stated str) := by
  intro h
  have hacc : Accepted .refusing (ofChars .varchar farEast) farEast
      (getTimestampValue (pack (.stated farEast))) :=
    ⟨rfl, by decide +kernel, by decide +kernel, by decide +kernel⟩
  exact absurd (h _ _ _ _ hacc) (by decide +kernel)

end ValueFactory

end TurtleDb.Datatype
