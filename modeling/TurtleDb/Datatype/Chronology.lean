import TurtleDb.Datatype.TimestampText

/-!
# The order of the dates

A timestamp is packed with the month and the day in front of the year, and the order of timestamps is
that of the packed numbers. Two dates of one time zone are in their order where this makes no
difference.
-/

namespace TurtleDb.Datatype.ValueFactory

open TurtleDb.Lib Value

variable {decimals : Decimals} {str str' : List UInt8} {v v' t t' : Value} {f g : TimestampFields}

/-- `f` is earlier than `g`, in one time zone. -/
def Precedes (f g : TimestampFields) : Prop :=
  [f.year, f.month, f.day, f.hour, f.min, f.sec, f.micro] <
    [g.year, g.month, g.day, g.hour, g.min, g.sec, g.micro]

instance (f g : TimestampFields) : Decidable (Precedes f g) := inferInstanceAs (Decidable (_ < _))

/-- The day of the year, by month and day. -/
def date (f : TimestampFields) : List Nat := [f.month, f.day]

def time (f : TimestampFields) : List Nat := [f.hour, f.min, f.sec, f.micro]

/-! ## The two orders -/

theorem precedes_iff : Precedes f g ↔ f.year < g.year ∨
    f.year = g.year ∧ (date f < date g ∨ date f = date g ∧ time f < time g) := by
  simp only [Precedes, date, time, List.cons_lt_cons_iff, List.cons.injEq, List.not_lt_nil,
    and_true, and_false, or_false, and_or_left, or_assoc, and_assoc]

theorem seconds_eq (f : TimestampFields) :
    seconds f = MixedRadix.encode [60, 60] f.hour [f.min, f.sec] := by
  simp only [seconds, MixedRadix.encode]
  omega

theorem seconds_micro_lt (hf : InRange f) (hg : InRange g) :
    [seconds f, f.micro] < [seconds g, g.micro] ↔ time f < time g := by
  have hdf : MixedRadix.Digits [60, 60] [f.min, f.sec] :=
    .cons (Nat.lt_succ_of_le hf.min) (.cons (Nat.lt_succ_of_le hf.sec) .nil)
  have hdg : MixedRadix.Digits [60, 60] [g.min, g.sec] :=
    .cons (Nat.lt_succ_of_le hg.min) (.cons (Nat.lt_succ_of_le hg.sec) .nil)
  have hlt := MixedRadix.encode_lt_encode (n := f.hour) (m := g.hour) hdf hdg
  have heq := MixedRadix.encode_inj (n := f.hour) (m := g.hour) hdf hdg
  rw [← seconds_eq, ← seconds_eq] at hlt heq
  rw [List.cons_lt_cons_iff, hlt, heq]
  simp only [time, List.cons_lt_cons_iff, List.cons.injEq, List.not_lt_nil, and_true, and_false,
    or_false, and_or_left, or_assoc, and_assoc]

/-- Behind the day comes the year. -/
theorem packedWith_lt_packedWith (hf : InRange f) (hg : InRange g) :
    packedWith 0 f < packedWith 0 g ↔ date f < date g ∨
      date f = date g ∧ (f.year < g.year ∨ f.year = g.year ∧ time f < time g) := by
  have hz : 0 < 27 := by decide
  have hlt := MixedRadix.encode_lt_encode (n := f.month) (m := g.month) (hf.digits hz)
    (hg.digits hz)
  rw [packedWith, packedWith, hlt, ← seconds_micro_lt hf hg]
  simp only [date, List.cons_lt_cons_iff, List.cons.injEq, List.not_lt_nil, and_true, and_false,
    or_false, Nat.lt_irrefl, false_or, true_and, and_or_left, or_assoc, and_assoc]

/-! ## The packed numbers -/

/-- What the time zone adds, in 64 bits. -/
def zonePart (tz : Int) : Nat := (timezone tz).toNat * 1000000000000000 % 2 ^ 64

/-- The sum leaves the 64 bits. -/
def Wraps (f : TimestampFields) : Prop := 2 ^ 64 ≤ zonePart f.tz + packedWith 0 f

instance (f : TimestampFields) : Decidable (Wraps f) := inferInstanceAs (Decidable (_ ≤ _))

/-- The sum is the number that stands for NULL. -/
def FallsOnNull (f : TimestampFields) : Prop := (zonePart f.tz + packedWith 0 f) % 2 ^ 64 = 2 ^ 63

instance (f : TimestampFields) : Decidable (FallsOnNull f) := inferInstanceAs (Decidable (_ = _))

/-- Month and day say the same as the year, or one of them says nothing. If one sum of two leaves the
64 bits, it has to be that of the earlier year. -/
def InOrder (f g : TimestampFields) : Prop :=
  if FallsOnNull f ∨ FallsOnNull g then ¬ Precedes f g
  else if Wraps f ↔ Wraps g then
    date f = date g ∨ f.year = g.year ∨ (date f < date g ↔ f.year < g.year)
  else Wraps f ∧ f.year < g.year ∨ Wraps g ∧ g.year < f.year

theorem toNat_pack_eq (f : TimestampFields) :
    (pack f).toNat = (zonePart f.tz + packedWith 0 f) % 2 ^ 64 := by
  rw [toNat_pack, packedWith_eq, zonePart, Nat.mod_add_mod]

theorem holds_lt_iff (hf : ¬ FallsOnNull f) (hg : ¬ FallsOnNull g) :
    Holds .lt (getTimestampValue (pack f)) (getTimestampValue (pack g)) ↔
      (pack f).toNat < (pack g).toNat := by
  have hnull : ∀ {f}, ¬ FallsOnNull f → (getTimestampValue (pack f)).isNull = false := by
    intro f hf
    rw [isNull_getTimestampValue, toNat_pack_eq]
    exact decide_eq_false hf
  rw [holds_packed (by decide) rfl rfl (hnull hf) (hnull hg), packed_getTimestampValue,
    packed_getTimestampValue, CmpOp.apply, decide_eq_true_eq]

theorem not_holds_of_fallsOnNull (h : FallsOnNull f ∨ FallsOnNull g) :
    ¬ Holds .lt (getTimestampValue (pack f)) (getTimestampValue (pack g)) := by
  intro hlt
  obtain ⟨hf, hg⟩ := hlt.notNull (by decide) rfl rfl
  rw [isNull_getTimestampValue, toNat_pack_eq, decide_eq_false_iff_not] at hf hg
  exact h.elim hf hg

/-- Two sums that both leave the 64 bits, or both do not, are in the order of what is added. -/
theorem toNat_pack_lt_of_wraps_iff (hf : InRange f) (hg : InRange g) (htz : f.tz = g.tz)
    (h : Wraps f ↔ Wraps g) :
    (pack f).toNat < (pack g).toNat ↔ packedWith 0 f < packedWith 0 g := by
  have hlf := packedWith_zero_lt hf
  have hlg := packedWith_zero_lt hg
  have hzone : zonePart g.tz < 2 ^ 64 := Nat.mod_lt _ (by decide)
  rw [toNat_pack_eq, toNat_pack_eq, htz]
  rw [Wraps, Wraps, htz] at h
  omega

/-- A sum that leaves the 64 bits is below every one that does not. -/
theorem toNat_pack_lt_of_wraps (hf : InRange f) (htz : f.tz = g.tz) (hwf : Wraps f)
    (hwg : ¬ Wraps g) :
    (pack f).toNat < (pack g).toNat ∧ packedWith 0 g < packedWith 0 f := by
  have hlf := packedWith_zero_lt hf
  have hzone : zonePart g.tz < 2 ^ 64 := Nat.mod_lt _ (by decide)
  rw [toNat_pack_eq, toNat_pack_eq, htz]
  rw [Wraps, htz] at hwf
  rw [Wraps] at hwg
  omega

/-! ## When the order is chronological -/

theorem packedWith_precedes_iff (hf : InRange f) (hg : InRange g) :
    (packedWith 0 f < packedWith 0 g ↔ Precedes f g) ↔
      date f = date g ∨ f.year = g.year ∨ (date f < date g ↔ f.year < g.year) := by
  rw [packedWith_lt_packedWith hf hg, precedes_iff]
  exact MixedRadix.swapped_iff

theorem precedes_of_packedWith_lt (hf : InRange f) (hg : InRange g)
    (h : packedWith 0 g < packedWith 0 f) : Precedes f g ↔ f.year < g.year := by
  rw [packedWith_lt_packedWith hg hf] at h
  rw [precedes_iff]
  refine ⟨fun hp => hp.elim id fun ⟨hy, hp⟩ => ?_, .inl⟩
  rcases h with h | ⟨hd, h | ⟨-, h⟩⟩
  · rcases hp with hp | ⟨hp, -⟩
    · exact absurd hp h.not_gt
    · exact absurd h (hp ▸ lt_irrefl _)
  · omega
  · rcases hp with hp | ⟨-, hp⟩
    · exact absurd hp (hd ▸ lt_irrefl _)
    · exact absurd hp h.not_gt

theorem not_precedes_iff (h : packedWith 0 f ≠ packedWith 0 g) :
    ¬ Precedes f g ↔ Precedes g f := by
  rw [Precedes, Precedes, not_lt, le_iff_lt_or_eq]
  refine or_iff_left fun heq => h ?_
  simp only [List.cons.injEq, and_true] at heq
  obtain ⟨hy, hm, hd, hh, hmin, hs, hmic⟩ := heq
  simp only [packedWith, seconds, hy, hm, hd, hh, hmin, hs, hmic]

theorem holds_lt_precedes_iff (hf : InRange f) (hg : InRange g) (htz : f.tz = g.tz) :
    (Holds .lt (getTimestampValue (pack f)) (getTimestampValue (pack g)) ↔ Precedes f g) ↔
      InOrder f g := by
  rw [InOrder]
  by_cases hnull : FallsOnNull f ∨ FallsOnNull g
  · rw [if_pos hnull, iff_false_left (not_holds_of_fallsOnNull hnull)]
  · rw [if_neg hnull, holds_lt_iff (fun h => hnull (.inl h)) fun h => hnull (.inr h)]
    by_cases hwraps : Wraps f ↔ Wraps g
    · rw [if_pos hwraps, toNat_pack_lt_of_wraps_iff hf hg htz hwraps,
        packedWith_precedes_iff hf hg]
    · rw [if_neg hwraps]
      by_cases hwf : Wraps f
      · have hwg : ¬ Wraps g := fun h => hwraps (iff_of_true hwf h)
        obtain ⟨hlt, hbelow⟩ := toNat_pack_lt_of_wraps hf htz hwf hwg
        rw [precedes_of_packedWith_lt hf hg hbelow]
        simp [hlt, hwf, hwg]
      · have hwg : Wraps g := by_contra fun h => hwraps (iff_of_false hwf h)
        obtain ⟨hlt, hbelow⟩ := toNat_pack_lt_of_wraps hg htz.symm hwg hwf
        have hprec := precedes_of_packedWith_lt hg hf hbelow
        rw [← not_precedes_iff hbelow.ne] at hprec
        simp [hlt.not_gt, hwf, hwg, hprec]

/-- The order of two timestamps of one time zone is that of what their strings state exactly if month
and day are in order with the year. -/
theorem chronological_iff (decimals : Decimals) (v v' t t' : Value) (str str' : List UInt8)
    (h : Accepted decimals v str t) (h' : Accepted decimals v' str' t')
    (htz : (TimestampFields.stated str).tz = (TimestampFields.stated str').tz) :
    (compareLessThan t t' = .ok .cmpTrue ↔ Precedes (.stated str) (.stated str')) ↔
      InOrder (.stated str) (.stated str') := by
  obtain ⟨hrange, rfl⟩ := h.eq
  obtain ⟨hrange', rfl⟩ := h'.eq
  exact holds_lt_precedes_iff hrange hrange' htz

def newYear : List UInt8 := chars "2021-01-01 00:00:00+00"

def newYearsEve : List UInt8 := chars "2021-12-31 23:59:59.999999+00"

theorem chronological_iff_newYear :
    compareLessThan (getTimestampValue (pack (.stated newYear)))
      (getTimestampValue (pack (.stated newYearsEve))) = .ok .cmpTrue ↔
        Precedes (.stated newYear) (.stated newYearsEve) :=
  (chronological_iff .refusing (ofChars .varchar newYear) (ofChars .varchar newYearsEve) _ _ newYear
    newYearsEve ⟨rfl, by decide +kernel, by decide +kernel, by decide +kernel⟩
    ⟨rfl, by decide +kernel, by decide +kernel, by decide +kernel⟩ (by decide +kernel)).mpr
    (by unfold InOrder; decide +kernel)

def lastDecember : List UInt8 := chars "2020-12-01 00:00:00+00"

/-- December 2020 is before January 2021 and packed to the larger number. -/
theorem lastDecember_not_chronological : ¬ ∀ (decimals : Decimals) (v v' t t' : Value)
    (str str' : List UInt8), Accepted decimals v str t → Accepted decimals v' str' t' →
      (TimestampFields.stated str).tz = (TimestampFields.stated str').tz →
        (compareLessThan t t' = .ok .cmpTrue ↔ Precedes (.stated str) (.stated str')) := by
  intro h
  have hdec : Accepted .refusing (ofChars .varchar lastDecember) lastDecember
      (getTimestampValue (pack (.stated lastDecember))) :=
    ⟨rfl, by decide +kernel, by decide +kernel, by decide +kernel⟩
  have hjan : Accepted .refusing (ofChars .varchar newYear) newYear
      (getTimestampValue (pack (.stated newYear))) :=
    ⟨rfl, by decide +kernel, by decide +kernel, by decide +kernel⟩
  have hlt := (h _ _ _ _ _ _ _ hdec hjan (by decide +kernel)).mpr (by decide +kernel)
  exact absurd hlt (by decide +kernel)

end TurtleDb.Datatype.ValueFactory
