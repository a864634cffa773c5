import TurtleDb.Datatype.Arithmetic

/-!
# What copies, minima and maxima keep

`copy` builds a new value from the payload: the copy of a number is NULL exactly if the number is
the one that stands for NULL, and that of a string takes its length prefix for four characters more.
`min` and `max` return copies.
-/

namespace TurtleDb.Datatype.Value

open TurtleDb.Lib

/-- `c` is of the type of `v`, NULL as `v` is, and otherwise of the same payload. -/
structure SameAs (v c : Value) : Prop where
  dataType : c.dataType = v.dataType
  isNull : c.isNull = v.isNull
  payload : v.isNull = false → c.payload = v.payload
  len : v.isNull = false → v.dataType = .varchar → c.len = v.len

/-- The copy is the value. -/
def CopiesWell (v : Value) : Prop := ∃ c, v.copy = .ok c ∧ v.SameAs c

/-- The minimum and the maximum are one of the values each, and bound both. -/
structure BoundsWell (a b : Value) : Prop where
  min : ∃ m, a.min b = .ok m ∧ (a.SameAs m ∨ b.SameAs m) ∧ Holds .le m a ∧ Holds .le m b
  max : ∃ m, a.max b = .ok m ∧ (a.SameAs m ∨ b.SameAs m) ∧ Holds .le a m ∧ Holds .le b m

/-- The payload tells whether the value is NULL. -/
def TellsNull (v : Value) : Prop :=
  match v.dataType with
  | .timestamp => True
  | .varchar => v.isNull = true
  | _ => v.isNull = true ↔ v.number = v.dataType.nullNumber

variable {t : DataType} {x y : Int} {a b c m v : Value} {s : List UInt8}

/-! ## Numbers -/

theorem payload_ofInteger (ht : v.dataType ≠ .varchar) :
    (ofInteger v.dataType v.number).payload = v.payload := by
  have hbits : (ofInteger v.dataType v.number).bits =
      (v.bits.setWidth v.dataType.width).setWidth 64 := by
    change (BitVec.ofInt v.dataType.width v.number).setWidth 64 = _
    rw [number]
    exact congrArg _ (BitVec.ofInt_toInt (x := v.getAs v.dataType.width))
  have hdt : (ofInteger v.dataType v.number).dataType = v.dataType := rfl
  rw [payload, payload, hdt, if_neg ht, if_neg ht, hbits]
  refine leBytes_congr ?_
  have hpow : 256 ^ v.dataType.size = 2 ^ v.dataType.width := by
    rw [DataType.width, Nat.pow_mul]
  rw [hpow, BitVec.toNat_setWidth, BitVec.toNat_setWidth, Nat.mod_mod_of_dvd _ (Nat.pow_dvd_pow 2
    (width_le _)), Nat.mod_mod]

theorem copiesWell_of_number (hcopy : v.copy = .ok (ofInteger v.dataType v.number))
    (ht : v.dataType ≠ .varchar) :
    CopiesWell v ↔ (v.isNull = true ↔ v.number = v.dataType.nullNumber) := by
  have hnull := isNull_ofInteger (Carries.of_notNull (v := { v with len := 0 }) rfl rfl).bounds
  change (ofInteger v.dataType v.number).isNull = decide (v.number = v.dataType.nullNumber) at hnull
  constructor
  · rintro ⟨c, hc, hsame⟩
    rw [hcopy] at hc
    cases hc
    rw [← hsame.isNull, hnull, decide_eq_true_eq]
  · intro h
    refine ⟨_, hcopy, rfl, ?_, fun _ => payload_ofInteger ht, fun _ hv => absurd hv ht⟩
    rw [hnull, Bool.eq_iff_iff, decide_eq_true_eq, h]

/-! ## Strings -/

theorem sub32_add32 (n : Nat) : sub32 (add32 n 4) 4 = n % word32 := by
  simp only [sub32, add32, word32]
  omega

theorem add32_four_ne (n : Nat) : add32 n 4 ≠ n := by
  simp only [add32, word32]
  omega

/-- The copy of a string, if there is one, is of another length. -/
theorem len_copy (ht : v.dataType = .varchar) (hn : v.isNull = false) (hc : v.copy = .ok c) :
    c.len = add32 v.len 4 := by
  rw [copy, ht] at hc
  simp only [hn, Bool.false_eq_true, if_false, getData, ht, ok_bind] at hc
  obtain ⟨buf, hbuf, hc⟩ := bind_eq_ok.mp hc
  cases hc
  rw [fetch_eq_ok, Buffer.load_eq_some] at hbuf
  change buf.length = _
  rw [hbuf.2.1, storageSize, if_pos ht, hn]
  rfl

theorem not_sameAs_copy (ht : v.dataType = .varchar) (hn : v.isNull = false)
    (hc : v.copy = .ok c) : ¬ v.SameAs c := by
  intro h
  have hlen := h.len hn ht
  rw [len_copy ht hn hc] at hlen
  exact add32_four_ne _ hlen

theorem copiesWell_of_varchar (ht : v.dataType = .varchar) :
    CopiesWell v ↔ v.isNull = true := by
  constructor
  · rintro ⟨c, hc, hsame⟩
    by_contra hn
    exact not_sameAs_copy ht (Bool.not_eq_true _ ▸ hn) hc hsame
  · intro hn
    refine ⟨null .varchar, by rw [copy, ht]; simp [hn], ?_, ?_, ?_, ?_⟩
    · exact ht.symm
    · rw [isNull_null, hn]
    · intro h
      rw [hn] at h
      cases h
    · intro h
      rw [hn] at h
      cases h

theorem toStdString_eq_ok (ht : v.dataType = .varchar) (hn : v.isNull = false)
    (hs : v.toStdString = .ok s) : s = v.payload.take (v.len % word32) ∧
      s.length = v.len % word32 := by
  have hsize : sub32 v.storageSize 4 = v.len % word32 := by
    rw [storageSize, if_pos ht, hn, ← sub32_add32]
    rfl
  rw [toStdString, getData, ht] at hs
  simp only [ok_bind, hsize, fetch_eq_ok, Buffer.load_eq_some, Nat.zero_add] at hs
  obtain ⟨hle, hlen, hget⟩ := hs
  refine ⟨?_, hlen⟩
  rw [payload, if_pos ht, List.take_take, Nat.min_eq_left (Nat.mod_le _ _)]
  refine List.ext_getElem (by rw [hlen, List.length_take, Nat.min_eq_left hle]) fun k hk hk' => ?_
  have := hget k (hlen ▸ hk)
  rw [List.getD_eq_getElem _ _ hk, List.getD_eq_getElem _ _ (by omega)] at this
  rw [this, List.getElem_take]

/-- A comparison of two strings that has an answer compares their characters. -/
theorem holds_of_varchar {op : CmpOp} (hta : a.dataType = .varchar) (h : Holds op a b) :
    ∃ sa sb, a.toStdString = .ok sa ∧ b.toStdString = .ok sb ∧
      op.apply (codes sa) (codes sb) = true := by
  rw [Holds, compare, hta] at h
  dsimp only at h
  rw [compareVarchar] at h
  split at h
  next => cases h
  next =>
    obtain ⟨sa, hsa, h⟩ := bind_eq_ok.mp h
    obtain ⟨sb, hsb, h⟩ := bind_eq_ok.mp h
    refine ⟨sa, sb, hsa, hsb, ?_⟩
    cases hop : op.apply (codes sa) (codes sb) with
    | true => rfl
    | false =>
        rw [hop] at h
        cases h

theorem length_codes (s : List UInt8) : (codes s).length = s.length := List.length_map _

/-- No maximum of two strings is one of them and an upper bound of both: it is of another length
than the one it copies, and if it equals the other one, that one is the greater. -/
theorem not_boundsWell_of_varchar (hta : a.dataType = .varchar) (htb : b.dataType = .varchar)
    (hna : a.isNull = false) (hnb : b.isNull = false) : ¬ BoundsWell a b := by
  rintro ⟨-, m, hm, hone, ham, hbm⟩
  rw [Value.max, hta] at hm
  dsimp only at hm
  obtain ⟨state, hstate, hm⟩ := bind_eq_ok.mp hm
  obtain ⟨sa, sm, hsa, hsm, ham⟩ := holds_of_varchar hta ham
  obtain ⟨sb, sm', hsb, hsm', hbm⟩ := holds_of_varchar htb hbm
  rw [hsm] at hsm'
  cases hsm'
  have hgt : state = getCmpBool (CmpOp.gt.apply (codes sa) (codes sb)) := by
    rw [compareGreaterThan, compare, hta] at hstate
    simp only [compareVarchar, hna, hnb, Bool.or_self, Bool.false_eq_true, if_false, hsa, hsb,
      ok_bind] at hstate
    exact (Except.ok.inj hstate).symm
  have hstr : ∀ {v : Value} {s}, v.dataType = .varchar → v.isNull = false → v.SameAs m →
      v.toStdString = .ok s → s = sm ∧ s.length = v.len % word32 := by
    intro v s ht hn hsame hs
    have hmt : m.dataType = .varchar := hsame.dataType.trans ht
    obtain ⟨hs', hlen⟩ := toStdString_eq_ok ht hn hs
    obtain ⟨hsm', -⟩ := toStdString_eq_ok hmt (hsame.isNull.trans hn) hsm
    exact ⟨by rw [hs', hsm', hsame.payload hn, hsame.len hn ht], hlen⟩
  simp only [CmpOp.apply, decide_eq_true_eq] at ham hbm
  by_cases hlt : codes sb < codes sa
  · have hca : a.copy = .ok m := by simpa [hgt, CmpOp.apply, getCmpBool, hlt] using hm
    have hsame := hone.resolve_left (not_sameAs_copy hta hna hca)
    obtain ⟨rfl, -⟩ := hstr htb hnb hsame hsb
    exact absurd hlt (not_lt_of_ge ham)
  · have hcb : b.copy = .ok m := by simpa [hgt, CmpOp.apply, getCmpBool, hlt] using hm
    have hsame := hone.resolve_right (not_sameAs_copy htb hnb hcb)
    obtain ⟨rfl, hla⟩ := hstr hta hna hsame hsa
    obtain ⟨-, hlb⟩ := toStdString_eq_ok htb hnb hsb
    have heq : codes sa = codes sb := le_antisymm (not_lt.mp hlt) hbm
    have hlen : a.len % word32 = b.len % word32 := by
      rw [← hla, ← hlb, ← length_codes sa, heq, length_codes]
    have hlen' := (hsame.len hna hta).symm.trans (len_copy htb hnb hcb)
    simp only [add32, word32] at hlen hlen'
    omega

/-! ## Minima and maxima of integers -/

theorem Carries.sameAs (ht : t.isInteger = true) (h : Carries t x v) (hc : v.copy = .ok c)
    (hx : x ≠ t.nullNumber) : v.SameAs c := by
  have hnum := copy_of_integer ht h.dataType
  rw [← h.dataType] at hnum
  have hne : v.dataType ≠ .varchar := by
    rw [h.dataType]
    rintro rfl
    cases ht
  have hwell := (copiesWell_of_number hnum hne).mpr (by
    rw [h.notNull, h.number, h.dataType]
    simp [hx])
  obtain ⟨c', hc', hsame⟩ := hwell
  cases hc.symm.trans hc'
  exact hsame

theorem holds_le_of_carries (ht : t.isInteger = true) (ha : Carries t x a) (hb : Carries t y b) :
    Holds .le a b ↔ x ≤ y := by
  rw [holds_getCmpBool (compare_of_integer .le ht ha hb), CmpOp.apply, decide_eq_true_eq]

theorem holds_null {op : CmpOp} (ht : t.isInteger = true) (hta : a.dataType = t)
    (htb : b.dataType = t) (hnull : a.isNull = true ∨ b.isNull = true) : ¬ Holds op a b := by
  have hcmp : compare op a b = compareNumber op a b := by
    rw [compare, hta]
    cases t <;> simp_all [DataType.isInteger]
  have hnn : (a.isNull || b.isNull) = true := by simpa using hnull
  rw [Holds, hcmp, compareNumber, compareInlined, checkComparable_of_eq (hta.trans htb.symm), hnn]
  intro h
  cases h

/-- The number that stands for NULL is below the others, so that the minimum copies it. -/
theorem boundsWell_of_integer (ht : t.isInteger = true) (ha : Carries t x a) (hb : Carries t y b) :
    BoundsWell a b ↔ x ≠ t.nullNumber ∧ y ≠ t.nullNumber := by
  constructor
  · rintro ⟨⟨m, hm, -, hma, -⟩, -⟩
    rw [Carries.min ht ha hb] at hm
    -- the value the minimum copies is not the number that stands for NULL
    have hcopied : ∀ {v z}, Carries t z v → v.copy = .ok m → z ≠ t.nullNumber := by
      rintro v z hv hc rfl
      obtain ⟨m', hm', htype, hnull⟩ := hv.copy_null ht
      cases hc.symm.trans hm'
      exact holds_null ht htype ha.dataType (.inl hnull) hma
    have hx := ha.bounds.1
    have hy := hb.bounds.1
    split at hm
    next hlt =>
      have := hcopied ha hm
      omega
    next hlt =>
      have := hcopied hb hm
      omega
  · rintro ⟨hx, hy⟩
    obtain ⟨ca, hca, hcarA⟩ := ha.copy ht hx
    obtain ⟨cb, hcb, hcarB⟩ := hb.copy ht hy
    have hsa := ha.sameAs ht hca hx
    have hsb := hb.sameAs ht hcb hy
    refine ⟨?_, ?_⟩
    · rw [Carries.min ht ha hb]
      split
      next hlt =>
        exact ⟨ca, hca, .inl hsa, (holds_le_of_carries ht hcarA ha).mpr (Int.le_refl _),
          (holds_le_of_carries ht hcarA hb).mpr (Int.le_of_lt hlt)⟩
      next hlt =>
        exact ⟨cb, hcb, .inr hsb, (holds_le_of_carries ht hcarB ha).mpr (Int.not_lt.mp hlt),
          (holds_le_of_carries ht hcarB hb).mpr (Int.le_refl _)⟩
    · rw [Carries.max ht ha hb]
      split
      next hlt =>
        exact ⟨ca, hca, .inl hsa, (holds_le_of_carries ht ha hcarA).mpr (Int.le_refl _),
          (holds_le_of_carries ht hb hcarA).mpr (Int.le_of_lt hlt)⟩
      next hlt =>
        exact ⟨cb, hcb, .inr hsb, (holds_le_of_carries ht ha hcarB).mpr (Int.not_lt.mp hlt),
          (holds_le_of_carries ht hb hcarB).mpr (Int.le_refl _)⟩

/-- A copy is right exactly if the payload tells whether the value is NULL, which that of a string
does not. The minimum and the maximum of two values that are not NULL are right exactly if the
values are numbers, and neither of them the one that stands for NULL. -/
theorem copy_min_max_iff (a b : Value) (ht : a.dataType ≠ .decimal) :
    (CopiesWell a ↔ TellsNull a) ∧
    (a.isNull = false → b.isNull = false → b.dataType = a.dataType →
      a.dataType.isInteger = true ∨ a.dataType = .varchar →
      (BoundsWell a b ↔ a.dataType ≠ .varchar ∧ a.number ≠ a.dataType.nullNumber ∧
        b.number ≠ a.dataType.nullNumber)) := by
  constructor
  · rw [TellsNull]
    cases h : a.dataType with
    | decimal => exact absurd h ht
    | varchar => exact copiesWell_of_varchar h
    | timestamp =>
        have hcopy : a.copy = .ok a := by rw [copy, h]
        exact ⟨fun _ => trivial, fun _ => ⟨a, hcopy, rfl, rfl, fun _ => rfl, fun _ _ => rfl⟩⟩
    | _ =>
        have hcopy : a.copy = .ok (ofInteger a.dataType a.number) := by rw [copy, h]
        rw [copiesWell_of_number hcopy (by rw [h]; decide), h]
  · intro hna hnb heq hkind
    rcases hkind with hint | hvar
    · rw [boundsWell_of_integer hint (Carries.of_notNull rfl hna) (Carries.of_notNull heq hnb)]
      have hne : a.dataType ≠ .varchar := by
        intro h
        rw [h] at hint
        cases hint
      simp [hne]
    · have hbad := not_boundsWell_of_varchar hvar (heq.trans hvar) hna hnb
      simp [hbad, hvar]

theorem copy_min_max_iff_integers : CopiesWell (ofInteger .integer 3) ∧
    BoundsWell (ofInteger .integer 3) (ofInteger .integer 5) := by
  obtain ⟨hcopy, hbounds⟩ := copy_min_max_iff (ofInteger .integer 3) (ofInteger .integer 5) (by decide)
  have htells : TellsNull (ofInteger .integer 3) := iff_of_false (by decide) (by decide)
  exact ⟨hcopy.mpr htells,
    (hbounds rfl rfl rfl (.inl rfl)).mpr ⟨by decide, by decide, by decide⟩⟩

/-- The characters `o`, `w`, `n`, `e` and `d`. -/
def owned : Value := ofChars .varchar [111, 119, 110, 101, 100]

/-- The copy reads four bytes behind the end of the string. -/
theorem owned_copy : ¬ ∀ a b : Value, a.dataType ≠ .decimal → CopiesWell a ∧
    (a.isNull = false → b.isNull = false → b.dataType = a.dataType →
      a.dataType.isInteger = true ∨ a.dataType = .varchar → BoundsWell a b) := by
  intro h
  obtain ⟨c, hc, -⟩ := (h owned owned (by decide)).1
  have herr : owned.copy = .error .outOfBounds := by decide
  rw [herr] at hc
  cases hc

end TurtleDb.Datatype.Value
