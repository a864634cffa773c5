import TurtleDb.Table.Lemmas.Encode

/-!
# What the decoder of a tuple finds

The decoder walks over every column, the encoder over the columns that are not NULL. Up to the first
NULL they stand at the same byte; once the decoder is ahead it stays ahead, and reads back only what
is zero.
-/

namespace TurtleDb.Table.Tuple

open TurtleDb.Lib TurtleDb.Datatype

/-- From `off` on, `data` holds the encodings of `vs` and then zeros. -/
def Laid (data : Buffer) (off : Nat) (vs : List Value) : Prop :=
  ∀ q, data.getD (off + q) 0 = (encodeAll vs).getD q 0

/-- The decoder, standing at `off`, reads back the values `vs`. -/
def Decodes (data : Buffer) (off : Nat) : List Value → Prop
  | [] => True
  | v :: vs =>
      (v.isNull = false → ∃ u, Value.deserialize v.dataType data off = .ok u ∧ u.Same v) ∧
        (vs ≠ [] → ∃ off', advance data off v.dataType = .ok off' ∧ Decodes data off' vs)

/-! ## The condition -/

/-- NULL, or a fixed-size value whose bytes are all zero. -/
def Blank (v : Value) : Prop :=
  v.isNull = false → v.dataType ≠ .varchar ∧ ∀ b ∈ v.payload, b = 0

instance (v : Value) : Decidable (Blank v) :=
  haveI : Decidable (∀ b ∈ v.payload, b = 0) := List.decidableBAll _ _
  inferInstanceAs (Decidable (v.isNull = false → v.dataType ≠ .varchar ∧ ∀ b ∈ v.payload, b = 0))

/-- What the decoder takes for the length of a NULL `VARCHAR`: the next four bytes. -/
def nextWord (vs : List Value) : Nat := leNat ((List.range 4).map fun k => (encodeAll vs).getD k 0)

/-- The decoder does not move over the NULL `v`: `4 + len` is zero in 32 bits. -/
def Transparent (v : Value) (vs : List Value) : Prop :=
  v.dataType = .varchar ∧ nextWord vs = 4294967292

instance (v : Value) (vs : List Value) : Decidable (Transparent v vs) := by
  unfold Transparent
  infer_instance

/-- Behind a NULL the decoder moves over, every value is blank. -/
def NullsHarmless : List Value → Prop
  | [] => True
  | v :: vs => (v.isNull = true → Transparent v vs ∨ ∀ u ∈ vs, Blank u) ∧ NullsHarmless vs

/-- How far the decoder moves over `v`. -/
def stride (v : Value) (vs : List Value) : Nat :=
  if v.isNull then if Transparent v vs then 0 else v.dataType.size else v.serialize.length

/-- The decoder, standing at `off`, stays below `size`. -/
def InBounds (size : Nat) : Nat → List Value → Prop
  | _, [] => True
  | off, v :: vs =>
      (v.isNull = false → off + v.serialize.length ≤ size) ∧
        (vs ≠ [] → (v.dataType = .varchar → off + 4 ≤ size) ∧
          InBounds size (off + stride v vs) vs)

/-! ## Laid-out values -/

section
variable {data : Buffer} {off : Nat} {v : Value} {vs : List Value}

theorem Laid.null (h : Laid data off (v :: vs)) (hn : v.isNull = true) : Laid data off vs := by
  intro q
  rw [h q, encodeAll_cons_null hn]

theorem Laid.next (h : Laid data off (v :: vs)) (hn : v.isNull = false) :
    Laid data (off + v.serialize.length) vs := by
  intro q
  rw [Nat.add_assoc, h, encodeAll_cons hn, List.getD_append_right _ _ _ _ (by omega),
    Nat.add_sub_cancel_left]

theorem Laid.holdsAt (h : Laid data off (v :: vs)) (hn : v.isNull = false)
    (hle : off + v.serialize.length ≤ data.length) : Value.HoldsAt data off v.serialize := by
  refine ⟨hle, ?_⟩
  intro k hk
  rw [h k, encodeAll_cons hn, List.getD_append _ _ _ _ hk]

theorem Laid.load_word (h : Laid data off vs) (hle : off + 4 ≤ data.length) :
    data.load off 4 = some ((List.range 4).map fun k => (encodeAll vs).getD k 0) := by
  rw [Buffer.load, if_pos hle]
  congr 1
  exact List.map_congr_left fun k _ => h k

/-! ## Blank values -/

theorem Blank.serialize (h : Blank v) (hn : v.isNull = false) :
    v.dataType ≠ .varchar ∧ ∀ q, v.serialize.getD q 0 = 0 := by
  obtain ⟨ht, hz⟩ := h hn
  refine ⟨ht, ?_⟩
  intro q
  rw [Value.serialize, if_neg ht]
  by_cases hq : q < v.payload.length
  · rw [List.getD_eq_getElem _ _ hq]
    exact hz _ (List.getElem_mem hq)
  · rw [List.getD_eq_default _ _ (by omega)]

theorem encodeAll_blank (h : ∀ u ∈ vs, Blank u) (q : Nat) : (encodeAll vs).getD q 0 = 0 := by
  induction vs generalizing q with
  | nil => simp [encodeAll]
  | cons u us ih =>
      have hus := ih fun w hw => h w (by simp [hw])
      cases hn : u.isNull with
      | true => rw [encodeAll_cons_null hn, hus]
      | false =>
          rw [encodeAll_cons hn]
          by_cases hq : q < u.serialize.length
          · rw [List.getD_append _ _ _ _ hq, ((h u (by simp)).serialize hn).2]
          · rw [List.getD_append_right _ _ _ _ (by omega), hus]

theorem nextWord_blank (h : ∀ u ∈ vs, Blank u) : nextWord vs = 0 := by
  unfold nextWord
  rw [leNat_eq_zero]
  intro b hb
  obtain ⟨k, _, rfl⟩ := List.mem_map.mp hb
  exact encodeAll_blank h k

theorem not_transparent_blank (h : ∀ u ∈ vs, Blank u) : ¬ Transparent v vs := by
  rintro ⟨_, hw⟩
  rw [nextWord_blank h] at hw
  cases hw

theorem nullsHarmless_blank (h : ∀ u ∈ vs, Blank u) : NullsHarmless vs := by
  induction vs with
  | nil => trivial
  | cons u us ih =>
      have hus : ∀ w ∈ us, Blank w := fun w hw => h w (by simp [hw])
      exact ⟨fun _ => .inr hus, ih hus⟩

/-- Zero is no type's NULL pattern. -/
theorem Blank.survives (h : Blank v) (hn : v.isNull = false) : v.Survives := by
  obtain ⟨ht, hz⟩ := h hn
  rw [Value.Survives, if_neg ht, leNat_eq_zero.mpr hz]
  revert ht
  cases v.dataType <;> decide

/-! ## One column -/

/-- Over a value it reads back the decoder moves by the bytes of its encoding. -/
theorem advance_of_holdsAt (hv : v.Valid) (hn : v.isNull = false) (hword : data.length < word32)
    (h : Value.HoldsAt data off v.serialize) :
    advance data off v.dataType = .ok (off + v.serialize.length) := by
  have hlen := Value.length_serialize hv hn
  have hle := h.1
  unfold advance
  by_cases ht : v.dataType = .varchar
  · have hser : v.serialize = leBytes 4 v.len ++ v.payload := by
      rw [Value.serialize, if_pos ht, hn, if_neg (by simp)]
    rw [if_pos ht] at hlen
    rw [hser, Value.holdsAt_append, Value.holdsAt_iff_load, length_leBytes] at h
    have hword' : leNat (leBytes 4 v.len) = v.len := by
      rw [leNat_leBytes]
      exact Nat.mod_eq_of_lt (hv ht hn).2
    rw [if_pos ht, Value.fetch_eq_ok.mpr h.1, ok_bind, hword', add32_of_lt (by omega), hlen]
    rfl
  · rw [if_neg ht] at hlen
    rw [if_neg ht, getTypeSize, if_neg ht, ok_bind, hlen]
    rfl

/-- Over a NULL the decoder moves by the size of its type, or by the length it takes the next
values for. -/
theorem advance_null (h : Laid data off vs) (t : DataType) :
    advance data off t =
      if t = .varchar then
        if off + 4 ≤ data.length then .ok (off + add32 4 (nextWord vs)) else .error .outOfBounds
      else .ok (off + t.size) := by
  unfold advance
  by_cases ht : t = .varchar
  · rw [if_pos ht, if_pos ht]
    by_cases hle : off + 4 ≤ data.length
    · rw [if_pos hle, Value.fetch_eq_ok.mpr (h.load_word hle), ok_bind]
      rfl
    · have hnone : data.load off 4 = none := by rw [Buffer.load, if_neg hle]
      rw [if_neg hle, Value.fetch, hnone]
      rfl
  · rw [if_neg ht, if_neg ht, getTypeSize, if_neg ht, ok_bind]
    rfl

theorem nextWord_lt (vs : List Value) : nextWord vs < word32 := by
  have := leNat_lt ((List.range 4).map fun k => (encodeAll vs).getD k 0)
  simpa [nextWord, word32] using this

theorem advance_null_blank (h : Laid data off vs) (hn : v.isNull = true)
    (hblank : ∀ u ∈ vs, Blank u) (d' : Nat) :
    advance data off v.dataType = .ok d' ↔
      (v.dataType = .varchar → off + 4 ≤ data.length) ∧ d' = off + stride v vs := by
  have hstride : stride v vs = v.dataType.size := by
    rw [stride, hn, if_pos rfl, if_neg (not_transparent_blank hblank)]
  have hadd : add32 4 (nextWord vs) = 4 := by rw [nextWord_blank hblank]; rfl
  rw [advance_null h, hstride]
  by_cases ht : v.dataType = .varchar
  · by_cases hle : off + 4 ≤ data.length
    · simp [ht, hle, hadd, eq_comm, DataType.size]
    · simp [ht, hle]
  · simp [ht, eq_comm]

theorem advance_null_transparent (h : Laid data off vs) (ht : Transparent v vs) (d' : Nat) :
    advance data off v.dataType = .ok d' ↔ off + 4 ≤ data.length ∧ d' = off := by
  have hadd : add32 4 (nextWord vs) = 0 := by rw [ht.2]; rfl
  rw [advance_null h, if_pos ht.1, hadd]
  by_cases hle : off + 4 ≤ data.length <;> simp [hle, eq_comm]

theorem lt_advance_null (h : Laid data off vs) (ht : ¬ Transparent v vs) {d' : Nat}
    (hd : advance data off v.dataType = .ok d') : off < d' := by
  rw [advance_null h] at hd
  by_cases htv : v.dataType = .varchar
  · have hword : nextWord vs ≠ 4294967292 := fun hw => ht ⟨htv, hw⟩
    have hlt := nextWord_lt vs
    have hpos : 0 < add32 4 (nextWord vs) := by
      unfold add32 word32 at *
      omega
    rw [if_pos htv] at hd
    split at hd
    · cases hd
      omega
    · cases hd
  · have := Value.size_pos v.dataType
    rw [if_neg htv] at hd
    cases hd
    omega

/-! ## The decoder ahead of the encoder -/

/-- Read back ahead of where it lies, a value is zero: its bytes are a shift of themselves into the
zeros behind. -/
theorem blank_of_ahead {d : Nat} (hd : off < d) (hlaid : Laid data off (v :: vs))
    (hblank : ∀ u ∈ vs, Blank u) (hv : v.Valid) (hn : v.isNull = false)
    (hholds : Value.HoldsAt data d v.serialize) (hs : v.Survives) : Blank v := by
  have htail : ∀ q, v.serialize.length ≤ q → (encodeAll (v :: vs)).getD q 0 = 0 := by
    intro q hq
    rw [encodeAll_cons hn, List.getD_append_right _ _ _ _ hq, encodeAll_blank hblank]
  have hshift : ∀ k < v.serialize.length,
      (encodeAll (v :: vs)).getD (k + (d - off)) 0 = (encodeAll (v :: vs)).getD k 0 := by
    intro k hk
    have hthere := hholds.2 k hk
    rw [← hlaid (k + (d - off)), show off + (k + (d - off)) = d + k by omega, hthere,
      encodeAll_cons hn, List.getD_append _ _ _ _ hk]
  have hzero := Buffer.getD_eq_zero_of_shift (show 0 < d - off by omega) hshift htail
  have hbytes : ∀ b ∈ v.serialize, b = 0 := by
    intro b hb
    obtain ⟨k, hk, rfl⟩ := List.getElem_of_mem hb
    rw [← List.getD_eq_getElem _ 0 hk, ← List.getD_append _ (encodeAll vs) _ _ hk,
      ← encodeAll_cons hn, hzero k]
  intro _
  by_cases ht : v.dataType = .varchar
  · -- a zero length prefix would not survive
    rw [Value.Survives, if_pos ht] at hs
    have hprefix : leNat (leBytes 4 v.len) = 0 := by
      rw [leNat_eq_zero]
      intro b hb
      apply hbytes
      rw [Value.serialize, if_pos ht, hn, if_neg (by simp)]
      exact List.mem_append_left _ hb
    rw [leNat_leBytes] at hprefix
    exact absurd ((Nat.mod_eq_of_lt (hv ht hn).2).symm.trans hprefix) hs
  · rw [Value.serialize, if_neg ht] at hbytes
    exact ⟨ht, hbytes⟩

theorem le_advance {d d' : Nat} {t : DataType} (h : advance data d t = .ok d') : d ≤ d' := by
  unfold advance at h
  split at h
  · rw [bind_eq_ok] at h
    obtain ⟨len, _, h⟩ := h
    cases h
    omega
  · rw [bind_eq_ok] at h
    obtain ⟨size, _, h⟩ := h
    cases h
    omega

/-- A decoder ahead of the encoder reads back blank values only. -/
theorem blank_of_decodes {d : Nat} (hd : off < d) (hlaid : Laid data off vs)
    (hvalid : ∀ u ∈ vs, u.Valid) (hword : data.length < word32) (h : Decodes data d vs) :
    ∀ u ∈ vs, Blank u := by
  induction vs generalizing off d with
  | nil => simp
  | cons v vs ih =>
      obtain ⟨hread, hrest⟩ := h
      have hv := hvalid v (by simp)
      have hvs : ∀ u ∈ vs, u.Valid := fun u hu => hvalid u (by simp [hu])
      cases hn : v.isNull with
      | true =>
          have hblank : ∀ u ∈ vs, Blank u := by
            intro u hu
            obtain ⟨d', hd', hdec⟩ := hrest (List.ne_nil_of_mem hu)
            exact ih (Nat.lt_of_lt_of_le hd (le_advance hd')) (hlaid.null hn) hvs hdec u hu
          intro u hu
          rcases List.mem_cons.mp hu with rfl | hu
          · intro hf
            rw [hn] at hf
            cases hf
          · exact hblank u hu
      | false =>
          obtain ⟨hholds, hs⟩ := (Value.deserialize_same_iff hv hn data d).mp (hread hn)
          have hadv := advance_of_holdsAt hv hn hword hholds
          have hblank : ∀ u ∈ vs, Blank u := by
            intro u hu
            obtain ⟨d', hd', hdec⟩ := hrest (List.ne_nil_of_mem hu)
            cases hadv.symm.trans hd'
            exact ih (by omega) (hlaid.next hn) hvs hdec u hu
          intro u hu
          rcases List.mem_cons.mp hu with rfl | hu
          · exact blank_of_ahead hd hlaid hblank hv hn hholds hs
          · exact hblank u hu

/-- Blank values are read back from anywhere in the zeros, as far as the buffer goes. -/
theorem decodes_blank_iff {d : Nat} (hd : off ≤ d) (hlaid : Laid data off vs)
    (hvalid : ∀ u ∈ vs, u.Valid) (hword : data.length < word32) (hblank : ∀ u ∈ vs, Blank u) :
    Decodes data d vs ↔ InBounds data.length d vs := by
  induction vs generalizing d with
  | nil => exact Iff.rfl
  | cons v vs ih =>
      have hv := hvalid v (by simp)
      have hb := hblank v (by simp)
      have hvs : ∀ u ∈ vs, u.Valid := fun u hu => hvalid u (by simp [hu])
      have hbs : ∀ u ∈ vs, Blank u := fun u hu => hblank u (by simp [hu])
      have hzero : ∀ q, data.getD (off + q) 0 = 0 := fun q => by
        rw [hlaid q, encodeAll_blank hblank]
      have hrest : ∀ {d}, off ≤ d → Laid data d vs := by
        intro d hle q
        rw [show d + q = off + (d + q - off) by omega, hzero, encodeAll_blank hbs]
      have hlaid' : Laid data off vs := hrest (Nat.le_refl _)
      rw [Decodes, InBounds]
      cases hn : v.isNull with
      | true =>
          have hstep := advance_null_blank (hrest hd) hn hbs
          simp only [Bool.true_eq_false, false_implies, true_and]
          refine imp_congr_right fun _ => ?_
          rw [← ih (show off ≤ d + stride v vs by omega) hlaid' hvs hbs]
          constructor
          · rintro ⟨d', hd', hdec⟩
            obtain ⟨hle, rfl⟩ := (hstep _).mp hd'
            exact ⟨hle, hdec⟩
          · rintro ⟨hle, hdec⟩
            exact ⟨_, (hstep _).mpr ⟨hle, rfl⟩, hdec⟩
      | false =>
          obtain ⟨ht, hser⟩ := hb.serialize hn
          have hstride : stride v vs = v.serialize.length := by
            rw [stride, hn, if_neg (by simp)]
          have hholds : d + v.serialize.length ≤ data.length ↔
              Value.HoldsAt data d v.serialize := by
            constructor
            · intro hle
              refine ⟨hle, fun k _ => ?_⟩
              rw [hser, show d + k = off + (d + k - off) by omega, hzero]
            · exact fun hh => hh.1
          have hread : (∃ u, Value.deserialize v.dataType data d = .ok u ∧ u.Same v) ↔
              d + v.serialize.length ≤ data.length := by
            rw [Value.deserialize_same_iff hv hn, ← hholds]
            exact ⟨fun hh => hh.1, fun hh => ⟨hh, hb.survives hn⟩⟩
          rw [hstride, hread]
          simp only [forall_const]
          refine and_congr_right fun hle => imp_congr_right fun hne => ?_
          rw [advance_of_holdsAt hv hn hword (hholds.mp hle),
            ← ih (show off ≤ d + v.serialize.length by omega) hlaid' hvs hbs]
          constructor
          · rintro ⟨d', hd', hdec⟩
            cases hd'
            exact ⟨fun hvc => absurd hvc ht, hdec⟩
          · rintro ⟨_, hdec⟩
            exact ⟨_, rfl, hdec⟩

/-! ## The decoder level with the encoder -/

theorem decodes_iff (hlaid : Laid data off vs) (hvalid : ∀ u ∈ vs, u.Valid)
    (hword : data.length < word32) :
    Decodes data off vs ↔
      InBounds data.length off vs ∧ (∀ u ∈ vs, u.isNull = false → u.Survives) ∧
        NullsHarmless vs := by
  induction vs generalizing off with
  | nil => simp [Decodes, InBounds, NullsHarmless]
  | cons v vs ih =>
      have hv := hvalid v (by simp)
      have hvs : ∀ u ∈ vs, u.Valid := fun u hu => hvalid u (by simp [hu])
      by_cases hnil : vs = []
      · subst hnil
        simp only [Decodes, InBounds, NullsHarmless, ne_eq, not_true_eq_false, false_implies,
          and_true, List.mem_singleton, forall_eq, List.not_mem_nil, implies_true, or_true]
        constructor
        · intro h
          have hboth := fun hn => (Value.deserialize_same_iff hv hn data off).mp (h hn)
          exact ⟨fun hn => (hboth hn).1.1, fun hn => (hboth hn).2⟩
        · rintro ⟨hle, hs⟩ hn
          exact (Value.deserialize_same_iff hv hn data off).mpr
            ⟨hlaid.holdsAt hn (hle hn), hs hn⟩
      rw [Decodes, InBounds, NullsHarmless, List.forall_mem_cons]
      cases hn : v.isNull with
      | false =>
          have hstride : stride v vs = v.serialize.length := by
            rw [stride, hn, if_neg (by simp)]
          rw [hstride]
          simp only [forall_const, ne_eq, hnil, not_false_eq_true, Bool.false_eq_true,
            false_implies, true_and]
          rw [Value.deserialize_same_iff hv hn]
          have hlen := Value.length_serialize hv hn
          constructor
          · rintro ⟨⟨hholds, hs⟩, d', hd', hdec⟩
            cases (advance_of_holdsAt hv hn hword hholds).symm.trans hd'
            obtain ⟨hin, hsv, hnh⟩ := (ih (hlaid.next hn) hvs).mp hdec
            refine ⟨⟨hholds.1, ?_, hin⟩, ⟨hs, hsv⟩, hnh⟩
            intro ht
            have := hholds.1
            rw [if_pos ht] at hlen
            omega
          · rintro ⟨⟨hle, _, hin⟩, ⟨hs, hsv⟩, hnh⟩
            have hholds := hlaid.holdsAt hn hle
            exact ⟨⟨hholds, hs⟩, _, advance_of_holdsAt hv hn hword hholds,
              (ih (hlaid.next hn) hvs).mpr ⟨hin, hsv, hnh⟩⟩
      | true =>
          have hlaid' := hlaid.null hn
          simp only [Bool.true_eq_false, false_implies, true_and, ne_eq, hnil, not_false_eq_true,
            forall_const]
          by_cases hblank : ∀ u ∈ vs, Blank u
          · -- nothing but zeros follows: the decoder may run ahead
            have hstep := advance_null_blank hlaid' hn hblank
            constructor
            · rintro ⟨d', hd', hdec⟩
              obtain ⟨hle, rfl⟩ := (hstep _).mp hd'
              exact ⟨⟨hle, (decodes_blank_iff (by omega) hlaid' hvs hword hblank).mp hdec⟩,
                fun u hu hf => (hblank u hu).survives hf, .inr hblank,
                nullsHarmless_blank hblank⟩
            · rintro ⟨⟨hle, hin⟩, _⟩
              exact ⟨_, (hstep _).mpr ⟨hle, rfl⟩,
                (decodes_blank_iff (by omega) hlaid' hvs hword hblank).mpr hin⟩
          by_cases htr : Transparent v vs
          · -- the decoder does not move, and stays level
            have hstep := advance_null_transparent hlaid' htr
            have hstride : stride v vs = 0 := by rw [stride, hn, if_pos rfl, if_pos htr]
            rw [hstride, Nat.add_zero]
            constructor
            · rintro ⟨d', hd', hdec⟩
              obtain ⟨hle, rfl⟩ := (hstep _).mp hd'
              obtain ⟨hin, hsv, hnh⟩ := (ih hlaid' hvs).mp hdec
              exact ⟨⟨fun _ => hle, hin⟩, hsv, .inl htr, hnh⟩
            · rintro ⟨⟨hle, hin⟩, hsv, _, hnh⟩
              exact ⟨off, (hstep _).mpr ⟨hle htr.1, rfl⟩, (ih hlaid' hvs).mpr ⟨hin, hsv, hnh⟩⟩
          · -- the decoder runs ahead, and a later value is not blank
            refine iff_of_false ?_ fun h => h.2.2.1.elim htr hblank
            rintro ⟨d', hd', hdec⟩
            exact hblank (blank_of_decodes (lt_advance_null hlaid' htr hd') hlaid' hvs hword hdec)

end

end TurtleDb.Table.Tuple
