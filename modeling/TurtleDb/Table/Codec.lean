import TurtleDb.Table.Lemmas.Decode

/-!
# The round trip of a row

Which rows `Tuple(schema, values)` stores so that `value` reads back every column. A NULL breaks the
columns behind it unless they are all blank, since only the encoder leaves it out; and an empty
`VARCHAR` comes back as NULL.
-/

namespace TurtleDb.Table.Tuple

open TurtleDb.Lib TurtleDb.Datatype

/-- Every column of `t` reads back as its value. -/
def ReadsBack (t : Tuple) (schema : ColumnSchema) (values : List Value) : Prop :=
  ∀ i v, values[i]? = some v → ∃ u, t.value schema i = .ok u ∧ u.Same v

/-- The row reads back from the tuple made of it, and from any tuple its bytes are copied to. -/
def RoundTrips (schema : ColumnSchema) (values : List Value) : Prop :=
  ∃ t, make schema values = .ok t ∧ t.ReadsBack schema values ∧
    ∀ (t₀ : Tuple) (rest : List UInt8),
      (t₀.deserializeFrom (t.serializeTo ++ rest) t.storageSize).ReadsBack schema values

/-- The rows that come back: the encoder and the decoder stay inside the 32-bit size, no value is
encoded as its type's NULL, and behind a NULL all is blank. -/
structure Recoverable (values : List Value) : Prop where
  columns : values.length + 7 < word32
  fits : bitmapSize values.length + (encodeAll values).length ≤ sizeOf values
  in_bounds : InBounds (sizeOf values) (bitmapSize values.length) values
  survive : ∀ v ∈ values, v.isNull = false → v.Survives
  nulls : NullsHarmless values

/-! ## The tuple as made -/

theorem foldl_add32_lt (values : List Value) {n : Nat} (hn : n < word32) :
    values.foldl (fun size v => add32 size v.storageSize) n < word32 := by
  induction values generalizing n with
  | nil => exact hn
  | cons v vs ih => exact ih (add32_lt _ _)

theorem sizeOf_lt (values : List Value) : sizeOf values < word32 := by
  apply foldl_add32_lt
  have := add32_lt (trunc32 values.length) 7
  unfold bitmapSize
  omega

section
variable {schema : ColumnSchema} {values : List Value}

theorem bitmapSize_eq (hn : values.length + 7 < word32) :
    bitmapSize values.length = (values.length + 7) / 8 := by
  rw [bitmapSize, add32_of_lt hn]

/-- The constructor on fewer than 2³² columns: one run of the loop over all of them. -/
theorem make_eq (htyped : values.map Value.dataType = schema.map Column.type)
    (hn : values.length + 7 < word32) :
    make schema values = (do
      let data ← encode (List.replicate (sizeOf values) 0) (bitmapSize values.length) 0 values
      return { data, recordId := .invalid }) := by
  have hlen : values.length = schema.length := by
    simpa using congrArg List.length htyped
  have htrunc : trunc32 values.length = values.length := trunc32_of_lt (by omega)
  rw [make, if_neg (fun h => h hlen)]
  simp only [htrunc, List.take_length]

/-- The bitmap and the values are in the tuple as made. -/
theorem laid_of_encode (hvalid : ∀ v ∈ values, v.Valid) (hn : values.length + 7 < word32)
    (hfit : bitmapSize values.length + (encodeAll values).length ≤ sizeOf values) :
    ∃ data, encode (List.replicate (sizeOf values) 0) (bitmapSize values.length) 0 values =
        .ok data ∧ data.length = sizeOf values ∧ Laid data (bitmapSize values.length) values ∧
      ∀ j v, values[j]? = some v → bitAt data j = v.isNull := by
  have hsize := sizeOf_lt values
  have hbitmap := bitmapSize_eq hn
  have hlen : (List.replicate (sizeOf values) (0 : UInt8)).length = sizeOf values := by simp
  have hzero : ∀ q, (List.replicate (sizeOf values) (0 : UInt8)).getD q 0 = 0 := by
    intro q
    rw [List.getD_eq_getElem?_getD, List.getElem?_replicate]
    split <;> rfl
  have hloop : ∃ data,
      encode (List.replicate (sizeOf values) 0) (bitmapSize values.length) 0 values = .ok data ∧
      Encoded (List.replicate (sizeOf values) 0) (bitmapSize values.length)
        (bitmapSize values.length) 0 values data :=
    encode_ok hvalid (by rw [Nat.zero_add, hbitmap]) (Nat.le_refl _) (by omega) (by omega)
      (by rw [hlen]; exact hfit)
  obtain ⟨data, hrun, henc⟩ := hloop
  refine ⟨data, hrun, by rw [henc.length, hlen], ?_, ?_⟩
  · intro q
    by_cases hq : q < (encodeAll values).length
    · exact henc.written q hq
    · rw [henc.kept _ (by omega) (by omega), hzero, List.getD_eq_default _ _ (by omega)]
  · intro j v hj
    obtain ⟨hjlt, _⟩ := List.getElem?_eq_some_iff.mp hj
    rw [henc.bits j (by omega), bitAt, hzero, testBit_zero, Bool.false_or, nullAt]
    simp [hj]

/-! ## The walk of the decoder -/

/-- Where the decoder stands in front of each column. -/
theorem decodes_iff_walk {data : Buffer} {off : Nat} {vs : List Value} :
    Decodes data off vs ↔ ∀ i v, vs[i]? = some v →
      ∃ o, ((vs.take i).map Value.dataType).foldlM (advance data) off = .ok o ∧
        (v.isNull = false → ∃ u, Value.deserialize v.dataType data o = .ok u ∧ u.Same v) := by
  induction vs generalizing off with
  | nil => simp [Decodes]
  | cons v vs ih =>
      rw [Decodes]
      constructor
      · rintro ⟨hread, hrest⟩ i w hi
        cases i with
        | zero =>
            cases hi
            exact ⟨off, rfl, hread⟩
        | succ i =>
            rw [List.getElem?_cons_succ] at hi
            obtain ⟨off', hoff, hdec⟩ := hrest (List.ne_nil_of_mem (List.mem_of_getElem? hi))
            obtain ⟨o, ho, hw⟩ := ih.mp hdec i w hi
            refine ⟨o, ?_, hw⟩
            rw [List.take_succ_cons, List.map_cons, List.foldlM_cons, hoff, ok_bind, ho]
      · intro h
        constructor
        · intro hn
          obtain ⟨o, ho, hw⟩ := h 0 v rfl
          cases ho
          exact hw hn
        · intro hne
          have hmove : ∀ i w, vs[i]? = some w → ∃ off' o,
              advance data off v.dataType = .ok off' ∧
              ((vs.take i).map Value.dataType).foldlM (advance data) off' = .ok o ∧
              (w.isNull = false → ∃ u, Value.deserialize w.dataType data o = .ok u ∧ u.Same w) := by
            intro i w hi
            obtain ⟨o, ho, hw⟩ := h (i + 1) w (by rw [List.getElem?_cons_succ, hi])
            rw [List.take_succ_cons, List.map_cons, List.foldlM_cons, bind_eq_ok] at ho
            obtain ⟨off', hoff, ho⟩ := ho
            exact ⟨off', o, hoff, ho, hw⟩
          obtain ⟨w, ws, rfl⟩ := List.exists_cons_of_ne_nil hne
          obtain ⟨off', _, hoff, _⟩ := hmove 0 w rfl
          refine ⟨off', hoff, ih.mpr fun i x hi => ?_⟩
          obtain ⟨off₁, o, hoff₁, ho, hx⟩ := hmove i x hi
          cases hoff.symm.trans hoff₁
          exact ⟨o, ho, hx⟩

/-- `value` walks over the columns in front, then asks the bitmap. -/
theorem value_eq (htyped : values.map Value.dataType = schema.map Column.type) (t : Tuple)
    {i : Nat} {v : Value} (hi : values[i]? = some v) :
    t.value schema i = (do
      let offset ← ((values.take i).map Value.dataType).foldlM (advance t.data)
        ((values.length + 7) / 8)
      let bitmap ← Value.fetch t.data (i / 8) 1
      if testBit (bitmap.getD 0 0) (i % 8) then return Value.null v.dataType
      else Value.deserialize v.dataType t.data offset) := by
  have hlen : values.length = schema.length := by
    simpa using congrArg List.length htyped
  have htype : (schema.map Column.type)[i]? = some v.dataType := by
    rw [← htyped, List.getElem?_map, hi]
    rfl
  rw [List.getElem?_map, Option.map_eq_some_iff] at htype
  obtain ⟨c, hc, hct⟩ := htype
  have hwalk : (schema.take i).foldlM (fun offset c => advance t.data offset c.type)
      ((schema.length + 7) / 8) =
      ((values.take i).map Value.dataType).foldlM (advance t.data) ((values.length + 7) / 8) := by
    rw [List.map_take, htyped, ← List.map_take, List.foldlM_map, hlen]
  rw [value, hc, ← hct]
  simp only [hwalk]

theorem readsBack_iff (htyped : values.map Value.dataType = schema.map Column.type) {t : Tuple}
    (hbitmap : (values.length + 7) / 8 ≤ t.data.length)
    (hbits : ∀ j v, values[j]? = some v → bitAt t.data j = v.isNull) :
    t.ReadsBack schema values ↔ Decodes t.data ((values.length + 7) / 8) values := by
  rw [decodes_iff_walk, ReadsBack]
  refine forall_congr' fun i => forall_congr' fun v => imp_congr_right fun hi => ?_
  obtain ⟨hlt, _⟩ := List.getElem?_eq_some_iff.mp hi
  have hload : Value.fetch t.data (i / 8) 1 = .ok [t.data.getD (i / 8) 0] := by
    rw [Value.fetch_eq_ok, Buffer.load, if_pos (by omega)]
    rfl
  have hbit := hbits i v hi
  rw [bitAt] at hbit
  rw [value_eq htyped t hi]
  simp only [hload, ok_bind, List.getD_cons_zero, hbit]
  constructor
  · rintro ⟨u, hu, hsame⟩
    obtain ⟨o, ho, hu⟩ := bind_eq_ok.mp hu
    refine ⟨o, ho, fun hn => ⟨u, ?_, hsame⟩⟩
    rw [hn, if_neg (by simp)] at hu
    exact hu
  · rintro ⟨o, ho, hread⟩
    rw [ho, ok_bind]
    cases hn : v.isNull with
    | true =>
        refine ⟨Value.null v.dataType, rfl, ?_⟩
        rw [Value.Same, Value.isNull_null, hn]
        exact ⟨rfl, fun h => by cases h⟩
    | false =>
        obtain ⟨u, hu, hsame⟩ := hread hn
        exact ⟨u, hu, hsame⟩

theorem ReadsBack.of_data {t t' : Tuple} (h : t.ReadsBack schema values) (hd : t'.data = t.data) :
    t'.ReadsBack schema values := by
  intro i v hi
  obtain ⟨u, hu, hsame⟩ := h i v hi
  refine ⟨u, ?_, hsame⟩
  rw [← hu, value, value, hd]

/-- Reading the last column needs the whole bitmap. -/
theorem bitmap_le_of_readsBack (htyped : values.map Value.dataType = schema.map Column.type)
    {t : Tuple} (h : t.ReadsBack schema values) : (values.length + 7) / 8 ≤ t.data.length := by
  by_cases hz : values.length = 0
  · omega
  have hlast : values.length - 1 < values.length := by omega
  obtain ⟨u, hu, _⟩ := h (values.length - 1) _ (List.getElem?_eq_getElem hlast)
  rw [value_eq htyped t (List.getElem?_eq_getElem hlast)] at hu
  obtain ⟨o, _, hu⟩ := bind_eq_ok.mp hu
  obtain ⟨bitmap, hfetch, _⟩ := bind_eq_ok.mp hu
  have := (Buffer.load_eq_some.mp (Value.fetch_eq_ok.mp hfetch)).1
  omega

/-! ## The round trip -/

/-- A row comes back if it is recoverable, and, among the schemas whose columns and bitmap can be
counted in 32 bits, only if it is. -/
theorem roundTrips_iff_recoverable (schema : ColumnSchema) (values : List Value)
    (htyped : values.map Value.dataType = schema.map Column.type)
    (hvalid : ∀ v ∈ values, v.Valid) :
    (Recoverable values → RoundTrips schema values) ∧
      (values.length + 7 < word32 → RoundTrips schema values → Recoverable values) := by
  have hsize := sizeOf_lt values
  constructor
  · intro h
    have hbitmap := bitmapSize_eq h.columns
    obtain ⟨data, hrun, hlen, hlaid, hbits⟩ := laid_of_encode hvalid h.columns h.fits
    have hfits := h.fits
    have hdec : Decodes data (bitmapSize values.length) values := by
      rw [decodes_iff hlaid hvalid (by omega), hlen]
      exact ⟨h.in_bounds, h.survive, h.nulls⟩
    rw [hbitmap] at hdec
    have hread : ReadsBack { data, recordId := .invalid } schema values :=
      (readsBack_iff htyped (by simp only; omega) hbits).mpr hdec
    refine ⟨{ data, recordId := .invalid }, ?_, hread, fun t₀ rest => hread.of_data ?_⟩
    · rw [make_eq htyped h.columns, hrun, ok_bind]
      rfl
    · simp [deserializeFrom, serializeTo, storageSize]
  · rintro hcolumns ⟨t, hmake, hread, _⟩
    have hbitmap := bitmapSize_eq hcolumns
    rw [make_eq htyped hcolumns, bind_eq_ok] at hmake
    obtain ⟨data, hrun, ht⟩ := hmake
    cases ht
    have hle := bitmap_le_of_readsBack htyped hread
    have hlen := length_encode hrun
    rw [List.length_replicate] at hlen
    simp only [hlen] at hle
    have hfits := encode_fits hvalid (by rw [List.length_replicate]; omega)
      (by rw [List.length_replicate]; omega) hrun
    rw [List.length_replicate] at hfits
    obtain ⟨data', hrun', _, hlaid, hbits⟩ := laid_of_encode hvalid hcolumns hfits
    cases hrun.symm.trans hrun'
    have hdec := (readsBack_iff htyped (by simp only [hlen]; exact hle) hbits).mp hread
    rw [← hbitmap] at hdec
    obtain ⟨hin, hsv, hnh⟩ := (decodes_iff hlaid hvalid (by omega)).mp hdec
    rw [hlen] at hin
    exact ⟨hcolumns, hfits, hin, hsv, hnh⟩

end

theorem roundTrips_iff_recoverable_words :
    (Recoverable [Value.ofInt32 .integer 7, Value.ofChars .varchar [97, 98], Value.null .integer] →
        RoundTrips [⟨"id", .integer, 0⟩, ⟨"name", .varchar, 0⟩, ⟨"age", .integer, 0⟩]
          [Value.ofInt32 .integer 7, Value.ofChars .varchar [97, 98], Value.null .integer]) ∧
      (3 + 7 < word32 →
        RoundTrips [⟨"id", .integer, 0⟩, ⟨"name", .varchar, 0⟩, ⟨"age", .integer, 0⟩]
          [Value.ofInt32 .integer 7, Value.ofChars .varchar [97, 98], Value.null .integer] →
        Recoverable
          [Value.ofInt32 .integer 7, Value.ofChars .varchar [97, 98], Value.null .integer]) :=
  roundTrips_iff_recoverable _ _ (by decide) (by
    intro v hv
    simp only [List.mem_cons, List.not_mem_nil, or_false] at hv
    rcases hv with rfl | rfl | rfl <;> unfold Value.Valid <;> decide)

/-- The row `(a = NULL, b = 42)` reads back with `b = 0`. -/
theorem not_roundTrips_behind_null :
    ¬ RoundTrips [⟨"a", .integer, 0⟩, ⟨"b", .integer, 0⟩]
      [Value.null .integer, Value.ofInt32 .integer 42] := by
  rintro ⟨t, hmake, hread, _⟩
  have hrun : make [⟨"a", .integer, 0⟩, ⟨"b", .integer, 0⟩]
      [Value.null .integer, Value.ofInt32 .integer 42] =
        .ok { data := [1, 42, 0, 0, 0, 0, 0, 0, 0], recordId := .invalid } := by decide
  cases hmake.symm.trans hrun
  obtain ⟨u, hu, hsame⟩ := hread 1 _ rfl
  have hzero : value { data := [1, 42, 0, 0, 0, 0, 0, 0, 0], recordId := .invalid }
      [⟨"a", .integer, 0⟩, ⟨"b", .integer, 0⟩] 1 = .ok (Value.ofInt32 .integer 0) := by decide
  cases hu.symm.trans hzero
  exact absurd (hsame.2 (by decide)).2 (by decide)

/-! ## Rows below four gigabytes -/

/-- The size of a row, NULL columns included, without wrapping. -/
def rowBytes (values : List Value) : Nat :=
  (values.length + 7) / 8 +
    (values.map fun v => if v.isNull then v.dataType.size else v.serialize.length).sum

theorem storageSize_of_small {v : Value} (hv : v.Valid)
    (h : (if v.isNull then v.dataType.size else v.serialize.length) < word32) :
    v.storageSize = if v.isNull then v.dataType.size else v.serialize.length := by
  cases hn : v.isNull with
  | true =>
      unfold Value.storageSize
      by_cases ht : v.dataType = .varchar
      · rw [if_pos ht, hn, if_pos rfl, if_pos rfl, ht]
        rfl
      · rw [if_neg ht, if_pos rfl]
  | false =>
      rw [hn, if_neg (by simp)] at h
      rw [if_neg (by simp)]
      exact Value.storageSize_eq hv hn h

theorem foldl_add32_eq {vs : List Value} {n : Nat} (hvalid : ∀ v ∈ vs, v.Valid)
    (h : n + (vs.map fun v => if v.isNull then v.dataType.size else v.serialize.length).sum <
      word32) :
    vs.foldl (fun size v => add32 size v.storageSize) n =
      n + (vs.map fun v => if v.isNull then v.dataType.size else v.serialize.length).sum := by
  induction vs generalizing n with
  | nil => simp
  | cons v vs ih =>
      rw [List.map_cons, List.sum_cons] at h ⊢
      have hsize := storageSize_of_small (hvalid v (by simp)) (by omega)
      rw [List.foldl_cons, hsize, add32_of_lt (by omega),
        ih (fun u hu => hvalid u (by simp [hu])) (by omega)]
      omega

theorem length_encodeAll_le (vs : List Value) :
    (encodeAll vs).length ≤
      (vs.map fun v => if v.isNull then v.dataType.size else v.serialize.length).sum := by
  induction vs with
  | nil => simp [encodeAll]
  | cons v vs ih =>
      rw [List.map_cons, List.sum_cons]
      cases hn : v.isNull with
      | true =>
          rw [encodeAll_cons_null hn, if_pos rfl]
          omega
      | false =>
          rw [encodeAll_cons hn, List.length_append, if_neg (by simp)]
          omega

theorem inBounds_of_le {size off : Nat} {vs : List Value} (hvalid : ∀ v ∈ vs, v.Valid)
    (h : off + (vs.map fun v => if v.isNull then v.dataType.size else v.serialize.length).sum ≤
      size) : InBounds size off vs := by
  induction vs generalizing off with
  | nil => trivial
  | cons v vs ih =>
      rw [List.map_cons, List.sum_cons] at h
      have hvs : ∀ u ∈ vs, u.Valid := fun u hu => hvalid u (by simp [hu])
      cases hn : v.isNull with
      | true =>
          rw [hn, if_pos rfl] at h
          have hstride : stride v vs ≤ v.dataType.size := by
            rw [stride, hn, if_pos rfl]
            split <;> omega
          refine ⟨by simp [hn], fun _ => ⟨fun ht => ?_, ih hvs (by omega)⟩⟩
          have hsize : v.dataType.size = 4 := by rw [ht]; rfl
          omega
      | false =>
          rw [hn, if_neg (by simp)] at h
          have hstride : stride v vs = v.serialize.length := by rw [stride, hn, if_neg (by simp)]
          refine ⟨fun _ => by omega, fun _ => ⟨fun ht => ?_, ih hvs (by omega)⟩⟩
          have hlen := Value.length_serialize (hvalid v (by simp)) hn
          rw [if_pos ht] at hlen
          omega

/-- In a row below four gigabytes only the values and the NULLs in front of them matter. -/
theorem recoverable_of_small {values : List Value} (hvalid : ∀ v ∈ values, v.Valid)
    (hcolumns : values.length + 7 < word32) (hsize : rowBytes values < word32) :
    Recoverable values ↔
      (∀ v ∈ values, v.isNull = false → v.Survives) ∧ NullsHarmless values := by
  have hbitmap := bitmapSize_eq hcolumns
  have hlen := length_encodeAll_le values
  unfold rowBytes at hsize
  have hsum : sizeOf values = rowBytes values := by
    rw [sizeOf, trunc32_of_lt (by omega), hbitmap, foldl_add32_eq hvalid hsize, rowBytes]
  constructor
  · exact fun h => ⟨h.survive, h.nulls⟩
  · rintro ⟨hsv, hnh⟩
    refine ⟨hcolumns, ?_, ?_, hsv, hnh⟩
    · rw [hsum, hbitmap, rowBytes]
      omega
    · rw [hsum, hbitmap]
      exact inBounds_of_le hvalid (Nat.le_refl _)

end TurtleDb.Table.Tuple
