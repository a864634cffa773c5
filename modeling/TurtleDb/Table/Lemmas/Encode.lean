import TurtleDb.Datatype.Encoding
import TurtleDb.Table.Tuple

/-!
# What the constructor of a tuple writes

The encodings of the non-NULL values one behind the other, and a bitmap that has the bit of a column
set exactly when its value is NULL.
-/

namespace TurtleDb.Table.Tuple

open TurtleDb.Lib TurtleDb.Datatype

/-- The bytes of the non-NULL values. -/
def encodeAll (values : List Value) : List UInt8 :=
  values.flatMap fun v => if v.isNull then [] else v.serialize

/-- The bit of column `j` in the bitmap. -/
def bitAt (data : Buffer) (j : Nat) : Bool := testBit (data.getD (j / 8) 0) (j % 8)

/-- Column `j` is one of `values`, which start at column `i`, and is NULL. -/
def nullAt (values : List Value) (i j : Nat) : Bool :=
  decide (i ≤ j) && ((values[j - i]?).map Value.isNull).getD false

theorem encodeAll_cons_null {v : Value} (hn : v.isNull = true) (vs : List Value) :
    encodeAll (v :: vs) = encodeAll vs := by
  simp [encodeAll, hn]

theorem encodeAll_cons {v : Value} (hn : v.isNull = false) (vs : List Value) :
    encodeAll (v :: vs) = v.serialize ++ encodeAll vs := by
  simp [encodeAll, hn]

/-! ## Bits -/

theorem testBit_eq (b : UInt8) {i : Nat} (hi : i < 8) : testBit b i = b.toNat.testBit i := by
  have hpow : 2 ^ i < 256 := Nat.pow_lt_pow_right (by decide) hi
  have hand : (b &&& UInt8.ofNat (2 ^ i)).toNat = b.toNat &&& 2 ^ i := by
    rw [UInt8.toNat_and, UInt8.toNat_ofNat', Nat.mod_eq_of_lt hpow]
  have hbit : (b.toNat &&& 2 ^ i).testBit i = b.toNat.testBit i := by
    rw [Nat.testBit_and, Nat.testBit_two_pow_self, Bool.and_true]
  have hzero : b &&& UInt8.ofNat (2 ^ i) = 0 ↔ b.toNat.testBit i = false := by
    rw [← UInt8.toNat_inj, hand, UInt8.toNat_zero]
    constructor
    · intro hz
      rw [← hbit, hz, Nat.zero_testBit]
    · intro hf
      apply Nat.eq_of_testBit_eq
      intro j
      rw [Nat.testBit_and, Nat.testBit_two_pow, Nat.zero_testBit]
      by_cases hij : i = j
      · rw [← hij, hf, Bool.false_and]
      · rw [decide_eq_false hij, Bool.and_false]
  unfold testBit
  cases h : b.toNat.testBit i
  · rw [hzero.mpr h]
    rfl
  · have : ¬ (b &&& UInt8.ofNat (2 ^ i) = 0) := fun hz => by rw [hzero.mp hz] at h; cases h
    simpa using this

theorem testBit_setBit (b : UInt8) {i j : Nat} (hi : i < 8) (hj : j < 8) :
    testBit (setBit b i) j = (decide (i = j) || testBit b j) := by
  have hpow : 2 ^ i < 256 := Nat.pow_lt_pow_right (by decide) hi
  rw [testBit_eq _ hj, testBit_eq _ hj, setBit, UInt8.toNat_or, UInt8.toNat_ofNat',
    Nat.mod_eq_of_lt hpow, Nat.testBit_or, Nat.testBit_two_pow, Bool.or_comm]

theorem testBit_zero (i : Nat) : testBit 0 i = false := by
  simp [testBit]

/-- Setting the bit of column `i` sets no other. -/
theorem bitAt_setBit {data : Buffer} {i : Nat} (hi : i / 8 + 1 ≤ data.length) (j : Nat) :
    bitAt (data.overwrite (i / 8) [setBit (data.getD (i / 8) 0) (i % 8)]) j =
      (decide (i = j) || bitAt data j) := by
  unfold bitAt
  rw [Buffer.getD_overwrite (by simpa using hi), List.length_singleton]
  by_cases h : j / 8 = i / 8
  · rw [if_pos (by omega), h, Nat.sub_self, List.getD_cons_zero,
      testBit_setBit _ (by omega) (by omega)]
    congr 1
    rw [decide_eq_decide]
    omega
  · have hne : i ≠ j := by rintro rfl; exact h rfl
    rw [if_neg (by omega), decide_eq_false hne, Bool.false_or]

theorem nullAt_cons (v : Value) (vs : List Value) (i j : Nat) :
    nullAt (v :: vs) i j = (decide (i = j) && v.isNull || nullAt vs (i + 1) j) := by
  unfold nullAt
  rcases Nat.lt_trichotomy i j with h | h | h
  · have hsub : j - i = (j - (i + 1)) + 1 := by omega
    have hle : i ≤ j := by omega
    have hne : i ≠ j := by omega
    have hlt : i + 1 ≤ j := h
    rw [hsub, List.getElem?_cons_succ]
    simp only [hle, hlt, hne, decide_true, decide_false, Bool.true_and, Bool.false_and,
      Bool.false_or]
  · subst h
    simp
  · have h1 : ¬ i ≤ j := by omega
    have h2 : ¬ i + 1 ≤ j := by omega
    have h3 : i ≠ j := by omega
    simp [h1, h2, h3]

/-! ## The loop -/

/-- The buffer `data` after the loop has run over `vs` from column `i` on, with `data_ptr` at `ptr`
and a bitmap of `n` bytes. -/
structure Encoded (data : Buffer) (n ptr i : Nat) (vs : List Value) (data' : Buffer) : Prop where
  length : data'.length = data.length
  written : ∀ q < (encodeAll vs).length, data'.getD (ptr + q) 0 = (encodeAll vs).getD q 0
  kept : ∀ q, n ≤ q → q < ptr ∨ ptr + (encodeAll vs).length ≤ q → data'.getD q 0 = data.getD q 0
  bits : ∀ j, j / 8 < n → bitAt data' j = (bitAt data j || nullAt vs i j)

theorem put_ok {data : Buffer} {off : Nat} {bytes : List UInt8}
    (h : off + bytes.length ≤ data.length) : put data off bytes = .ok (data.overwrite off bytes) := by
  rw [put, Buffer.store, if_pos h]

theorem put_eq_ok {data data' : Buffer} {off : Nat} {bytes : List UInt8}
    (h : put data off bytes = .ok data') :
    off + bytes.length ≤ data.length ∧ data' = data.overwrite off bytes := by
  unfold put Buffer.store at h
  by_cases hle : off + bytes.length ≤ data.length
  · rw [if_pos hle] at h
    exact ⟨hle, (Except.ok.inj h).symm⟩
  · rw [if_neg hle] at h
    cases h

theorem encode_ok {data : Buffer} {n ptr i : Nat} {vs : List Value}
    (hvalid : ∀ v ∈ vs, v.Valid) (hn : (i + vs.length + 7) / 8 ≤ n) (hptr : n ≤ ptr)
    (hlen : n ≤ data.length) (hword : data.length < word32)
    (hfit : ptr + (encodeAll vs).length ≤ data.length) :
    ∃ data', encode data ptr i vs = .ok data' ∧ Encoded data n ptr i vs data' := by
  induction vs generalizing data ptr i with
  | nil =>
      refine ⟨data, rfl, rfl, ?_, fun _ _ _ => rfl, ?_⟩
      · intro q hq
        exact absurd hq (by simp [encodeAll])
      · intro j _
        simp [nullAt]
  | cons v vs ih =>
      have hvs : ∀ u ∈ vs, u.Valid := fun u hu => hvalid u (by simp [hu])
      rw [List.length_cons] at hn
      cases hnull : v.isNull with
      | true =>
          rw [encodeAll_cons_null hnull] at hfit
          have hi : i / 8 + 1 ≤ data.length := by omega
          have hload : data.load (i / 8) 1 = some [data.getD (i / 8) 0] := by
            rw [Buffer.load, if_pos hi]
            rfl
          have hrest : ∃ data',
              encode (data.overwrite (i / 8) [setBit (data.getD (i / 8) 0) (i % 8)]) ptr (i + 1)
                vs = .ok data' ∧
              Encoded (data.overwrite (i / 8) [setBit (data.getD (i / 8) 0) (i % 8)]) n ptr (i + 1)
                vs data' :=
            ih hvs (by omega) hptr (by simpa using hlen) (by simpa using hword)
              (by simpa using hfit)
          obtain ⟨data', hrun, henc⟩ := hrest
          refine ⟨data', ?_, ?_, ?_, ?_, ?_⟩
          · simp only [encode, hnull, if_true, Value.fetch_eq_ok.mpr hload, ok_bind,
              List.getD_cons_zero, put_ok (show i / 8 + [setBit (data.getD (i / 8) 0)
                (i % 8)].length ≤ data.length by simpa using hi), hrun]
          · simpa using henc.length
          · rw [encodeAll_cons_null hnull]
            exact henc.written
          · intro q hq hout
            rw [encodeAll_cons_null hnull] at hout
            rw [henc.kept q hq hout, Buffer.getD_overwrite (by simpa using hi),
              List.length_singleton, if_neg (by omega)]
          · intro j hj
            rw [henc.bits j hj, bitAt_setBit hi, nullAt_cons, hnull, Bool.and_true]
            cases decide (i = j) <;> cases bitAt data j <;> simp
      | false =>
          have hv := hvalid v (by simp)
          rw [encodeAll_cons hnull, List.length_append] at hfit
          have hput : ptr + v.serialize.length ≤ data.length := by omega
          have hsize := Value.storageSize_eq hv hnull (by omega)
          have hget := fun q => Buffer.getD_overwrite hput q
          have hrest : ∃ data',
              encode (data.overwrite ptr v.serialize) (ptr + v.serialize.length) (i + 1) vs =
                .ok data' ∧
              Encoded (data.overwrite ptr v.serialize) n (ptr + v.serialize.length) (i + 1) vs
                data' :=
            ih hvs (by omega) (by omega) (by simpa using hlen) (by simpa using hword)
              (by rw [Buffer.length_overwrite]; omega)
          obtain ⟨data', hrun, henc⟩ := hrest
          refine ⟨data', ?_, ?_, ?_, ?_, ?_⟩
          · simp only [encode, hnull, put_ok hput, ok_bind, hsize, hrun, Bool.false_eq_true,
              if_false]
          · simpa using henc.length
          · intro q hq
            rw [encodeAll_cons hnull] at hq ⊢
            rw [List.length_append] at hq
            by_cases hlt : q < v.serialize.length
            · rw [henc.kept _ (by omega) (by omega), hget, if_pos (by omega),
                List.getD_append _ _ _ _ hlt, Nat.add_sub_cancel_left]
            · have hw := henc.written (q - v.serialize.length) (by omega)
              rw [List.getD_append_right _ _ _ _ (by omega), ← hw]
              congr 1
              omega
          · intro q hq hout
            rw [encodeAll_cons hnull, List.length_append] at hout
            rw [henc.kept q hq (by omega), hget, if_neg (by omega)]
          · intro j hj
            have hbit : bitAt (data.overwrite ptr v.serialize) j = bitAt data j := by
              unfold bitAt
              rw [hget, if_neg (by omega)]
            rw [henc.bits j hj, hbit, nullAt_cons, hnull, Bool.and_false, Bool.false_or]

theorem length_encode {data data' : Buffer} {ptr i : Nat} {vs : List Value}
    (h : encode data ptr i vs = .ok data') : data'.length = data.length := by
  induction vs generalizing data ptr i with
  | nil =>
      cases h
      rfl
  | cons v vs ih =>
      rw [encode] at h
      split at h
      · obtain ⟨bitmap, _, h⟩ := bind_eq_ok.mp h
        obtain ⟨data₁, hput, hrest⟩ := bind_eq_ok.mp h
        rw [ih hrest, (put_eq_ok hput).2, Buffer.length_overwrite]
      · obtain ⟨data₁, hput, hrest⟩ := bind_eq_ok.mp h
        rw [ih hrest, (put_eq_ok hput).2, Buffer.length_overwrite]

/-- The loop succeeds only when the values fit. -/
theorem encode_fits {data data' : Buffer} {ptr i : Nat} {vs : List Value}
    (hvalid : ∀ v ∈ vs, v.Valid) (hptr : ptr ≤ data.length) (hword : data.length < word32)
    (h : encode data ptr i vs = .ok data') : ptr + (encodeAll vs).length ≤ data.length := by
  induction vs generalizing data ptr i with
  | nil => simpa [encodeAll] using hptr
  | cons v vs ih =>
      have hvs : ∀ u ∈ vs, u.Valid := fun u hu => hvalid u (by simp [hu])
      cases hnull : v.isNull with
      | true =>
          simp only [encode, hnull, if_true, bind_eq_ok] at h
          obtain ⟨bitmap, _, data₁, hput, hrest⟩ := h
          obtain ⟨_, rfl⟩ := put_eq_ok hput
          have hfit := ih hvs (by simpa using hptr) (by simpa using hword) hrest
          rw [Buffer.length_overwrite] at hfit
          rw [encodeAll_cons_null hnull]
          exact hfit
      | false =>
          simp only [encode, hnull, bind_eq_ok, Bool.false_eq_true, if_false] at h
          obtain ⟨data₁, hput, hrest⟩ := h
          obtain ⟨hle, rfl⟩ := put_eq_ok hput
          have hsize := Value.storageSize_eq (hvalid v (by simp)) hnull (by omega)
          rw [hsize] at hrest
          have hfit := ih hvs (by simpa using hle) (by simpa using hword) hrest
          rw [Buffer.length_overwrite] at hfit
          rw [encodeAll_cons hnull, List.length_append]
          omega

end TurtleDb.Table.Tuple
