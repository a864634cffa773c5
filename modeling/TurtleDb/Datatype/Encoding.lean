import Mathlib.Data.List.GetD
import TurtleDb.Datatype.Value
import TurtleDb.Lib.Result

/-!
# Encoding one value

When `deserialize` gives back the value that `serialize` wrote. The exceptions are the empty
`VARCHAR`, whose length prefix stands for NULL, and the pattern of each fixed-size type that does.
-/

namespace TurtleDb.Datatype.Value

open TurtleDb.Lib

/-- A `VARCHAR` has the characters its length says, and the length is a 32-bit number. -/
def Valid (v : Value) : Prop :=
  v.dataType = .varchar → v.isNull = false → v.varlen.length = v.len ∧ v.len < word32

/-- Both are NULL, or neither is and both have the same type and payload. -/
def Same (u v : Value) : Prop :=
  u.isNull = v.isNull ∧ (v.isNull = false → u.dataType = v.dataType ∧ u.payload = v.payload)

/-- The encoding of the value is not one that stands for NULL. -/
def Survives (v : Value) : Prop :=
  if v.dataType = .varchar then v.len ≠ 0
  else (ofWord v.dataType (leNat v.payload)).isNull = false

instance (v : Value) : Decidable v.Survives := by unfold Survives; infer_instance

theorem isNull_null (t : DataType) : (null t).isNull = true := by simp [null, isNull]

theorem leBytes_congr {k a b : Nat} (h : a % 256 ^ k = b % 256 ^ k) : leBytes k a = leBytes k b := by
  have ha := leNat_leBytes k a
  have hb := leNat_leBytes k b
  have hle := leBytes_leNat (leBytes k a)
  rw [length_leBytes, ha, h, ← hb] at hle
  have hle' := leBytes_leNat (leBytes k b)
  rw [length_leBytes] at hle'
  exact hle.symm.trans hle'

theorem toNat_signExtend_mod (x : BitVec 8) : (x.signExtend 16).toNat % 256 = x.toNat := by
  have h : (x.signExtend 16).setWidth 8 = x := by
    apply BitVec.eq_of_getLsbD_eq
    intro i hi
    have : i < 16 := by omega
    simp only [BitVec.getLsbD_setWidth, BitVec.getLsbD_signExtend, hi, this, decide_true,
      Bool.true_and, if_true]
  have := congrArg BitVec.toNat h
  simpa [BitVec.toNat_setWidth] using this

theorem dataType_ofWord (t : DataType) (n : Nat) : (ofWord t n).dataType = t := by
  cases t <;> rfl

/-- Reading a word back as bytes gives the bytes it was made of. -/
theorem payload_ofWord {t : DataType} (ht : t ≠ .varchar) {bytes : List UInt8}
    (h : bytes.length = t.size) : (ofWord t (leNat bytes)).payload = bytes := by
  have hlt := leNat_lt bytes
  have hbytes := leBytes_leNat bytes
  rw [h] at hlt hbytes
  have hdt := dataType_ofWord t (leNat bytes)
  rw [payload, hdt, if_neg ht]
  refine Eq.trans (leBytes_congr ?_) hbytes
  cases t with
  | varchar => exact absurd rfl ht
  | tinyint =>
      have hs := toNat_signExtend_mod (BitVec.ofNat 8 (leNat bytes))
      simp only [ofWord, ofInt16, ofBits, DataType.size, BitVec.toNat_setWidth,
        BitVec.toNat_ofNat] at hs ⊢
      omega
  | _ =>
      simp only [ofWord, ofInt8, ofInt16, ofInt32, ofInt64, ofDouble, ofUInt64, ofBits,
        DataType.size, BitVec.toNat_setWidth, BitVec.toNat_ofNat] at hlt ⊢
      omega

theorem length_payload {v : Value} (hv : v.Valid) (hn : v.isNull = false) :
    v.payload.length = if v.dataType = .varchar then v.len else v.dataType.size := by
  unfold payload
  split
  next ht => rw [List.length_take, (hv ht hn).1, Nat.min_self]
  next => rw [length_leBytes]

theorem length_serialize {v : Value} (hv : v.Valid) (hn : v.isNull = false) :
    v.serialize.length = if v.dataType = .varchar then 4 + v.len else v.dataType.size := by
  have hp := length_payload hv hn
  unfold serialize
  rw [hn]
  split
  next ht =>
    rw [if_pos ht] at hp
    simp [hp]
  next ht =>
    rw [if_neg ht] at hp
    exact hp

theorem size_pos (t : DataType) : 0 < t.size := by cases t <;> decide

/-- The size of a value that is written is the number of its bytes, unless that wraps around. -/
theorem storageSize_eq {v : Value} (hv : v.Valid) (hn : v.isNull = false)
    (h : v.serialize.length < word32) : v.storageSize = v.serialize.length := by
  rw [length_serialize hv hn] at h ⊢
  unfold storageSize
  rw [hn]
  split
  next ht =>
    rw [if_pos ht] at h
    rw [if_neg (by simp), add32_of_lt (by omega), Nat.add_comm]
  next => rfl

/-! ## Reading back -/

theorem fetch_eq_ok {b : Buffer} {off len : Nat} {bytes : List UInt8} :
    fetch b off len = .ok bytes ↔ b.load off len = some bytes := by
  unfold fetch
  cases b.load off len <;> simp

/-- The buffer holds the bytes `bs` at `off`. -/
def HoldsAt (b : Buffer) (off : Nat) (bs : List UInt8) : Prop :=
  off + bs.length ≤ b.length ∧ ∀ k < bs.length, b.getD (off + k) 0 = bs.getD k 0

theorem holdsAt_iff_load {b : Buffer} {off : Nat} {bs : List UInt8} :
    HoldsAt b off bs ↔ b.load off bs.length = some bs := by
  rw [Buffer.load_eq_some]
  constructor
  · rintro ⟨hle, hget⟩
    exact ⟨hle, rfl, fun k hk => (hget k hk).symm⟩
  · rintro ⟨hle, _, hget⟩
    exact ⟨hle, fun k hk => (hget k hk).symm⟩

theorem holdsAt_append {b : Buffer} {off : Nat} {as bs : List UInt8} :
    HoldsAt b off (as ++ bs) ↔ HoldsAt b off as ∧ HoldsAt b (off + as.length) bs := by
  unfold HoldsAt
  rw [List.length_append]
  constructor
  · rintro ⟨hle, hget⟩
    refine ⟨⟨by omega, ?_⟩, ⟨by omega, ?_⟩⟩
    · intro k hk
      rw [hget k (by omega), List.getD_append _ _ _ _ hk]
    · intro k hk
      rw [Nat.add_assoc, hget (as.length + k) (by omega),
        List.getD_append_right _ _ _ _ (by omega), Nat.add_sub_cancel_left]
  · rintro ⟨⟨hle, hget⟩, ⟨hle', hget'⟩⟩
    refine ⟨by omega, ?_⟩
    intro k hk
    by_cases hka : k < as.length
    · rw [hget k hka, List.getD_append _ _ _ _ hka]
    · have := hget' (k - as.length) (by omega)
      rw [List.getD_append_right _ _ _ _ (by omega), ← this]
      congr 1
      omega

theorem same_ofWord_iff {v : Value} (ht : v.dataType ≠ .varchar) (hn : v.isNull = false)
    {bytes : List UInt8} (hlen : bytes.length = v.dataType.size) :
    Same (ofWord v.dataType (leNat bytes)) v ↔ bytes = v.payload ∧ v.Survives := by
  have hp := payload_ofWord ht hlen
  rw [Same, hn, hp, Survives, if_neg ht]
  constructor
  · rintro ⟨hnull, hsame⟩
    obtain ⟨_, hb⟩ := hsame rfl
    exact ⟨hb, by rw [← hb]; exact hnull⟩
  · rintro ⟨hb, hs⟩
    rw [← hb] at hs
    exact ⟨hs, fun _ => ⟨dataType_ofWord _ _, hb⟩⟩

/-- Deserialising at `off` gives back `v` exactly when the encoding of `v` is there and survives. -/
theorem deserialize_same_iff {v : Value} (hv : v.Valid) (hn : v.isNull = false) (b : Buffer)
    (off : Nat) :
    (∃ u, deserialize v.dataType b off = .ok u ∧ Same u v) ↔
      HoldsAt b off v.serialize ∧ v.Survives := by
  by_cases ht : v.dataType = .varchar
  · obtain ⟨hlen, hlt⟩ := hv ht hn
    have hpay : v.payload = v.varlen := by rw [payload, if_pos ht, ← hlen, List.take_length]
    have hser : v.serialize = leBytes 4 v.len ++ v.varlen := by
      rw [serialize, if_pos ht, hn, if_neg (by simp), hpay]
    have hword : leNat (leBytes 4 v.len) = v.len := by
      rw [leNat_leBytes]
      exact Nat.mod_eq_of_lt hlt
    have hnull : v.len ≠ valueNull := by simpa [isNull] using hn
    rw [hser, holdsAt_append, holdsAt_iff_load, holdsAt_iff_load, length_leBytes, hlen, Survives,
      if_pos ht]
    constructor
    · rintro ⟨u, hu, hsame⟩
      rw [deserialize, if_pos ht, bind_eq_ok] at hu
      obtain ⟨len, hfetch, hu⟩ := hu
      rw [fetch_eq_ok] at hfetch
      have hlen4 := (Buffer.load_eq_some.mp hfetch).2.1
      split at hu
      next hz =>
        -- a zero length reads as NULL, and `v` is not
        cases hu
        have := hsame.1
        rw [isNull_null, hn] at this
        cases this
      next hz =>
        rw [bind_eq_ok] at hu
        obtain ⟨data, hdata, hu⟩ := hu
        rw [fetch_eq_ok] at hdata
        cases hu
        have hdlen := (Buffer.load_eq_some.mp hdata).2.1
        obtain ⟨_, hpayload⟩ := hsame.2 hn
        have hd : data = v.varlen := by
          rw [hpay] at hpayload
          simpa [payload, ofChars] using hpayload
        have hL : leNat len = v.len := by rw [← hdlen, hd, hlen]
        have hbytes : len = leBytes 4 v.len := by
          rw [← hL, ← hlen4]
          exact (leBytes_leNat len).symm
        rw [hbytes] at hfetch
        rw [hd, hL] at hdata
        exact ⟨⟨hfetch, hdata⟩, by rw [← hL]; exact hz⟩
    · rintro ⟨⟨hfetch, hdata⟩, hz⟩
      refine ⟨ofChars .varchar v.varlen, ?_, ?_⟩
      · rw [deserialize, if_pos ht, fetch_eq_ok.mpr hfetch, ok_bind, hword, if_neg hz,
          fetch_eq_ok.mpr hdata, ok_bind]
        rfl
      · refine ⟨by rw [hn]; simpa [ofChars, isNull, hlen] using hnull, fun _ => ⟨ht.symm, ?_⟩⟩
        rw [hpay, payload]
        simp [ofChars]
  · have hser : v.serialize = v.payload := by rw [serialize, if_neg ht]
    have hplen : v.payload.length = v.dataType.size := by rw [length_payload hv hn, if_neg ht]
    rw [hser, holdsAt_iff_load, hplen]
    constructor
    · rintro ⟨u, hu, hsame⟩
      rw [deserialize, if_neg ht, bind_eq_ok] at hu
      obtain ⟨bytes, hfetch, hu⟩ := hu
      rw [fetch_eq_ok] at hfetch
      cases hu
      obtain ⟨hb, hs⟩ := (same_ofWord_iff ht hn (Buffer.load_eq_some.mp hfetch).2.1).mp hsame
      exact ⟨by rw [← hb]; exact hb ▸ hfetch, hs⟩
    · rintro ⟨hload, hs⟩
      refine ⟨ofWord v.dataType (leNat v.payload), ?_, (same_ofWord_iff ht hn hplen).mpr ⟨rfl, hs⟩⟩
      rw [deserialize, if_neg ht, fetch_eq_ok.mpr hload, ok_bind]
      rfl

end TurtleDb.Datatype.Value
