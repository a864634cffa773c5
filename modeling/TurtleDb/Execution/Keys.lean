import TurtleDb.Execution.Accumulate

/-!
# Keys

Keys of one list of types agree when their components are equal or both NULL. Their hashes pass the
NULLs over and are equal then; but `operator==` compares NULL with NULL, which gives NULL.
-/

namespace TurtleDb.Execution

open TurtleDb.Lib TurtleDb.Table TurtleDb.Datatype

variable {rt : Runtime} {ts : List DataType} {a b : List Value} {u v : Value}

/-- A key of these types, DECIMAL not among them. -/
structure KeyOf (ts : List DataType) (key : List Value) : Prop where
  noDecimal : .decimal ∉ ts
  types : key.map Value.dataType = ts
  valid : ∀ v ∈ key, v.Valid

/-- What is seen of a component: nothing of a NULL, and otherwise its number or its bytes. -/
def component (v : Value) : Option (List Int) := if v.isNull then none else some v.key

def components (key : List Value) : List (Option (List Int)) := key.map component

def NoNull (key : List Value) : Prop := ∀ v ∈ key, v.isNull = false

instance (key : List Value) : Decidable (NoNull key) := inferInstanceAs (Decidable (∀ v ∈ key, _))

/-! ## Components -/

theorem component_eq_iff (hu : u.isNull = false) (hv : v.isNull = false) :
    component u = component v ↔ u.key = v.key := by
  rw [component, component, hu, hv]
  exact Option.some_inj

theorem compareEquals_null (ht : u.dataType = v.dataType)
    (hnull : (u.isNull || v.isNull) = true) : u.compareEquals v = .ok .cmpNull := by
  have hcmp : u.checkComparable v = true := by simp [Value.checkComparable, ht]
  have hinlined : ∀ cmp, Value.compareInlined cmp u v = .ok .cmpNull := by
    intro cmp
    rw [Value.compareInlined, hcmp, hnull]
    rfl
  rw [Value.compareEquals, Value.compare]
  cases u.dataType with
  | varchar =>
      change Value.compareVarchar .eq u v = _
      rw [Value.compareVarchar, if_pos hnull]
  | timestamp =>
      change Value.compareTimestamp .eq u v = _
      rw [Value.compareTimestamp]
      · exact hinlined _
      · exact fun h => CmpOp.noConfusion h
      · exact fun h => CmpOp.noConfusion h
  | _ => exact hinlined _

theorem apply_eq {α : Type} [LinearOrder α] (x y : α) [Decidable (x = y)] :
    CmpOp.eq.apply x y = decide (x = y) := decide_eq_decide.mpr Iff.rfl

theorem number_timestamp (ht : v.dataType = .timestamp) : v.number = (v.getAs 64).toInt := by
  rw [Value.number, ht]
  rfl

theorem key_of_ne_varchar (ht : v.dataType ≠ .varchar) : v.key = [v.number] := if_neg ht

/-- Two values that are not NULL are equal when their numbers or their bytes are. -/
theorem compareEquals_notNull (ht : u.dataType = v.dataType) (hdec : u.dataType ≠ .decimal)
    (hu : u.Valid) (hv : v.Valid) (hun : u.isNull = false) (hvn : v.isNull = false) :
    u.compareEquals v = .ok (getCmpBool (decide (u.key = v.key))) := by
  by_cases htime : u.dataType = .timestamp
  · have htime' : v.dataType = .timestamp := ht ▸ htime
    have hcmp : u.checkComparable v = true := by simp [Value.checkComparable, ht]
    have hkey : u.key = v.key ↔ (u.getAs 64).toNat = (v.getAs 64).toNat := by
      rw [key_of_ne_varchar (by rw [htime]; decide), key_of_ne_varchar (by rw [htime']; decide),
        List.singleton_inj, number_timestamp htime, number_timestamp htime', BitVec.toInt_inj,
        BitVec.toNat_inj]
    rw [Value.compareEquals, Value.compare, htime]
    change Value.compareTimestamp .eq u v = _
    rw [Value.compareTimestamp]
    · rw [Value.compareInlined, hcmp, hun, hvn, apply_eq, decide_eq_decide.mpr hkey]
      rfl
    · exact fun h => CmpOp.noConfusion h
    · exact fun h => CmpOp.noConfusion h
  · rw [Value.compareEquals, Value.compare_eq .eq ht ⟨hdec, htime⟩ hu hv hun hvn, apply_eq]

theorem getAs_eq_of_key (ht : u.dataType = .timestamp) (hv : v.dataType = .timestamp)
    (h : u.key = v.key) : u.getAs 64 = v.getAs 64 := by
  rw [key_of_ne_varchar (by rw [ht]; decide), key_of_ne_varchar (by rw [hv]; decide),
    List.singleton_inj, number_timestamp ht, number_timestamp hv] at h
  exact BitVec.toInt_inj.mp h

theorem codes_injective : Function.Injective Value.codes :=
  List.map_injective_iff.mpr fun _ _ h => UInt8.toNat_inj.mp (Int.ofNat_inj.mp h)

theorem payload_eq_of_key (ht : u.dataType = .varchar) (hv : v.dataType = .varchar)
    (h : u.key = v.key) : u.payload = v.payload := by
  rw [Value.key, Value.key, if_pos ht, if_pos hv] at h
  exact codes_injective h

/-- The text of a value is that of its number or its bytes. -/
theorem valueText_of_key (rt : Runtime) (ht : u.dataType = v.dataType)
    (hdec : u.dataType ≠ .decimal) (hu : u.isNull = false) (hv : v.isNull = false)
    (hkey : u.key = v.key) : valueText rt u = valueText rt v := by
  cases h : u.dataType with
  | decimal => exact absurd h hdec
  | varchar =>
      have h' := ht.symm.trans h
      rw [valueText, valueText, h, h']
      simp only [varcharToString, hu, hv, payload_eq_of_key h h' hkey]
  | timestamp =>
      have h' := ht.symm.trans h
      rw [valueText, valueText, h, h']
      simp only [timestampToString, hu, hv, getAs_eq_of_key h h' hkey]
  | _ =>
      have h' := ht.symm.trans h
      rw [key_of_ne_varchar (by rw [h]; decide), key_of_ne_varchar (by rw [h']; decide),
        List.singleton_inj] at hkey
      rw [valueText, valueText, h, h', hu, hv, hkey]

/-! ## Keys -/

theorem KeyOf.tail {t : DataType} (h : KeyOf (t :: ts) (v :: a)) : KeyOf ts a :=
  ⟨fun hmem => h.noDecimal (List.mem_cons_of_mem _ hmem), (List.cons.inj h.types).2,
    fun w hw => h.valid w (List.mem_cons_of_mem _ hw)⟩

theorem KeyOf.head {t : DataType} (h : KeyOf (t :: ts) (v :: a)) :
    v.dataType = t ∧ t ≠ .decimal ∧ v.Valid :=
  ⟨(List.cons.inj h.types).1, fun ht => h.noDecimal (ht ▸ List.mem_cons_self),
    h.valid v List.mem_cons_self⟩

/-- `operator==` says whether the components agree, and no component of the left key is NULL. -/
theorem KeyOf.equal (ha : KeyOf ts a) (hb : KeyOf ts b) :
    AggregateKey.equal a b = .ok (decide (components a = components b ∧ NoNull a)) := by
  induction ts generalizing a b with
  | nil =>
      obtain rfl := List.map_eq_nil_iff.mp ha.types
      obtain rfl := List.map_eq_nil_iff.mp hb.types
      rfl
  | cons t ts ih =>
      match a, b, ha, hb with
      | [], _, ha, _ => cases ha.types
      | _ :: _, [], _, hb => cases hb.types
      | u :: a, v :: b, ha, hb =>
          obtain ⟨hut, hdec, hu⟩ := ha.head
          obtain ⟨hvt, -, hv⟩ := hb.head
          have ht : u.dataType = v.dataType := hut.trans hvt.symm
          have hiff : (components (u :: a) = components (v :: b) ∧ NoNull (u :: a)) ↔
              (component u = component v ∧ u.isNull = false) ∧
                (components a = components b ∧ NoNull a) := by
            simp only [components, List.map_cons, List.cons.injEq, NoNull, List.forall_mem_cons]
            tauto
          rw [AggregateKey.equal]
          cases hnull : u.isNull || v.isNull with
          | true =>
              rw [compareEquals_null ht hnull, decide_eq_false]
              · rfl
              · intro h
                obtain ⟨⟨hcomp, hun⟩, -⟩ := hiff.mp h
                rw [hun, Bool.false_or] at hnull
                rw [component, component, hun, hnull] at hcomp
                cases hcomp
          | false =>
              obtain ⟨hun, hvn⟩ := Bool.or_eq_false_iff.mp hnull
              rw [component_eq_iff hun hvn] at hiff
              rw [compareEquals_notNull ht (hut ▸ hdec) hu hv hun hvn, ok_bind,
                ih ha.tail hb.tail]
              by_cases hkey : u.key = v.key
              · rw [decide_eq_true hkey]
                exact congrArg Except.ok (decide_eq_decide.mpr
                  (hiff.trans (and_iff_right ⟨hkey, hun⟩)).symm)
              · rw [decide_eq_false hkey, decide_eq_false fun h => hkey (hiff.mp h).1.1]
                rfl

/-- Where a NULL stands the hash is passed on, so keys that agree have one hash. -/
theorem KeyOf.hash (rt : Runtime) (ha : KeyOf ts a) (hb : KeyOf ts b)
    (h : components a = components b) : AggregateKey.hash rt a = AggregateKey.hash rt b := by
  rw [AggregateKey.hash, AggregateKey.hash]
  generalize (0 : BitVec 64) = currHash
  induction ts generalizing a b currHash with
  | nil =>
      obtain rfl := List.map_eq_nil_iff.mp ha.types
      obtain rfl := List.map_eq_nil_iff.mp hb.types
      rfl
  | cons t ts ih =>
      match a, b, ha, hb, h with
      | [], _, ha, _, _ => cases ha.types
      | _ :: _, [], _, hb, _ => cases hb.types
      | u :: a, v :: b, ha, hb, h =>
          obtain ⟨hut, hdec, -⟩ := ha.head
          obtain ⟨hvt, -, -⟩ := hb.head
          obtain ⟨hcomp, hrest⟩ := List.cons.inj h
          rw [List.foldl_cons, List.foldl_cons]
          cases hun : u.isNull with
          | true =>
              have hvn : v.isNull = true := by
                by_contra hvn
                rw [component, component, hun, if_pos rfl, if_neg hvn] at hcomp
                cases hcomp
              rw [hvn, if_pos rfl, if_pos rfl]
              exact ih ha.tail hb.tail hrest _
          | false =>
              have hvn : v.isNull = false := by
                by_contra hvn
                rw [Bool.not_eq_false] at hvn
                rw [component, component, hun, hvn] at hcomp
                cases hcomp
              rw [hvn, valueText_of_key rt (hut.trans hvt.symm) (hut ▸ hdec) hun hvn
                ((component_eq_iff hun hvn).mp hcomp)]
              exact ih ha.tail hb.tail hrest _

/-- Without a NULL, `operator==` and the hash are what the hash map asks for. -/
theorem equivalenceOn_components {keys : List (List Value)}
    (h : ∀ key ∈ keys, KeyOf ts key ∧ NoNull key) :
    EquivalenceOn AggregateKey.equal (AggregateKey.hash rt)
      (fun a b => components a = components b) keys where
  decides a ha b hb := ⟨_, (h a ha).1.equal (h b hb).1, by simp [(h a ha).2]⟩
  refl _ _ := rfl
  symm _ _ _ _ hab := hab.symm
  trans _ _ _ _ _ _ hab hbc := hab.trans hbc
  hash a ha b hb hab := (h a ha).1.hash rt (h b hb).1 hab

end TurtleDb.Execution
