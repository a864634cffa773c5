import TurtleDb.Lib.Bytes

/-!
# Prefix codes

An encoding whose words can be told off the front of any bytes: no two of them begin alike.
-/

namespace TurtleDb.Lib

variable {α β : Type}

/-- On the values `valid` admits, `encode` begins no bytes in two ways. -/
def PrefixCode (valid : α → Prop) (encode : α → List UInt8) : Prop :=
  ∀ a b s t, valid a → valid b → encode a ++ s = encode b ++ t → a = b ∧ s = t

namespace PrefixCode

variable {valid : α → Prop} {encode : α → List UInt8} {valid' : β → Prop} {encode' : β → List UInt8}

theorem word (k : Nat) : PrefixCode (fun v => v < 256 ^ k) (leBytes k) := by
  intro a b s t ha hb h
  obtain ⟨hword, hrest⟩ := List.append_inj h (by simp)
  have hnat := congrArg leNat hword
  rw [leNat_leBytes, leNat_leBytes, Nat.mod_eq_of_lt ha, Nat.mod_eq_of_lt hb] at hnat
  exact ⟨hnat, hrest⟩

/-- Bytes behind a word that says how many they are. -/
theorem counted (k : Nat) :
    PrefixCode (fun s : List UInt8 => s.length < 256 ^ k) fun s => leBytes k s.length ++ s := by
  intro a b s t ha hb h
  rw [List.append_assoc, List.append_assoc] at h
  obtain ⟨hlen, hrest⟩ := word k _ _ _ _ ha hb h
  exact List.append_inj hrest hlen

theorem prod (h : PrefixCode valid encode) (h' : PrefixCode valid' encode') :
    PrefixCode (fun p : α × β => valid p.1 ∧ valid' p.2) fun p => encode p.1 ++ encode' p.2 := by
  rintro ⟨a, b⟩ ⟨c, d⟩ s t ⟨ha, hb⟩ ⟨hc, hd⟩ heq
  simp only [List.append_assoc] at heq
  obtain ⟨rfl, hrest⟩ := h a c _ _ ha hc heq
  obtain ⟨rfl, hst⟩ := h' b d _ _ hb hd hrest
  exact ⟨rfl, hst⟩

/-- The words of a list of known length. -/
theorem list (h : PrefixCode valid encode) {l m : List α} (hlen : l.length = m.length)
    (hl : ∀ a ∈ l, valid a) (hm : ∀ a ∈ m, valid a) {s t : List UInt8}
    (heq : (l.map encode).flatten ++ s = (m.map encode).flatten ++ t) : l = m ∧ s = t := by
  induction l generalizing m with
  | nil =>
      cases m with
      | nil => exact ⟨rfl, heq⟩
      | cons b m => cases hlen
  | cons a l ih =>
      cases m with
      | nil => cases hlen
      | cons b m =>
          simp only [List.map_cons, List.flatten_cons, List.append_assoc] at heq
          obtain ⟨rfl, hrest⟩ := h a b _ _ (hl a List.mem_cons_self) (hm b List.mem_cons_self) heq
          obtain ⟨rfl, hst⟩ := ih (Nat.succ.inj hlen) (fun c hc => hl c (List.mem_cons_of_mem _ hc))
            (fun c hc => hm c (List.mem_cons_of_mem _ hc)) hrest
          exact ⟨rfl, hst⟩

end PrefixCode

end TurtleDb.Lib
