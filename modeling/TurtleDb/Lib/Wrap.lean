import Mathlib.Tactic.Ring
import Mathlib.Algebra.Order.Ring.Abs

/-!
# Signed words

Numbers in two's complement. `wrap w` keeps the low `w` bits of a number and reads them as a signed
word. The overflow checks that compare signs, or divide a product by a factor, are about it.
-/

namespace TurtleDb.Lib

/-- The numbers a signed word of `w` bits holds. -/
def Fits (w : Nat) (x : Int) : Prop := -2 ^ (w - 1) ≤ x ∧ x < 2 ^ (w - 1)

instance (w : Nat) (x : Int) : Decidable (Fits w x) := inferInstanceAs (Decidable (_ ∧ _))

def wrap (w : Nat) (x : Int) : Int := x.bmod (2 ^ w)

variable {w m : Nat} {x y : Int}

theorem two_pow_eq (hw : 0 < w) : ((2 ^ w : Nat) : Int) = 2 * 2 ^ (w - 1) := by
  obtain ⟨n, rfl⟩ := Nat.exists_eq_succ_of_ne_zero (Nat.ne_of_gt hw)
  rw [Nat.succ_sub_one, Nat.cast_pow, Nat.cast_ofNat, Int.pow_succ']

theorem half_pos (w : Nat) : (0 : Int) < 2 ^ (w - 1) := Int.pow_pos (by decide)

/-- The word differs from the number by a multiple of `2 ^ w`. -/
theorem exists_wrap (hw : 0 < w) (x : Int) : ∃ k, wrap w x = x + 2 * 2 ^ (w - 1) * k := by
  refine ⟨-Int.bdiv x (2 ^ w), ?_⟩
  rw [wrap, Int.bmod_eq_self_sub_mul_bdiv, two_pow_eq hw]
  ring

theorem fits_wrap (hw : 0 < w) (x : Int) : Fits w (wrap w x) := by
  have hpos : 0 < 2 ^ w := Nat.two_pow_pos w
  have hlo := @Int.le_bmod x (2 ^ w) hpos
  have hhi := @Int.bmod_lt x (2 ^ w) hpos
  rw [two_pow_eq hw] at hlo hhi
  constructor
  · rw [wrap]
    omega
  · rw [wrap]
    omega

theorem wrap_of_fits (hw : 0 < w) (h : Fits w x) : wrap w x = x := by
  obtain ⟨hlo, hhi⟩ := h
  refine Int.bmod_eq_of_le ?_ ?_
  · rw [two_pow_eq hw]
    omega
  · rw [two_pow_eq hw]
    omega

theorem wrap_eq_self (hw : 0 < w) : wrap w x = x ↔ Fits w x :=
  ⟨fun h => h ▸ fits_wrap hw x, wrap_of_fits hw⟩

theorem Fits.mono (h : Fits m x) (hle : m ≤ w) : Fits w x := by
  obtain ⟨hlo, hhi⟩ := h
  have hpow : (2 : Int) ^ (m - 1) ≤ 2 ^ (w - 1) :=
    pow_le_pow_right₀ (by decide) (Nat.sub_le_sub_right hle 1)
  exact ⟨by omega, by omega⟩

/-- A number that is too large by less than a whole turn comes back from below. -/
theorem wrap_above (hw : 0 < w) (hlo : 2 ^ (w - 1) ≤ x) (hhi : x < 3 * 2 ^ (w - 1)) :
    wrap w x = x - 2 * 2 ^ (w - 1) := by
  have hfits : Fits w (x - 2 * 2 ^ (w - 1)) := ⟨by omega, by omega⟩
  rw [← wrap_of_fits hw hfits, wrap, wrap, ← two_pow_eq hw, Int.sub_bmod_right]

theorem wrap_below (hw : 0 < w) (hlo : -(3 * 2 ^ (w - 1)) ≤ x) (hhi : x < -2 ^ (w - 1)) :
    wrap w x = x + 2 * 2 ^ (w - 1) := by
  have hfits : Fits w (x + 2 * 2 ^ (w - 1)) := ⟨by omega, by omega⟩
  rw [← wrap_of_fits hw hfits, wrap, wrap, ← two_pow_eq hw, Int.add_bmod_right]

theorem abs_tmod_lt (x : Int) (hy : y ≠ 0) : |x.tmod y| < |y| := by
  rw [Int.abs_eq_natAbs, Int.abs_eq_natAbs, Int.natAbs_tmod]
  exact_mod_cast Nat.mod_lt _ (Int.natAbs_pos.mpr hy)

theorem abs_tdiv_le (x y : Int) : |x.tdiv y| ≤ |x| := by
  rw [Int.abs_eq_natAbs, Int.abs_eq_natAbs]
  exact_mod_cast Int.natAbs_tdiv_le_natAbs x y

theorem abs_tmod_le (x y : Int) : |x.tmod y| ≤ |x| := by
  rw [Int.abs_eq_natAbs, Int.abs_eq_natAbs, Int.natAbs_tmod]
  exact_mod_cast Nat.mod_le _ _

/-- A product that wrapped around is off by `2 ^ w` at least. Divided by the one factor it does not
give the other: the remainder of the division is less than a word. -/
theorem fits_mul_of_tdiv_eq (hw : 0 < w) (hy : y ≠ 0) (hfits : |y| ≤ 2 ^ (w - 1))
    (h : (wrap w (x * y)).tdiv y = x) : Fits w (x * y) := by
  obtain ⟨k, hk⟩ := exists_wrap hw (x * y)
  have hmod : (wrap w (x * y)).tmod y = 2 ^ (w - 1) * (2 * k) := by
    rw [Int.tmod_def, h, hk]
    ring
  have hlt : 2 ^ (w - 1) * |2 * k| < 2 ^ (w - 1) * 1 := by
    calc 2 ^ (w - 1) * |2 * k| = |(wrap w (x * y)).tmod y| := by
          rw [hmod, abs_mul (2 ^ (w - 1)), abs_of_pos (half_pos w)]
      _ < |y| := abs_tmod_lt _ hy
      _ ≤ 2 ^ (w - 1) * 1 := by rwa [Int.mul_one]
  have hzero : |2 * k| < 1 := lt_of_mul_lt_mul_left hlt (Int.le_of_lt (half_pos w))
  have hk0 : k = 0 := by
    rw [Int.abs_lt_one_iff] at hzero
    omega
  rw [hk0, Int.mul_zero, Int.add_zero] at hk
  exact (wrap_eq_self hw).mp hk

end TurtleDb.Lib
