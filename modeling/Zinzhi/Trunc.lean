import Mathlib.Data.Rat.Floor

/-!
Converting a number to an integer by dropping its fraction, as C++ converts a `double`, here
on exact rationals.
-/

namespace Zinzhi.Trunc

def toInt (q : ℚ) : ℤ := if 0 ≤ q then ⌊q⌋ else ⌈q⌉

@[simp] lemma toInt_intCast (a : ℤ) : toInt (a : ℚ) = a := by
  unfold toInt; split_ifs <;> simp

/-- A quotient of integers is truncated as the integer division of C does. -/
lemma toInt_div (a : ℤ) {b : ℕ} (hb : 0 < b) : toInt ((a : ℚ) / b) = a.tdiv b := by
  have hbq : (0 : ℚ) < b := by exact_mod_cast hb
  unfold toInt
  split_ifs with h
  · have ha : 0 ≤ a := by
      have := (le_div_iff₀ hbq).mp h
      rw [zero_mul] at this; exact_mod_cast this
    rw [Rat.floor_intCast_div_natCast, Int.tdiv_eq_ediv_of_nonneg ha]
  · have ha : a < 0 := by
      have := (div_lt_iff₀ hbq).mp (not_le.mp h)
      rw [zero_mul] at this; exact_mod_cast this
    obtain ⟨c, rfl⟩ : ∃ c, a = -c := ⟨-a, by omega⟩
    have hneg : (((-c : ℤ) : ℚ) / b) = -((c : ℚ) / b) := by push_cast; ring
    rw [hneg, Int.ceil_neg, Rat.floor_intCast_div_natCast, Int.neg_tdiv,
      Int.tdiv_eq_ediv_of_nonneg (by omega)]

/-- The same for a number known by a multiple of it. -/
lemma toInt_of_mul_eq {q : ℚ} {b : ℕ} (a : ℤ) (hb : 0 < b) (h : q * b = a) :
    toInt q = a.tdiv b := by
  have hbq : (b : ℚ) ≠ 0 := by exact_mod_cast hb.ne'
  rw [← toInt_div a hb, ← h, mul_div_cancel_right₀ q hbq]

/-- Integer division of C, for `omega`. -/
lemma tdiv_of_nonneg {a : ℤ} (b : ℤ) (h : 0 ≤ a) : a.tdiv b = a / b :=
  Int.tdiv_eq_ediv_of_nonneg h

lemma tdiv_of_neg {a : ℤ} (b : ℤ) (h : a < 0) : a.tdiv b = -(-a / b) := by
  rw [← Int.tdiv_eq_ediv_of_nonneg (by omega), Int.neg_tdiv, neg_neg]

end Zinzhi.Trunc
