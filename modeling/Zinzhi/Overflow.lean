import Mathlib.Algebra.Order.Ring.Int

/-!
Arithmetic of the C type `int`, of 32 bits.

A result that is not in the range of the type has no meaning in C, so a computation of several
operations has a value only when each of them has one. `int` checks one result, and the checks
of a computation are chained in `Option`.
-/

namespace Zinzhi.Overflow

/-- The values of the type `int`. -/
def Fits (a : ℤ) : Prop := -2147483648 ≤ a ∧ a ≤ 2147483647

instance (a : ℤ) : Decidable (Fits a) := inferInstanceAs (Decidable (_ ∧ _))

/-- The value of an operation on `int`s, or of a conversion to `int`. -/
def int (a : ℤ) : Option ℤ := if Fits a then some a else none

lemma int_of_fits {a : ℤ} (h : Fits a) : int a = some a := if_pos h

lemma int_eq_some_iff {a b : ℤ} : int a = some b ↔ Fits a ∧ a = b := by
  unfold int
  split_ifs with h <;> simp [h]

/-- A computation has a value when its first operation has one and the rest does. -/
lemma int_bind_eq_some_iff {α : Type} {a : ℤ} {f : ℤ → Option α} {b : α} :
    (int a >>= f) = some b ↔ Fits a ∧ f a = some b := by
  unfold int
  split_ifs with h <;> simp [h]

end Zinzhi.Overflow
