import Mathlib.Logic.Function.Iterate
import Mathlib.Tactic.Ring

/-!
Integer coordinates on a type with a successor.

A set of points closed under the successor is numbered by `num`, which the successor raises by
one, and `den` finds the point of a number. From these three facts alone the coordinate counts
the successors: the point `n` steps on from `a` is `den (num a + n)`, and every number from
`num a` on is the number of a point.
-/

namespace Zinzhi.Coordinate

/-- `num` numbers the points of `P`, and `den` is a left inverse of it there. -/
structure IsCoordinate {α : Type*} (P : α → Prop) (next : α → α) (num : α → ℤ) (den : ℤ → α) :
    Prop where
  next_mem : ∀ {a}, P a → P (next a)
  num_next : ∀ {a}, P a → num (next a) = num a + 1
  den_num : ∀ {a}, P a → den (num a) = a

namespace IsCoordinate

variable {α : Type*} {P : α → Prop} {next : α → α} {num : α → ℤ} {den : ℤ → α} {a b : α}

lemma iterate_mem (h : IsCoordinate P next num den) (ha : P a) (n : ℕ) : P (next^[n] a) := by
  induction n with
  | zero => exact ha
  | succ n ih => rw [Function.iterate_succ_apply']; exact h.next_mem ih

lemma num_iterate (h : IsCoordinate P next num den) (ha : P a) (n : ℕ) :
    num (next^[n] a) = num a + n := by
  induction n with
  | zero => simp
  | succ n ih =>
    rw [Function.iterate_succ_apply', h.num_next (h.iterate_mem ha n), ih]
    push_cast; ring

/-- **The coordinate counts successors.** -/
theorem den_add (h : IsCoordinate P next num den) (ha : P a) (n : ℕ) :
    den (num a + n) = next^[n] a := by
  rw [← h.num_iterate ha n, h.den_num (h.iterate_mem ha n)]

/-- Every number from `num a` on belongs to a point. -/
theorem num_den (h : IsCoordinate P next num den) (ha : P a) {k : ℤ} (hk : num a ≤ k) :
    P (den k) ∧ num (den k) = k := by
  obtain ⟨n, rfl⟩ := Int.le.dest hk
  rw [h.den_add ha n]
  exact ⟨h.iterate_mem ha n, h.num_iterate ha n⟩

lemma num_inj (h : IsCoordinate P next num den) (ha : P a) (hb : P b) (hn : num a = num b) :
    a = b := by
  rw [← h.den_num ha, hn, h.den_num hb]

end IsCoordinate

end Zinzhi.Coordinate
