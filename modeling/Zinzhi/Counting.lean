import Mathlib.Algebra.BigOperators.Group.Finset.Piecewise
import Mathlib.Algebra.Order.BigOperators.Group.Finset
import Mathlib.Data.Fintype.Card

/-!
What the threads of a finite family have between them, how many of them are in a state of some
kind, and how that changes when one of them moves.
-/

namespace Zinzhi.Counting

variable {τ β : Type*} [Fintype τ] {f : β → ℕ} {P : β → Bool} {th : τ → β} {t u : τ}

def total (f : β → ℕ) (th : τ → β) : ℕ := ∑ t, f (th t)

def count (P : β → Bool) (th : τ → β) : ℕ := total (fun x => (P x).toNat) th

lemma self_le_total (t : τ) : f (th t) ≤ total f th :=
  Finset.single_le_sum (f := fun u => f (th u)) (fun _ _ => Nat.zero_le _) (Finset.mem_univ t)

lemma total_pos_iff : 0 < total f th ↔ ∃ t, 0 < f (th t) := by
  simp [total, Nat.pos_iff_ne_zero]

lemma total_const (x : β) (hx : f x = 0) : total f (fun _ : τ => x) = 0 := by
  simp [total, hx]

lemma count_pos_iff : 0 < count P th ↔ ∃ t, P (th t) = true := by
  rw [count, total_pos_iff]
  simp [Nat.pos_iff_ne_zero]

lemma count_pos (ht : P (th t) = true) : 0 < count P th := count_pos_iff.mpr ⟨t, ht⟩

lemma count_const (x : β) (hx : P x = false) : count P (fun _ : τ => x) = 0 :=
  total_const x (by rw [hx]; rfl)

lemma count_congr {th' : τ → β} (h : ∀ t, P (th' t) = P (th t)) : count P th' = count P th :=
  Finset.sum_congr rfl fun t _ => congrArg Bool.toNat (h t)

variable [DecidableEq τ]

lemma total_update (th : τ → β) (t : τ) (x : β) :
    total f (Function.update th t x) + f (th t) = total f th + f x := by
  have hrest : ∑ u ∈ Finset.univ.erase t, f (Function.update th t x u) =
      ∑ u ∈ Finset.univ.erase t, f (th u) :=
    Finset.sum_congr rfl fun u hu => by rw [Function.update_of_ne (Finset.ne_of_mem_erase hu)]
  have hth := Finset.add_sum_erase Finset.univ (fun u => f (th u)) (Finset.mem_univ t)
  rw [total, total, ← Finset.add_sum_erase _ _ (Finset.mem_univ t), ← hth, hrest,
    Function.update_self]
  omega

lemma count_update (th : τ → β) (t : τ) (x : β) :
    count P (Function.update th t x) + (P (th t)).toNat = count P th + (P x).toNat :=
  total_update ..

lemma total_update_of_eq {x : β} (h : f x = f (th t)) :
    total f (Function.update th t x) = total f th := by
  have := total_update (f := f) th t x
  omega

lemma count_update_of_eq {x : β} (h : P x = P (th t)) :
    count P (Function.update th t x) = count P th :=
  total_update_of_eq (congrArg Bool.toNat h)

lemma add_le_total (h : t ≠ u) : f (th t) + f (th u) ≤ total f th := by
  have hrest : f (th u) ≤ ∑ v ∈ Finset.univ.erase t, f (th v) :=
    Finset.single_le_sum (f := fun v => f (th v)) (fun _ _ => Nat.zero_le _)
      (Finset.mem_erase.mpr ⟨h.symm, Finset.mem_univ u⟩)
  rw [total, ← Finset.add_sum_erase _ _ (Finset.mem_univ t)]
  exact Nat.add_le_add_left hrest _

/-- One thread at most is like that. -/
lemma eq_of_count_le_one (hcount : count P th ≤ 1) (ht : P (th t) = true) (hu : P (th u) = true) :
    t = u := by
  by_contra hne
  have := (add_le_total (f := fun x => (P x).toNat) hne).trans hcount
  simp [ht, hu] at this

end Zinzhi.Counting
