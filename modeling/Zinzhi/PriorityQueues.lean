import Mathlib.Data.List.Perm.Basic

/-!
Waiting lines with priorities.

Elements come one after the other, and the first of those with the highest priority goes. A line
that is kept in order, with ties in the order in which they came, shows it at its head.
-/

namespace Zinzhi.PriorityQueues

variable {α : Type*} {prio : α → ℕ} {q l r waiting : List α} {m : α}

/-- `q` is what waits, in order, and `waiting` the same as it came. -/
structure Ordered (prio : α → ℕ) (q waiting : List α) : Prop where
  perm : q.Perm waiting
  sorted : q.Pairwise fun a b => prio b ≤ prio a
  ties : ∀ k, q.filter (prio · = k) = waiting.filter (prio · = k)

lemma ordered_nil : Ordered prio [] [] := ⟨.nil, .nil, fun _ => rfl⟩

/-- **An element comes**, and is put behind those that are not below it. -/
lemma Ordered.enqueue (h : Ordered prio (l ++ r) waiting) (hl : ∀ a ∈ l, prio m ≤ prio a)
    (hr : ∀ a ∈ r, prio a < prio m) : Ordered prio (l ++ m :: r) (waiting ++ [m]) := by
  obtain ⟨hsl, hsr, hslr⟩ := List.pairwise_append.mp h.sorted
  refine ⟨?_, ?_, fun k => ?_⟩
  · exact (List.perm_middle.trans (h.perm.cons m)).trans (List.perm_append_singleton m waiting).symm
  · refine List.pairwise_append.mpr ⟨hsl,
      List.pairwise_cons.mpr ⟨fun a ha => Nat.le_of_lt (hr a ha), hsr⟩,
      fun a ha b hb => ?_⟩
    rcases List.mem_cons.mp hb with rfl | hb
    · exact hl a ha
    · exact hslr a ha b hb
  · have hties := h.ties k
    rw [List.filter_append] at hties
    rw [List.filter_append, List.filter_append, ← hties]
    by_cases hk : prio m = k
    · have hnone : r.filter (prio · = k) = [] :=
        List.filter_eq_nil_iff.mpr fun a ha => by simpa [← hk] using Nat.ne_of_lt (hr a ha)
      simp [hk, hnone]
    · simp [hk]

/-- **The head goes**: it is the first of those with the highest priority. -/
lemma Ordered.dequeue (h : Ordered prio (m :: q) waiting) :
    ∃ l r, waiting = l ++ m :: r ∧ (∀ a ∈ l, prio a < prio m) ∧ (∀ a ∈ r, prio a ≤ prio m) ∧
      Ordered prio q (l ++ r) := by
  obtain ⟨hhead, hsorted⟩ := List.pairwise_cons.mp h.sorted
  have hle : ∀ a ∈ waiting, prio a ≤ prio m := fun a ha => by
    rcases List.mem_cons.mp (h.perm.mem_iff.mpr ha) with rfl | ha
    · exact Nat.le_refl _
    · exact hhead a ha
  have hm := h.ties (prio m)
  rw [List.filter_cons_of_pos (by simp)] at hm
  obtain ⟨l, r, rfl, hl, -, hr⟩ := List.filter_eq_cons_iff.mp hm.symm
  have hl' : ∀ a ∈ l, prio a ≠ prio m := fun a ha => by simpa using hl a ha
  refine ⟨l, r, rfl, fun a ha => Nat.lt_of_le_of_ne (hle a (by simp [ha])) (hl' a ha),
    fun a ha => hle a (by simp [ha]), (h.perm.trans List.perm_middle).cons_inv, hsorted,
    fun k => ?_⟩
  by_cases hk : prio m = k
  · -- those with the priority of the head
    have hnone : l.filter (prio · = k) = [] :=
      List.filter_eq_nil_iff.mpr fun a ha => by simpa [← hk] using hl' a ha
    rw [List.filter_append, hnone, List.nil_append, ← hk, hr]
  · -- those with another one
    have hties := h.ties k
    rw [List.filter_append, List.filter_cons_of_neg (by simpa using hk),
      List.filter_cons_of_neg (by simpa using hk)] at hties
    rw [List.filter_append, hties]

end Zinzhi.PriorityQueues
