import Mathlib.Algebra.Order.Group.Int
import Mathlib.Data.List.Perm.Basic

/-!
Stable sorting by a comparison that need not be one.

A comparison gives a negative number, zero or a positive one. Where it is consistent on the
elements of a list, there is one way to sort the list that keeps the order of ties. A sort is asked
for nothing else: with a comparison that is not consistent it may leave anything, or fail.
-/

namespace Zinzhi.StableSort

variable {α : Type*} {cmp cmp' : α → α → ℤ} {l l' l₁ l₂ : List α}

/-- The contract of a comparison, among the elements of a list. -/
structure Consistent (cmp : α → α → ℤ) (l : List α) : Prop where
  swap : ∀ a ∈ l, ∀ b ∈ l, 0 < cmp a b ↔ cmp b a < 0
  trans : ∀ a ∈ l, ∀ b ∈ l, ∀ c ∈ l, cmp a b ≤ 0 → cmp b c ≤ 0 → cmp a c ≤ 0

/-- The list in order, with ties as they were. -/
structure StablySorted (cmp : α → α → ℤ) (l l' : List α) : Prop where
  perm : l'.Perm l
  sorted : l'.Pairwise fun a b => cmp a b ≤ 0
  ties : ∀ a ∈ l, l'.filter (fun b => cmp a b = 0) = l.filter fun b => cmp a b = 0

/-! ### Consistent comparisons -/

namespace Consistent

lemma mono (h : Consistent cmp l) (hsub : l' ⊆ l) : Consistent cmp l' where
  swap a ha b hb := h.swap a (hsub ha) b (hsub hb)
  trans a ha b hb c hc := h.trans a (hsub ha) b (hsub hb) c (hsub hc)

lemma congr (h : Consistent cmp l) (hcmp : ∀ a ∈ l, ∀ b ∈ l, cmp' a b = cmp a b) :
    Consistent cmp' l where
  swap a ha b hb := by
    rw [hcmp a ha b hb, hcmp b hb a ha]
    exact h.swap a ha b hb
  trans a ha b hb c hc := by
    rw [hcmp a ha b hb, hcmp b hb c hc, hcmp a ha c hc]
    exact h.trans a ha b hb c hc

lemma self (h : Consistent cmp l) {a : α} (ha : a ∈ l) : cmp a a = 0 := by
  have hswap := h.swap a ha a ha
  omega

lemma eq_zero_of_le (h : Consistent cmp l) {a b : α} (ha : a ∈ l) (hb : b ∈ l)
    (hab : cmp a b ≤ 0) (hba : cmp b a ≤ 0) : cmp a b = 0 := by
  have hswap := h.swap b hb a ha
  omega

end Consistent

instance (cmp : α → α → ℤ) (l : List α) : Decidable (Consistent cmp l) :=
  decidable_of_iff
    ((∀ a ∈ l, ∀ b ∈ l, 0 < cmp a b ↔ cmp b a < 0) ∧
      ∀ a ∈ l, ∀ b ∈ l, ∀ c ∈ l, cmp a b ≤ 0 → cmp b c ≤ 0 → cmp a c ≤ 0)
    ⟨fun h => ⟨h.1, h.2⟩, fun h => ⟨h.1, h.2⟩⟩

/-! ### There is one way -/

/-- The head comes before all others, so what is before it is a tie; and ties are as they were. -/
lemma eq_of_ties (hc : Consistent cmp l₁) (hperm : l₁.Perm l₂)
    (h₁ : l₁.Pairwise fun a b => cmp a b ≤ 0) (h₂ : l₂.Pairwise fun a b => cmp a b ≤ 0)
    (hties : ∀ a ∈ l₁, l₁.filter (fun b => cmp a b = 0) = l₂.filter fun b => cmp a b = 0) :
    l₁ = l₂ := by
  induction l₁ generalizing l₂ with
  | nil => exact hperm.nil_eq
  | cons a l₁ ih =>
    cases l₂ with
    | nil => exact absurd hperm.length_eq (by simp)
    | cons b l₂ =>
      have ha : a ∈ a :: l₁ := List.mem_cons_self
      have hb : b ∈ a :: l₁ := hperm.mem_iff.mpr List.mem_cons_self
      have haa : cmp a a = 0 := hc.self ha
      have hab : cmp a b ≤ 0 := by
        rcases List.mem_cons.mp hb with rfl | hb
        · exact haa.le
        · exact (List.pairwise_cons.mp h₁).1 b hb
      have hba : cmp b a ≤ 0 := by
        rcases List.mem_cons.mp (hperm.mem_iff.mp ha) with rfl | ha
        · exact haa.le
        · exact (List.pairwise_cons.mp h₂).1 a ha
      have htie : cmp a b = 0 := hc.eq_zero_of_le ha hb hab hba
      obtain rfl : a = b := by
        have h := hties a ha
        rw [List.filter_cons_of_pos (by simpa using haa),
          List.filter_cons_of_pos (by simpa using htie)] at h
        exact (List.cons.inj h).1
      have hrest : ∀ c ∈ l₁,
          l₁.filter (fun b => cmp c b = 0) = l₂.filter fun b => cmp c b = 0 := by
        intro c hc
        have h := hties c (List.mem_cons_of_mem a hc)
        by_cases hca : cmp c a = 0
        · rw [List.filter_cons_of_pos (by simpa using hca),
            List.filter_cons_of_pos (by simpa using hca)] at h
          exact (List.cons.inj h).2
        · rwa [List.filter_cons_of_neg (by simpa using hca),
            List.filter_cons_of_neg (by simpa using hca)] at h
      rw [ih (hc.mono (List.subset_cons_self a l₁)) hperm.cons_inv h₁.of_cons h₂.of_cons hrest]

namespace StablySorted

theorem unique (hc : Consistent cmp l) (h₁ : StablySorted cmp l l₁)
    (h₂ : StablySorted cmp l l₂) : l₁ = l₂ := by
  refine eq_of_ties (hc.mono h₁.perm.subset) (h₁.perm.trans h₂.perm.symm) h₁.sorted h₂.sorted ?_
  intro a ha
  have hal := h₁.perm.subset ha
  rw [h₁.ties a hal, h₂.ties a hal]

lemma congr (h : StablySorted cmp l l') (hcmp : ∀ a ∈ l, ∀ b ∈ l, cmp' a b = cmp a b) :
    StablySorted cmp' l l' where
  perm := h.perm
  sorted := h.sorted.imp_of_mem fun {a b} ha hb hab => by
    rwa [hcmp a (h.perm.subset ha) b (h.perm.subset hb)]
  ties a ha := by
    have hfilter {m : List α} (hm : m ⊆ l) :
        m.filter (fun b => cmp' a b = 0) = m.filter fun b => cmp a b = 0 :=
      List.filter_congr fun b hb => by rw [hcmp a ha b (hm hb)]
    rw [hfilter h.perm.subset, hfilter (List.Subset.refl l)]
    exact h.ties a ha

end StablySorted

/-! ### `mergeSort` is one -/

section MergeSort

variable {le : α → α → Bool}
  (htrans : ∀ a ∈ l, ∀ b ∈ l, ∀ c ∈ l, le a b = true → le b c = true → le a c = true)
  (htotal : ∀ a ∈ l, ∀ b ∈ l, (le a b || le b a) = true)

/-- What is sorted are the elements, as elements of the list. -/
lemma map_attach_mergeSort (le : α → α → Bool) (l : List α) :
    (l.attach.mergeSort fun a b => le a.1 b.1).map Subtype.val = l.mergeSort le := by
  rw [List.map_mergeSort (s := le) fun _ _ _ _ => rfl, List.attach_map_subtype_val]

include htrans htotal

lemma pairwise_mergeSort_of_mem : (l.mergeSort le).Pairwise fun a b => le a b = true := by
  rw [← map_attach_mergeSort, List.pairwise_map]
  exact List.pairwise_mergeSort (fun a b c => htrans a.1 a.2 b.1 b.2 c.1 c.2)
    (fun a b => htotal a.1 a.2 b.1 b.2) l.attach

lemma sublist_mergeSort_of_mem {ys : List α} (hys : ys.Pairwise fun a b => le a b = true)
    (hsub : ys.Sublist l) : ys.Sublist (l.mergeSort le) := by
  rw [← List.attach_map_subtype_val l] at hsub
  obtain ⟨zs, hzs, rfl⟩ := List.sublist_map_iff.mp hsub
  rw [← map_attach_mergeSort]
  refine List.Sublist.map _ (List.sublist_mergeSort ?_ ?_ (List.pairwise_map.mp hys) hzs)
  · exact fun a b c => htrans a.1 a.2 b.1 b.2 c.1 c.2
  · exact fun a b => htotal a.1 a.2 b.1 b.2

end MergeSort

theorem stablySorted_mergeSort (hc : Consistent cmp l) :
    StablySorted cmp l (l.mergeSort fun a b => cmp a b ≤ 0) := by
  have htrans : ∀ a ∈ l, ∀ b ∈ l, ∀ c ∈ l, decide (cmp a b ≤ 0) = true →
      decide (cmp b c ≤ 0) = true → decide (cmp a c ≤ 0) = true := by
    simpa using hc.trans
  have htotal : ∀ a ∈ l, ∀ b ∈ l, (decide (cmp a b ≤ 0) || decide (cmp b a ≤ 0)) = true := by
    intro a ha b hb
    have hswap := hc.swap a ha b hb
    simp only [Bool.or_eq_true, decide_eq_true_eq]
    omega
  have hperm := List.mergeSort_perm l fun a b => cmp a b ≤ 0
  refine ⟨hperm, ?_, fun a ha => ?_⟩
  · simpa using pairwise_mergeSort_of_mem htrans htotal
  · -- the ties of `a` are in order as they are, so they are found in the sorted list like that
    have hpair : (l.filter fun b => cmp a b = 0).Pairwise
        fun b c => decide (cmp b c ≤ 0) = true := by
      rw [List.pairwise_iff_forall_sublist]
      intro b c hbc
      obtain ⟨hb, hab⟩ : b ∈ l ∧ cmp a b = 0 := by simpa using hbc.subset (by simp : b ∈ [b, c])
      obtain ⟨hcl, hac⟩ : c ∈ l ∧ cmp a c = 0 := by simpa using hbc.subset (by simp : c ∈ [b, c])
      have hswap := hc.swap b hb a ha
      simpa using hc.trans b hb a ha c hcl (by omega) hac.le
    have hsub := sublist_mergeSort_of_mem htrans htotal hpair List.filter_sublist
    have hties := hsub.filter fun b => decide (cmp a b = 0)
    simp only [List.filter_filter, Bool.and_self] at hties
    exact (hties.eq_of_length (hperm.filter _).length_eq.symm).symm

/-! ### Sorts -/

/-- A sort, as far as it is relied on. A failure comes with what it leaves of the list. -/
structure SortMethod (α : Type*) where
  sort : (α → α → ℤ) → List α → Except (List α) (List α)
  stable : ∀ cmp l, Consistent cmp l → ∃ l', sort cmp l = .ok l' ∧ StablySorted cmp l l'

lemma SortMethod.sort_eq (std : SortMethod α) (hc : Consistent cmp l)
    (h : StablySorted cmp l l') : std.sort cmp l = .ok l' := by
  obtain ⟨l₁, hsort, h₁⟩ := std.stable cmp l hc
  rw [hsort, h₁.unique hc h]

/-- The one that fails whenever it may. -/
def SortMethod.strict : SortMethod α where
  sort cmp l := if Consistent cmp l then .ok (l.mergeSort fun a b => cmp a b ≤ 0) else .error l
  stable _ _ hc := ⟨_, if_pos hc, stablySorted_mergeSort hc⟩

lemma SortMethod.strict_error (hc : ¬Consistent cmp l) : strict.sort cmp l = .error l := if_neg hc

lemma SortMethod.strict_perm
    (h : strict.sort cmp l = .ok l' ∨ strict.sort cmp l = .error l') : l'.Perm l := by
  by_cases hc : Consistent cmp l
  · obtain ⟨l₁, hsort, h₁⟩ := strict.stable cmp l hc
    rw [hsort] at h
    obtain rfl : l₁ = l' := by simpa using h
    exact h₁.perm
  · rw [strict_error hc] at h
    obtain rfl : l = l' := by simpa using h
    exact .rfl

end Zinzhi.StableSort
