import Mathlib.Algebra.BigOperators.Ring.List
import Mathlib.Algebra.Order.Ring.Nat
import Mathlib.Algebra.Order.BigOperators.Group.List

/-!
Rows of items that lie behind each other, each of them over a number of places.
-/

namespace Zinzhi.Rows

/-- How many places an item takes. -/
class Extent (β : Type*) where
  extent : β → ℕ

open Extent

variable {β : Type*} [Extent β] {c p q : ℕ} {b b' : β} {row pre mid mid' post : List β}

def span (row : List β) : ℕ := (row.map extent).sum

/-- The item `b` starts at `p` in a row that starts at `c`. -/
def At (c : ℕ) (row : List β) (p : ℕ) (b : β) : Prop :=
  ∃ pre post, row = pre ++ b :: post ∧ p = c + span pre

@[simp] lemma span_nil : span ([] : List β) = 0 := rfl

@[simp] lemma span_cons (b : β) (row : List β) : span (b :: row) = extent b + span row := by
  simp [span]

@[simp] lemma span_append (xs ys : List β) : span (xs ++ ys) = span xs + span ys := by
  simp [span]

lemma dvd_span {n : ℕ} (h : ∀ b ∈ row, n ∣ extent b) : n ∣ span row := by
  refine List.dvd_sum fun k hk => ?_
  obtain ⟨b, hb, rfl⟩ := List.mem_map.mp hk
  exact h b hb

lemma extent_le_span (hb : b ∈ row) : extent b ≤ span row :=
  List.single_le_sum (fun _ _ => Nat.zero_le _) _ (List.mem_map_of_mem hb)

lemma length_le_span (h : ∀ b ∈ row, 0 < extent b) : row.length ≤ span row := by
  induction row with
  | nil => simp
  | cons b row ih =>
    have hb := h b (by simp)
    have := ih fun b' hb' => h b' (by simp [hb'])
    rw [span_cons, List.length_cons]
    omega

lemma at_mid (pre : List β) (b : β) (post : List β) (c : ℕ) :
    At c (pre ++ b :: post) (c + span pre) b :=
  ⟨pre, post, rfl, rfl⟩

lemma exists_at (hb : b ∈ row) (c : ℕ) : ∃ p, At c row p b := by
  obtain ⟨pre, post, rfl⟩ := List.append_of_mem hb
  exact ⟨_, at_mid pre b post c⟩

lemma At.mem (h : At c row p b) : b ∈ row := by
  obtain ⟨pre, post, rfl, -⟩ := h
  simp

lemma At.le (h : At c row p b) : c ≤ p ∧ p + extent b ≤ c + span row := by
  obtain ⟨pre, post, rfl, rfl⟩ := h
  rw [span_append, span_cons]
  omega

@[simp] lemma not_at_nil : ¬At c [] p b := by
  rintro ⟨pre, post, h, -⟩
  cases pre <;> cases h

lemma at_append {xs ys : List β} :
    At c (xs ++ ys) p b ↔ At c xs p b ∨ At (c + span xs) ys p b := by
  constructor
  · rintro ⟨pre, post, h, rfl⟩
    rcases List.append_eq_append_iff.mp h with ⟨zs, rfl, rfl⟩ | ⟨zs, rfl, hzs⟩
    · exact .inr ⟨zs, post, rfl, by rw [span_append, Nat.add_assoc]⟩
    · cases zs with
      | nil =>
        rw [List.nil_append] at hzs
        exact .inr ⟨[], post, by simp [hzs], by simp⟩
      | cons z zs =>
        obtain ⟨rfl, rfl⟩ : b = z ∧ post = zs ++ ys := by simpa using hzs
        exact .inl ⟨pre, zs, rfl, rfl⟩
  · rintro (⟨pre, post, rfl, rfl⟩ | ⟨pre, post, rfl, rfl⟩)
    · exact ⟨pre, post ++ ys, by simp, rfl⟩
    · exact ⟨xs ++ pre, post, by simp, by rw [span_append, Nat.add_assoc]⟩

lemma at_cons {a : β} : At c (a :: row) p b ↔ (a = b ∧ p = c) ∨ At (c + extent a) row p b := by
  have hsingle : At c [a] p b ↔ a = b ∧ p = c := by
    constructor
    · rintro ⟨pre, post, h, rfl⟩
      rcases List.singleton_eq_append_iff.mp h with ⟨rfl, h⟩ | ⟨-, h⟩
      · obtain ⟨rfl, -⟩ : a = b ∧ post = [] := by simpa using h
        exact ⟨rfl, rfl⟩
      · cases h
    · rintro ⟨rfl, rfl⟩
      exact ⟨[], [], rfl, rfl⟩
  rw [← List.singleton_append, at_append, hsingle, span_cons, span_nil, Nat.add_zero]

/-- **Two items of a row** are one, or lie apart. -/
lemma At.apart (h : At c row p b) (h' : At c row q b') :
    (p = q ∧ b = b') ∨ p + extent b ≤ q ∨ q + extent b' ≤ p := by
  induction row generalizing c with
  | nil => exact absurd h not_at_nil
  | cons a row ih =>
    rw [at_cons] at h h'
    rcases h with ⟨rfl, rfl⟩ | h
    · rcases h' with ⟨rfl, rfl⟩ | h'
      · exact .inl ⟨rfl, rfl⟩
      · exact .inr (.inl h'.le.1)
    · rcases h' with ⟨rfl, rfl⟩ | h'
      · exact .inr (.inr h.le.1)
      · exact ih h h'

/-- An item starts at one place only. -/
lemma At.unique (hpos : ∀ b ∈ row, 0 < extent b) (h : At c row p b) (h' : At c row p b') :
    b = b' := by
  have hb := hpos b h.mem
  have hb' := hpos b' h'.mem
  rcases h.apart h' with ⟨-, h⟩ | h | h
  · exact h
  · omega
  · omega

/-! ### Looking an item up by its place -/

def item? : ℕ → List β → ℕ → Option β
  | _, [], _ => none
  | c, b :: row, p => if p = c then some b else item? (c + extent b) row p

lemma item?_of_at (hpos : ∀ b ∈ row, 0 < extent b) (h : At c row p b) : item? c row p = some b := by
  induction row generalizing c with
  | nil => exact absurd h not_at_nil
  | cons a row ih =>
    have ha := hpos a (by simp)
    rcases at_cons.mp h with ⟨rfl, rfl⟩ | h
    · exact if_pos rfl
    · have hle := h.le.1
      rw [item?, if_neg (by omega)]
      exact ih (fun b hb => hpos b (by simp [hb])) h

lemma at_of_item? (h : item? c row p = some b) : At c row p b := by
  induction row generalizing c with
  | nil => cases h
  | cons a row ih =>
    rw [item?] at h
    split at h
    · next hp => exact at_cons.mpr (.inl ⟨Option.some.inj h, hp⟩)
    · exact at_cons.mpr (.inr (ih h))

/-- **Replacing an item** by another that takes as many places. -/
lemma item?_replace (hpos : ∀ b ∈ pre, 0 < extent b) (hext : extent b' = extent b) :
    item? c (pre ++ b' :: post) =
      Function.update (item? c (pre ++ b :: post)) (c + span pre) (some b') := by
  induction pre generalizing c with
  | nil =>
    funext p
    simp only [List.nil_append, span_nil, Nat.add_zero, item?, hext, Function.update_apply]
    split <;> rfl
  | cons a pre ih =>
    have ha := hpos a (by simp)
    funext p
    simp only [List.cons_append, item?, span_cons, Function.update_apply]
    rw [ih fun b hb => hpos b (by simp [hb])]
    simp only [Function.update_apply, ← Nat.add_assoc]
    split
    · rw [if_neg (by omega)]
    · rfl

/-- **A new item at the end.** -/
lemma item?_concat (hpos : ∀ b ∈ row, 0 < extent b) :
    item? c (row ++ [b]) = Function.update (item? c row) (c + span row) (some b) := by
  induction row generalizing c with
  | nil =>
    funext p
    simp only [List.nil_append, span_nil, Nat.add_zero, item?, Function.update_apply]
  | cons a row ih =>
    have ha := hpos a (by simp)
    funext p
    simp only [List.cons_append, item?, span_cons, Function.update_apply]
    rw [ih fun b hb => hpos b (by simp [hb])]
    simp only [Function.update_apply, ← Nat.add_assoc]
    split
    · rw [if_neg (by omega)]
    · rfl

end Zinzhi.Rows
