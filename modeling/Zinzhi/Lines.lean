import Mathlib.Data.List.Infix

/-!
Cutting a list into lines of bounded length.

A piece ends with the separator, or else at the bound or at the end of the list. Every piece ends
with the separator exactly if the list does and no run without it reaches the bound.
-/

namespace Zinzhi.Lines

variable {α : Type*}

lemma prefix_of_not_mem {sep : α} {run a b : List α} (h : run <+: a ++ sep :: b)
    (hsep : sep ∉ run) : run <+: a := by
  rcases le_or_gt run.length a.length with hle | hlt
  · exact List.prefix_of_prefix_length_le h (List.prefix_append a _) hle
  · -- a longer run would contain the separator
    have hpre : a ++ [sep] <+: a ++ sep :: b := ⟨b, by simp⟩
    have hrun := List.prefix_of_prefix_length_le hpre h (by simp; omega)
    exact absurd (hrun.subset (by simp)) hsep

/-- A run that avoids the separator lies on one side of it. -/
lemma infix_of_not_mem {sep : α} {run a b : List α} (h : run <:+: a ++ sep :: b)
    (hsep : sep ∉ run) : run <:+: a ∨ run <:+: b := by
  induction a with
  | nil =>
    rcases List.infix_cons_iff.mp h with h | h
    · exact .inl (prefix_of_not_mem (a := []) h hsep).isInfix
    · exact .inr h
  | cons y a ih =>
    rcases List.infix_cons_iff.mp h with h | h
    · exact .inl (prefix_of_not_mem (a := y :: a) h hsep).isInfix
    · exact (ih h).imp_left fun h => h.trans (List.suffix_cons y a).isInfix

variable [DecidableEq α] (sep : α)

/-- The first piece, of at most `k` elements, and the rest. -/
def cut : ℕ → List α → List α × List α
  | 0, xs => ([], xs)
  | _ + 1, [] => ([], [])
  | k + 1, x :: xs => if x = sep then ([x], xs) else (x :: (cut k xs).1, (cut k xs).2)

/-- All lines end with the separator and are shorter than `k` without it. -/
structure Fits (k : ℕ) (xs : List α) : Prop where
  last : ∀ x, xs.getLast? = some x → x = sep
  short : ∀ run, run <:+: xs → sep ∉ run → run.length < k

lemma cut_append (k : ℕ) (xs : List α) : (cut sep k xs).1 ++ (cut sep k xs).2 = xs := by
  induction k generalizing xs with
  | zero => rfl
  | succ k ih =>
    cases xs with
    | nil => rfl
    | cons x xs =>
      rw [cut]
      split_ifs
      · rfl
      · simp [ih xs]

lemma cut_cases (k : ℕ) (xs : List α) :
    (∃ q, (cut sep k xs).1 = q ++ [sep] ∧ sep ∉ q ∧ q.length < k) ∨
      sep ∉ (cut sep k xs).1 ∧ ((cut sep k xs).1.length = k ∨ (cut sep k xs).2 = []) := by
  induction k generalizing xs with
  | zero => exact .inr (by simp [cut])
  | succ k ih =>
    cases xs with
    | nil => exact .inr (by simp [cut])
    | cons x xs =>
      rw [cut]
      split_ifs with hx
      · exact .inl ⟨[], by simp [hx]⟩
      · rcases ih xs with ⟨q, hq, hsep, hlen⟩ | ⟨hsep, hend⟩
        · refine .inl ⟨x :: q, by simp [hq], ?_, by simp [hlen]⟩
          simp [hsep, Ne.symm hx]
        · refine .inr ⟨by simp [hsep, Ne.symm hx], ?_⟩
          simpa using hend

lemma cut_ne_nil {k : ℕ} (hk : 0 < k) {xs : List α} (hxs : xs ≠ []) : (cut sep k xs).1 ≠ [] := by
  obtain ⟨k, rfl⟩ : ∃ j, k = j + 1 := ⟨k - 1, by omega⟩
  cases xs with
  | nil => exact absurd rfl hxs
  | cons x xs =>
    rw [cut]
    split_ifs <;> simp

lemma length_rest_lt {k : ℕ} (hk : 0 < k) {xs : List α} (hxs : xs ≠ []) :
    (cut sep k xs).2.length < xs.length := by
  have happ := congrArg List.length (cut_append sep k xs)
  have hpos := List.length_pos_iff.mpr (cut_ne_nil sep hk hxs)
  rw [List.length_append] at happ
  omega

def pieces (k : ℕ) (xs : List α) : List (List α) :=
  if _h : 0 < k ∧ xs ≠ [] then (cut sep k xs).1 :: pieces k (cut sep k xs).2 else []
termination_by xs.length
decreasing_by exact length_rest_lt sep _h.1 _h.2

@[simp] lemma pieces_nil (k : ℕ) : pieces sep k [] = [] := by
  rw [pieces, dif_neg (by simp)]

lemma pieces_of_ne_nil {k : ℕ} (hk : 0 < k) {xs : List α} (hxs : xs ≠ []) :
    pieces sep k xs = (cut sep k xs).1 :: pieces sep k (cut sep k xs).2 := by
  rw [pieces, dif_pos ⟨hk, hxs⟩]

variable {sep}

lemma cut_line {k : ℕ} {q : List α} (hsep : sep ∉ q) (hlen : q.length < k) (rest : List α) :
    cut sep k (q ++ sep :: rest) = (q ++ [sep], rest) := by
  induction q generalizing k with
  | nil =>
    obtain ⟨k, rfl⟩ : ∃ j, k = j + 1 := ⟨k - 1, by simp at hlen; omega⟩
    simp [cut]
  | cons x q ih =>
    obtain ⟨k, rfl⟩ : ∃ j, k = j + 1 := ⟨k - 1, by simp at hlen; omega⟩
    rw [List.mem_cons, not_or] at hsep
    simp [cut, Ne.symm hsep.1, ih hsep.2 (by simpa using hlen)]

/-- A piece that the bound or the end of the list cuts off. -/
lemma cut_piece {k : ℕ} {q rest : List α} (hsep : sep ∉ q) (hlen : q.length ≤ k)
    (hend : q.length = k ∨ rest = []) : cut sep k (q ++ rest) = (q, rest) := by
  induction q generalizing k with
  | nil =>
    obtain rfl | rfl := hend
    · rfl
    · cases k <;> rfl
  | cons x q ih =>
    obtain ⟨k, rfl⟩ : ∃ j, k = j + 1 := ⟨k - 1, by simp at hlen; omega⟩
    rw [List.mem_cons, not_or] at hsep
    simp [cut, Ne.symm hsep.1, ih hsep.2 (by simpa using hlen) (by simpa using hend)]

/-- **Lines fit piece by piece.** -/
theorem fits_iff (k : ℕ) {xs : List α} (hxs : xs ≠ []) :
    Fits sep k xs ↔ (∃ q, (cut sep k xs).1 = q ++ [sep]) ∧ Fits sep k (cut sep k xs).2 := by
  have happ := cut_append sep k xs
  rcases cut_cases sep k xs with ⟨q, hq, hsep, hlen⟩ | ⟨hsep, hend⟩
  · rw [hq, List.append_assoc, List.singleton_append] at happ
    constructor
    · intro h
      refine ⟨⟨q, hq⟩, ?_, fun run hrun => h.short run ?_⟩
      · intro x hx
        refine h.last x ?_
        rw [← happ, List.getLast?_append, List.getLast?_cons, hx]
        rfl
      · rw [← happ]
        exact hrun.trans ((List.suffix_cons sep _).trans (List.suffix_append q _)).isInfix
    · rintro ⟨-, h⟩
      refine ⟨?_, fun run hrun hnot => ?_⟩
      · intro x hx
        rw [← happ, List.getLast?_append, List.getLast?_cons] at hx
        cases hrest : (cut sep k xs).2.getLast? with
        | none => rw [hrest] at hx; simpa using hx.symm
        | some y => rw [hrest] at hx; exact h.last x (by rw [hrest]; simpa using hx)
      · rw [← happ] at hrun
        rcases infix_of_not_mem hrun hnot with hrun | hrun
        · exact lt_of_le_of_lt hrun.length_le hlen
        · exact h.short run hrun hnot
  · -- a piece without the separator breaks one of the two conditions
    refine iff_of_false (fun h => ?_) ?_
    · rcases hend with hlen | hrest
      · have hpre : (cut sep k xs).1 <:+: xs := ⟨[], (cut sep k xs).2, happ⟩
        exact absurd hlen (h.short _ hpre hsep).ne
      · rw [hrest, List.append_nil] at happ
        rw [happ] at hsep
        have hlast := h.last _ (List.getLast?_eq_some_getLast hxs)
        exact hsep (hlast ▸ List.getLast_mem hxs)
    · rintro ⟨⟨q, hq⟩, -⟩
      exact hsep (by simp [hq])

lemma pieces_line {k : ℕ} {q : List α} (hsep : sep ∉ q) (hlen : q.length < k) (rest : List α) :
    pieces sep k (q ++ sep :: rest) = (q ++ [sep]) :: pieces sep k rest := by
  rw [pieces_of_ne_nil sep (by omega) (by simp), cut_line hsep hlen]

end Zinzhi.Lines
