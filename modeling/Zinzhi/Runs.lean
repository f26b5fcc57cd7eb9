import Mathlib.Data.List.Infix

/-!
Runs of a machine with a total step, and the exact guards of an invariant.
-/

namespace Zinzhi.Runs

variable {σ α : Type*}

def run (step : σ → α → σ) (init : σ) (acts : List α) : σ := acts.foldl step init

lemma run_concat (step : σ → α → σ) (init : σ) (acts : List α) (a : α) :
    run step init (acts ++ [a]) = step (run step init acts) a := by
  simp [run]

/-- **Exact guards.** If, wherever `P` holds, a step keeps it exactly when the step is guarded,
then `P` holds along a run exactly when every step of the run is guarded. -/
theorem always_iff_guarded {step : σ → α → σ} {P : σ → Prop} {guard : σ → α → Prop} {init : σ}
    (hinit : P init) (hstep : ∀ s a, P s → (P (step s a) ↔ guard s a)) (acts : List α) :
    (∀ pre, pre <+: acts → P (run step init pre)) ↔
      ∀ pre a, pre ++ [a] <+: acts → guard (run step init pre) a := by
  constructor
  · intro h pre a hpre
    have hP := h pre ((List.prefix_append pre [a]).trans hpre)
    have hnext := h _ hpre
    rw [run_concat] at hnext
    exact (hstep _ _ hP).mp hnext
  · intro h pre hpre
    induction pre using List.reverseRecOn with
    | nil => exact hinit
    | append_singleton pre a ih =>
      have hP := ih ((List.prefix_append pre [a]).trans hpre)
      rw [run_concat, hstep _ _ hP]
      exact h pre a hpre

/-- The steps of a run that is given by its list, one after the other. -/
lemma guarded_cons_iff {step : σ → α → σ} {guard : σ → α → Prop} {init : σ} (b : α)
    (acts : List α) :
    (∀ pre a, pre ++ [a] <+: b :: acts → guard (run step init pre) a) ↔
      guard init b ∧ ∀ pre a, pre ++ [a] <+: acts → guard (run step (step init b) pre) a := by
  constructor
  · intro h
    exact ⟨h [] b (by simp), fun pre a hpre => h (b :: pre) a (by simpa using hpre)⟩
  · rintro ⟨hb, h⟩ pre a hpre
    cases pre with
    | nil =>
      obtain rfl : a = b := by simpa using hpre
      exact hb
    | cons c pre =>
      obtain ⟨rfl, hrest⟩ : c = b ∧ pre ++ [a] <+: acts := by simpa using hpre
      exact h pre a hrest

lemma guarded_nil {step : σ → α → σ} {guard : σ → α → Prop} {init : σ} :
    ∀ pre a, pre ++ [a] <+: [] → guard (run step init pre) a := by
  simp

end Zinzhi.Runs
