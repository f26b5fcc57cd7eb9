import Mathlib.Init

/-!
Runs of a system that takes one step after the other, and what can be seen of them.

A step has a list of events, empty if nothing of it is seen. Two systems are compared by a relation
between their states that every step of the first keeps, with some steps of the second that show
the same.
-/

namespace Zinzhi.Traces

variable {σ σ' ε : Type*} {Step : σ → List ε → σ → Prop} {Step' : σ' → List ε → σ' → Prop}

/-- Any number of steps, with their events in order. -/
inductive Run (Step : σ → List ε → σ → Prop) (s : σ) : List ε → σ → Prop
  | refl : Run Step s [] s
  | tail {s' s'' : σ} {es e : List ε} (h : Run Step s es s') (hstep : Step s' e s'') :
      Run Step s (es ++ e) s''

variable {s s' s'' : σ} {a : σ'} {es es' : List ε}

lemma Run.single (h : Step s es s') : Run Step s es s' := .tail .refl h

lemma Run.trans (h : Run Step s es s') (h' : Run Step s' es' s'') :
    Run Step s (es ++ es') s'' := by
  induction h' with
  | refl => rwa [List.append_nil]
  | tail _ hstep ih =>
    rw [← List.append_assoc]
    exact ih.tail hstep

/-- **What holds at first and is kept by every step holds on every run.** -/
theorem Run.invariant {P : List ε → σ → Prop} (hrun : Run Step s es s') (hinit : P [] s)
    (hstep : ∀ es s' e s'', Run Step s es s' → P es s' → Step s' e s'' → P (es ++ e) s'') :
    P es s' := by
  induction hrun with
  | refl => exact hinit
  | tail h hs ih => exact hstep _ _ _ _ h ih hs

/-- **What every step shows, every run shows.** -/
theorem Run.simulates {R : List ε → σ → σ' → Prop} (hrun : Run Step s es s') (hinit : R [] s a)
    (hstep : ∀ es s' e s'' a', Run Step s es s' → R es s' a' → Step s' e s'' →
      ∃ a'', Run Step' a' e a'' ∧ R (es ++ e) s'' a'') :
    ∃ a', Run Step' a es a' ∧ R es s' a' := by
  refine hrun.invariant (P := fun es s' => ∃ a', Run Step' a es a' ∧ R es s' a')
    ⟨a, .refl, hinit⟩ fun es s' e s'' h ⟨a', ha, hR⟩ hs => ?_
  obtain ⟨a'', ha', hR'⟩ := hstep es s' e s'' a' h hR hs
  exact ⟨a'', ha.trans ha', hR'⟩

end Zinzhi.Traces
