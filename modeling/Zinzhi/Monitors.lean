import Zinzhi.Atomic
import Zinzhi.Counting

/-!
Monitors: a state that threads change one at a time, under a lock, and condition variables on which
they wait for each other.

A thread that has the lock runs until it leaves or waits, so this is one step. Whom a signal wakes
is open, and a thread may wake up without one. What is seen of a run are the calls and the results,
so that a monitor can be compared with an object that does one operation at a time.
-/

namespace Zinzhi.Monitors

open Zinzhi.Atomic Zinzhi.Counting Zinzhi.Traces

variable {τ σ κ π ω : Type*}

/-- A thread is outside, with the result of its last call; or it is about to enter, at a point of
the program; or it waits, and will go on from a point. -/
inductive Thread (κ π ω : Type*)
  | out (w : ω)
  | ready (p : π)
  | asleep (c : κ) (p : π)

inductive Wake (κ : Type*)
  | nobody
  | signal (c : κ)
  | broadcast (c : κ)

/-- What a thread does between entering and leaving or waiting. -/
structure Outcome (σ κ π ω : Type*) where
  state : σ
  wake : Wake κ
  thread : Thread κ π ω

/-- The program, which may fail, and the calls that a thread makes with the result of its last. -/
structure Monitor (τ σ κ π ω : Type*) where
  run : π → σ → Option (Outcome σ κ π ω)
  may : τ → ω → π → Prop

structure Conf (τ σ κ π ω : Type*) where
  state : σ
  thread : τ → Thread κ π ω

variable [DecidableEq τ]

inductive Wakes : Wake κ → (τ → Thread κ π ω) → (τ → Thread κ π ω) → Prop
  | nobody {th : τ → Thread κ π ω} : Wakes .nobody th th
  | none {th : τ → Thread κ π ω} {k : κ} (h : ∀ t p, th t ≠ .asleep k p) : Wakes (.signal k) th th
  | one {th : τ → Thread κ π ω} {k : κ} {t : τ} {p : π} (h : th t = .asleep k p) :
      Wakes (.signal k) th (Function.update th t (.ready p))
  | all {th th' : τ → Thread κ π ω} {k : κ} (h : ∀ t p, th t = .asleep k p → th' t = .ready p)
      (hsame : ∀ t, (∀ p, th t ≠ .asleep k p) → th' t = th t) : Wakes (.broadcast k) th th'

/-- The result that a thread leaves with. -/
def event (t : τ) : Thread κ π ω → List (τ × Event π ω)
  | .out w => [(t, .ret w)]
  | _ => []

inductive Step (M : Monitor τ σ κ π ω) (c : Conf τ σ κ π ω) :
    List (τ × Event π ω) → Conf τ σ κ π ω → Prop
  | call {t : τ} {w : ω} {p : π} (ht : c.thread t = .out w) (hmay : M.may t w p) :
      Step M c [(t, .call p)] ⟨c.state, Function.update c.thread t (.ready p)⟩
  | enter {t : τ} {p : π} {o : Outcome σ κ π ω} {th : τ → Thread κ π ω}
      (ht : c.thread t = .ready p) (hrun : M.run p c.state = some o)
      (hwake : Wakes o.wake c.thread th) :
      Step M c (event t o.thread) ⟨o.state, Function.update th t o.thread⟩
  | spurious {t : τ} {k : κ} {p : π} (ht : c.thread t = .asleep k p) :
      Step M c [] ⟨c.state, Function.update c.thread t (.ready p)⟩

/-- Any interleaving of any calls, with the calls and the results in order. -/
abbrev Run (M : Monitor τ σ κ π ω) := Traces.Run (Step M)

variable {M : Monitor τ σ κ π ω} {c c' : Conf τ σ κ π ω} {th th' : τ → Thread κ π ω} {t : τ} {p : π}
  {k : κ} {wake : Wake κ} {es : List (τ × Event π ω)}

/-- A thread is about to enter and will fail. -/
def Faults (M : Monitor τ σ κ π ω) (c : Conf τ σ κ π ω) : Prop :=
  ∃ t p, c.thread t = .ready p ∧ M.run p c.state = none

lemma Wakes.same_of_not_asleep (hw : Wakes wake th th') (ht : ∀ k p, th t ≠ .asleep k p) :
    th' t = th t := by
  cases hw with
  | nobody => rfl
  | none => rfl
  | one h =>
    refine Function.update_of_ne ?_ _ _
    rintro rfl
    exact ht _ _ h
  | all _ hsame => exact hsame t fun p => ht _ p

lemma Wakes.same_or_woken (hw : Wakes wake th th') (t : τ) :
    th' t = th t ∨ ∃ k p, th t = .asleep k p ∧ th' t = .ready p := by
  by_cases ht : ∃ k p, th t = .asleep k p
  · obtain ⟨k, p, ht⟩ := ht
    cases hw with
    | nobody => exact .inl rfl
    | none => exact .inl rfl
    | @one _ k' u p' h =>
      by_cases htu : t = u
      · subst htu
        exact .inr ⟨k', p', h, Function.update_self ..⟩
      · exact .inl (Function.update_of_ne htu ..)
    | @all _ _ k' h hsame =>
      by_cases hk : ∃ p, th t = .asleep k' p
      · obtain ⟨p, hp⟩ := hk
        exact .inr ⟨k', p, hp, h t p hp⟩
      · exact .inl (hsame t fun p hp => hk ⟨p, hp⟩)
  · exact .inl (hw.same_of_not_asleep fun k p h => ht ⟨k, p, h⟩)

lemma Wakes.asleep (hw : Wakes wake th th') (ht : th' t = .asleep k p) : th t = .asleep k p := by
  rcases hw.same_or_woken t with h | ⟨_, _, _, h⟩
  · rw [← h, ht]
  · rw [h] at ht
    cases ht

lemma Wakes.asleep_enter (hw : Wakes wake th th') {u : τ} {x : Thread κ π ω}
    (hu : Function.update th' t x u = .asleep k p) :
    x = .asleep k p ∨ th u = .asleep k p ∧ th' u = .asleep k p := by
  by_cases h : u = t
  · subst h
    rw [Function.update_self] at hu
    exact .inl hu
  · rw [Function.update_of_ne h] at hu
    exact .inr ⟨hw.asleep hu, hu⟩

/-- **What the count is after a thread has entered**, for a property that waking does not change. -/
lemma count_enter [Fintype τ] {P : Thread κ π ω → Bool}
    (hP : ∀ k p, P (.asleep k p) = P (.ready p)) (hw : Wakes wake th th')
    (ht : th t = .ready p) (x : Thread κ π ω) :
    count P (Function.update th' t x) + (P (.ready p)).toNat = count P th + (P x).toNat := by
  have hsame : count P th' = count P th := count_congr fun u => by
    rcases hw.same_or_woken u with h | ⟨k, p, h, h'⟩
    · rw [h]
    · rw [h, h', hP]
  have ht' : th' t = .ready p := (hw.same_of_not_asleep fun k q h => by simp [h] at ht).trans ht
  have := count_update (P := P) th' t x
  rwa [hsame, ht'] at this

/-! ### Monitors as atomic objects -/

section Atomic

variable {α : Type*} {pending : π → π → Prop} {phase : τ → Phase π ω} {s : σ} {w : ω} {a : α}

/-- A thread is outside, or at a point `p` of a call that is `pending` there. -/
def Matches (pending : π → π → Prop) : Thread κ π ω → Phase π ω → Prop
  | .out _, phase => phase = .idle
  | .ready p, phase | .asleep _ p, phase => ∃ call, pending p call ∧ phase = .called call

/-- What a thread that has entered does for its call: it returns, and the call takes effect, or the
call is still pending. -/
def Serves (effect : π → α → ω → α → Prop) (pending : π → π → Prop) (call : π) (a a' : α) :
    Thread κ π ω → Prop
  | .out w => effect call a w a'
  | .ready p | .asleep _ p => pending p call ∧ a' = a

lemma matches_update {x : Thread κ π ω} {y : Phase π ω} (h : ∀ u, Matches pending (th u) (phase u))
    (hx : Matches pending x y) (u : τ) :
    Matches pending (Function.update th t x u) (Function.update phase t y u) := by
  by_cases hu : u = t
  · subst hu
    rwa [Function.update_self, Function.update_self]
  · rw [Function.update_of_ne hu, Function.update_of_ne hu]
    exact h u

lemma Wakes.matches (hw : Wakes wake th th') (h : ∀ u, Matches pending (th u) (phase u)) (u : τ) :
    Matches pending (th' u) (phase u) := by
  rcases hw.same_or_woken u with hsame | ⟨k, p, hold, hwoken⟩
  · rw [hsame]
    exact h u
  · have hu := h u
    rw [hold] at hu
    rwa [hwoken]

/-- A thread that leaves has its call done and returns; one that stays is still in its call. -/
lemma Serves.atomic {effect : π → α → ω → α → Prop} {d : Atomic.Conf τ π ω α} {call : π} {a' : α}
    {x : Thread κ π ω} (hserves : Serves effect pending call d.content a' x)
    (hcalled : d.phase t = .called call) (hphase : ∀ u, Matches pending (th u) (d.phase u)) :
    ∃ d' : Atomic.Conf τ π ω α, Traces.Run (Atomic.Step effect) d (event t x) d' ∧
      d'.content = a' ∧ ∀ u, Matches pending (Function.update th t x u) (d'.phase u) := by
  have hstays (hx : Matches pending x (.called call)) (u : τ) :
      Matches pending (Function.update th t x u) (d.phase u) := by
    rw [← Function.update_eq_self t d.phase, hcalled]
    exact matches_update hphase hx u
  cases x with
  | out w => exact ⟨_, run_act_ret hcalled hserves, rfl, matches_update hphase rfl⟩
  | ready q => exact ⟨d, .refl, hserves.2.symm, hstays ⟨call, hserves.1, rfl⟩⟩
  | asleep k q => exact ⟨d, .refl, hserves.2.symm, hstays ⟨call, hserves.1, rfl⟩⟩

/-- **A monitor is an atomic object** if each thread that enters does what its call is for, or
nothing yet. -/
theorem Run.atomic (effect : π → α → ω → α → Prop) (pending : π → π → Prop) (Holds : σ → α → Prop)
    (hrun : Run M ⟨s, fun _ => .out w⟩ es c) (hinit : Holds s a)
    (hcall : ∀ t w p, M.may t w p → pending p p)
    (henter : ∀ s a p call o, Holds s a → pending p call → M.run p s = some o →
      ∃ a', Holds o.state a' ∧ Serves effect pending call a a' o.thread) :
    ∃ d : Atomic.Conf τ π ω α, Traces.Run (Atomic.Step effect) (Atomic.start a) es d ∧
      Holds c.state d.content ∧ ∀ t, Matches pending (c.thread t) (d.phase t) := by
  refine hrun.simulates (a := Atomic.start a) (R := fun _ (c : Conf τ σ κ π ω) d =>
    Holds c.state d.content ∧ ∀ t, Matches pending (c.thread t) (d.phase t)) ⟨hinit, fun _ => rfl⟩
    fun es c e c' d _ ⟨hstate, hphase⟩ hstep => ?_
  cases hstep with
  | @call t w p ht hmay =>
    have hidle : d.phase t = .idle := by
      have := hphase t
      rwa [ht] at this
    exact ⟨_, .single (.call p hidle), hstate,
      matches_update hphase ⟨p, hcall t w p hmay, rfl⟩⟩
  | @enter t p o th ht hrun hw =>
    have hmatch := hphase t
    rw [ht] at hmatch
    obtain ⟨call, hpending, hcalled⟩ := hmatch
    obtain ⟨a', hstate', hserves⟩ := henter _ _ _ _ _ hstate hpending hrun
    obtain ⟨d', hrun', rfl, hphase'⟩ := hserves.atomic hcalled (hw.matches hphase)
    exact ⟨d', hrun', hstate', hphase'⟩
  | @spurious t k p ht =>
    have hmatch := hphase t
    rw [ht] at hmatch
    refine ⟨d, .refl, hstate, fun u => ?_⟩
    rw [← Function.update_eq_self t d.phase]
    exact matches_update (x := .ready p) hphase hmatch u

end Atomic

end Zinzhi.Monitors
