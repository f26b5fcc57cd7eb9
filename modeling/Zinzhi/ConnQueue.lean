import Zinzhi.RingBuffer
import Zinzhi.Runs

/-!
The queue of accepted connections of the proxy: `main` stores descriptors in the ring `clifd`,
and the threads take them out. Both hold `clifd_mutex`, so each is one step.
-/

namespace Zinzhi.ConnQueue

open Zinzhi.RingBuffer Zinzhi.Runs

def MAXNCLI : ℕ := 32

instance : NeZero MAXNCLI := ⟨by decide⟩

/-- The shared ring, with the history of the descriptors accepted by `main` and of those taken,
each with the thread that took it. -/
structure State where
  clifd : Fin MAXNCLI → ℤ
  iget : Fin MAXNCLI
  iput : Fin MAXNCLI
  accepted : List ℤ
  served : List (ℕ × ℤ)

/-- `if(++i == MAXNCLI) i = 0` -/
def advance (i : Fin MAXNCLI) : Fin MAXNCLI :=
  if h : i.val + 1 = MAXNCLI then 0 else ⟨i.val + 1, by omega⟩

def enqueue (s : State) (connfd : ℤ) : State :=
  { s with
    clifd := Function.update s.clifd s.iput connfd
    iput := advance s.iput
    accepted := s.accepted ++ [connfd] }

/-- A thread waits on `clifd_cond` while the ring is empty, which leaves everything as it is, and
else takes a descriptor. -/
def dequeue (s : State) (thread : ℕ) : State :=
  if s.iget = s.iput then s
  else { s with iget := advance s.iget, served := s.served ++ [(thread, s.clifd s.iget)] }

inductive Act where
  | enqueue (connfd : ℤ)
  | dequeue (thread : ℕ)
deriving DecidableEq, Repr

def step (s : State) : Act → State
  | .enqueue connfd => enqueue s connfd
  | .dequeue thread => dequeue s thread

/-- `clifd` is a global, so its slots are zero at first. -/
def init : State := ⟨fun _ => 0, 0, 0, [], []⟩

lemma advance_eq (i : Fin MAXNCLI) : advance i = i + 1 := by
  revert i; decide

def ring (s : State) : Ring ℤ MAXNCLI := ⟨s.clifd, s.iget, s.iput⟩

lemma ring_enqueue (s : State) (connfd : ℤ) :
    ring (enqueue s connfd) = (ring s).put connfd := by
  simp [ring, enqueue, Ring.put, advance_eq]

/-- The descriptors taken, and those pending after them, are the ones accepted. -/
def Conserved (s : State) : Prop :=
  s.served.map Prod.snd ++ (ring s).pending = s.accepted

/-- A descriptor is stored while a slot is left besides the one that separates `iput` from
`iget`. -/
def HasRoom (s : State) : Act → Prop
  | .enqueue _ => advance s.iput ≠ s.iget
  | .dequeue _ => True

lemma conserved_enqueue_iff {s : State} (hs : Conserved s) (connfd : ℤ) :
    Conserved (enqueue s connfd) ↔ advance s.iput ≠ s.iget := by
  have hfull : (ring s).Full ↔ advance s.iput = s.iget := by
    rw [advance_eq]; exact Iff.rfl
  unfold Conserved at hs ⊢
  rw [ring_enqueue, ne_eq, ← hfull]
  by_cases h : (ring s).Full
  · -- the history goes on while the ring is empty again
    refine iff_of_false ?_ (not_not.mpr h)
    rw [Ring.pending_put_full _ h]
    intro heq
    have hlen := congrArg List.length heq
    simp only [enqueue, ← hs, List.length_append, List.length_cons, List.length_nil] at hlen
    omega
  · refine iff_of_true ?_ h
    rw [Ring.pending_put _ h]
    simp only [enqueue, ← hs, List.append_assoc]

lemma conserved_dequeue {s : State} (hs : Conserved s) (thread : ℕ) :
    Conserved (dequeue s thread) := by
  unfold dequeue
  split_ifs with h
  · exact hs
  · have hring : ring { s with
        iget := advance s.iget, served := s.served ++ [(thread, s.clifd s.iget)] } =
        (ring s).drop := by
      simp [ring, Ring.drop, advance_eq]
    unfold Conserved at hs ⊢
    rw [hring, ← hs, Ring.pending_of_ne h]
    simp [ring]

/-- **No connection is lost or served twice exactly as long as there is room** whenever one is
stored. -/
theorem conserved_iff_room (acts : List Act) :
    (∀ pre, pre <+: acts → Conserved (run step init pre)) ↔
      ∀ pre a, pre ++ [a] <+: acts → HasRoom (run step init pre) a := by
  have hinit : Conserved init := rfl
  refine always_iff_guarded hinit ?_ acts
  rintro s (connfd | thread) hs
  · exact conserved_enqueue_iff hs connfd
  · exact iff_of_true (conserved_dequeue hs thread) trivial

/-- A burst of as many connections as there are slots leaves the ring empty. -/
theorem burst_not_conserved :
    let s := run step init ((List.range MAXNCLI).map fun fd => .enqueue fd)
    ¬Conserved s ∧ s.served = [] ∧ (ring s).pending = [] ∧ s.accepted.length = 32 := by
  intro s
  have hserved : s.served = [] := by decide
  have hpending : (ring s).pending = [] := by decide
  have hlen : s.accepted.length = 32 := by decide
  refine ⟨?_, hserved, hpending, hlen⟩
  intro h
  have h0 := congrArg List.length h
  rw [hserved, hpending, hlen] at h0
  exact absurd h0 (by decide)

end Zinzhi.ConnQueue
