import Mathlib.Data.Nat.Notation
import Mathlib.Logic.Function.Basic
import Zinzhi.Traces

/-!
Threads that share a state and change it one atomic step at a time, in any order.

A thread is at a point of its program. What it does there may be open, as what an allocator returns
is: it is blocked, or it goes on to a next point, or it does what it must not do.
-/

namespace Zinzhi.Threads

variable {τ σ π ε : Type*}

inductive Move (σ π ε : Type*)
  | blocked
  | fault
  | goes (s : σ) (p : π) (es : List ε)

/-- What a thread may do where it is, and the calls that it may make there. -/
structure Program (σ π ε : Type*) where
  moves : π → σ → Move σ π ε → Prop
  calls : π → List ε → π → Prop

structure Conf (τ σ π : Type*) where
  state : σ
  point : τ → π

/-- The thread may do what it must not. -/
def Faults (M : Program σ π ε) (c : Conf τ σ π) (t : τ) : Prop :=
  M.moves (c.point t) c.state .fault

def Stuck (M : Program σ π ε) (c : Conf τ σ π) : Prop :=
  ∀ t m, M.moves (c.point t) c.state m → m = .blocked

variable [DecidableEq τ]

inductive Step (M : Program σ π ε) (c : Conf τ σ π) : List (τ × ε) → Conf τ σ π → Prop
  | call {t : τ} {p : π} {es : List ε} (hcall : M.calls (c.point t) es p) :
      Step M c (es.map (t, ·)) ⟨c.state, Function.update c.point t p⟩
  | move {t : τ} {s : σ} {p : π} {es : List ε}
      (hmove : M.moves (c.point t) c.state (.goes s p es)) :
      Step M c (es.map (t, ·)) ⟨s, Function.update c.point t p⟩

/-- Any interleaving, with what the threads report in the order in which they do. -/
abbrev Run (M : Program σ π ε) : Conf τ σ π → List (τ × ε) → Conf τ σ π → Prop :=
  Traces.Run (Step M)

end Zinzhi.Threads
