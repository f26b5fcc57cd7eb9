import Mathlib.Logic.Function.Basic
import Zinzhi.Traces

/-!
Objects that threads share, and that do one operation at a time.

What the users of an object see is when a thread calls an operation and what it returns. The object
does the operation at one moment in between. An implementation is as good as that if each of its
histories is one of such an object.
-/

namespace Zinzhi.Atomic

open Zinzhi.Traces

variable {τ κ ρ α : Type*}

inductive Event (κ ρ : Type*)
  | call (k : κ)
  | ret (r : ρ)
deriving DecidableEq, Repr

/-- A thread is outside; or it has called an operation, which is still to be done; or the operation
is done, and its result is still to be returned. -/
inductive Phase (κ ρ : Type*)
  | idle
  | called (k : κ)
  | done (r : ρ)

structure Conf (τ κ ρ α : Type*) where
  phase : τ → Phase κ ρ
  content : α

def start (a : α) : Conf τ κ ρ α := ⟨fun _ => .idle, a⟩

variable [DecidableEq τ]

/-- `effect` says which results an operation may have, and what it makes of the content. -/
inductive Step (effect : κ → α → ρ → α → Prop) (c : Conf τ κ ρ α) :
    List (τ × Event κ ρ) → Conf τ κ ρ α → Prop
  | call {t : τ} (k : κ) (ht : c.phase t = .idle) :
      Step effect c [(t, .call k)] ⟨Function.update c.phase t (.called k), c.content⟩
  | act {t : τ} {k : κ} {r : ρ} {a : α} (ht : c.phase t = .called k) (h : effect k c.content r a) :
      Step effect c [] ⟨Function.update c.phase t (.done r), a⟩
  | ret {t : τ} {r : ρ} (ht : c.phase t = .done r) :
      Step effect c [(t, .ret r)] ⟨Function.update c.phase t .idle, c.content⟩

variable {effect : κ → α → ρ → α → Prop} {c : Conf τ κ ρ α} {t : τ} {k : κ} {r : ρ} {a : α}

/-- An operation may return as soon as it is done. -/
lemma run_act_ret (ht : c.phase t = .called k) (h : effect k c.content r a) :
    Run (Step effect) c [(t, .ret r)] ⟨Function.update c.phase t .idle, a⟩ := by
  have hret : Step effect ⟨Function.update c.phase t (.done r), a⟩ [(t, .ret r)]
      ⟨Function.update (Function.update c.phase t (.done r)) t .idle, a⟩ :=
    .ret (Function.update_self ..)
  rw [Function.update_idem] at hret
  exact (Run.single (.act ht h)).tail hret

end Zinzhi.Atomic
