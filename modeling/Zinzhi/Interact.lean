import Mathlib.Data.Nat.Notation
import Mathlib.Logic.Function.Basic
import Mathlib.Logic.Relation

/-!
Programs that act on a shared state through calls, run alone or interleaved.

A program is the tree of the calls it may still make, so what is left of it after some
calls is again a program and serves as the program counter of a thread. The leaf `again`
is a tail call of the whole procedure, which a finite tree cannot unfold.
-/

namespace Zinzhi.Interact

variable {Op : Type} {Res : Op → Type} {α β ε σ ι : Type}

inductive Prog (Op : Type) (Res : Op → Type) (α : Type) where
  | ret (a : α)
  | again
  | call (o : Op) (k : Res o → Prog Op Res α)

namespace Prog

def bind : Prog Op Res α → (α → Prog Op Res β) → Prog Op Res β
  | ret a, f => f a
  | again, _ => again
  | call o k, f => call o fun r => (k r).bind f

instance : Monad (Prog Op Res) where
  pure := ret
  bind := bind

def perform (o : Op) : Prog Op Res (Res o) := call o ret

@[simp] lemma pure_eq (a : α) : (pure a : Prog Op Res α) = ret a := rfl
@[simp] lemma bind_ret (a : α) (f : α → Prog Op Res β) : (ret a : Prog Op Res α) >>= f = f a := rfl
@[simp] lemma bind_again (f : α → Prog Op Res β) : (again : Prog Op Res α) >>= f = again := rfl
@[simp] lemma bind_call (o : Op) (k : Res o → Prog Op Res α) (f : α → Prog Op Res β) :
    call o k >>= f = call o fun r => k r >>= f := rfl
@[simp] lemma perform_eq (o : Op) : (perform o : Prog Op Res (Res o)) = call o ret := rfl

end Prog

/-- What a call does to the state; the state keeps its changes when the call throws. -/
abbrev Handler (Res : Op → Type) (ε σ : Type) := (o : Op) → σ → Except ε (Res o) × σ

inductive Outcome (ε α : Type) where
  | done (a : α)
  | again
  | threw (e : ε)

/-- A program run to its end with nothing interleaved. -/
def run (h : Handler Res ε σ) : Prog Op Res α → σ → Outcome ε α × σ
  | .ret a, s => (.done a, s)
  | .again, s => (.again, s)
  | .call o k, s =>
    match h o s with
    | (.ok r, s') => run h (k r) s'
    | (.error e, s') => (.threw e, s')

@[simp] lemma run_ret (h : Handler Res ε σ) (a : α) (s : σ) :
    run h (.ret a : Prog Op Res α) s = (.done a, s) := rfl
@[simp] lemma run_again (h : Handler Res ε σ) (s : σ) :
    run h (.again : Prog Op Res α) s = (.again, s) := rfl

lemma run_call {h : Handler Res ε σ} {o : Op} {k : Res o → Prog Op Res α} {s s' : σ} {r : Res o}
    (ho : h o s = (.ok r, s')) : run h (.call o k) s = run h (k r) s' := by
  simp only [run, ho]

/-! ### Threads -/

structure Threads (Op : Type) (Res : Op → Type) (σ ι : Type) where
  st : σ
  pc : ι → Prog Op Res Unit

variable [DecidableEq ι]

/-- One call of one thread. A call that throws ends its thread. -/
inductive Step (h : ι → Handler Res ε σ) (main : ι → Prog Op Res Unit) :
    Threads Op Res σ ι → Threads Op Res σ ι → Prop
  | call {c : Threads Op Res σ ι} (i : ι) {o : Op} {k : Res o → Prog Op Res Unit} {r : Res o}
      {s' : σ} (hpc : c.pc i = .call o k) (ho : h i o c.st = (.ok r, s')) :
      Step h main c ⟨s', Function.update c.pc i (k r)⟩
  | throw {c : Threads Op Res σ ι} (i : ι) {o : Op} {k : Res o → Prog Op Res Unit} {e : ε}
      {s' : σ} (hpc : c.pc i = .call o k) (ho : h i o c.st = (.error e, s')) :
      Step h main c ⟨s', Function.update c.pc i (.ret ())⟩
  | again {c : Threads Op Res σ ι} (i : ι) (hpc : c.pc i = .again) :
      Step h main c ⟨c.st, Function.update c.pc i (main i)⟩

/-- Every state that some interleaving of the threads reaches. -/
def Reaches (h : ι → Handler Res ε σ) (main : ι → Prog Op Res Unit) (s : σ)
    (c : Threads Op Res σ ι) : Prop :=
  Relation.ReflTransGen (Step h main) ⟨s, main⟩ c

/-- What holds at the start and is kept by every step holds wherever the threads get. -/
theorem reaches_inv {h : ι → Handler Res ε σ} {main : ι → Prog Op Res Unit} {s : σ}
    {I : Threads Op Res σ ι → Prop} (h0 : I ⟨s, main⟩)
    (hs : ∀ c c', I c → Step h main c c' → I c') {c : Threads Op Res σ ι}
    (hr : Reaches h main s c) : I c := by
  induction hr with
  | refl => exact h0
  | tail _ hstep ih => exact hs _ _ ih hstep

/-! ### What a program can still do -/

/-- As long as calls only return answers that `ok` allows, every call the program makes,
with what it goes on to do, satisfies `P`. -/
def Every (ok : (o : Op) → Res o → Prop) (P : (o : Op) → (Res o → Prog Op Res α) → Prop) :
    Prog Op Res α → Prop
  | .ret _ => True
  | .again => True
  | .call o k => P o k ∧ ∀ r, ok o r → Every ok P (k r)

variable {ok : (o : Op) → Res o → Prop} {P : (o : Op) → (Res o → Prog Op Res α) → Prop}

@[simp] lemma every_ret (a : α) : Every ok P (.ret a) := trivial
@[simp] lemma every_again : Every ok P .again := trivial
@[simp] lemma every_call (o : Op) (k : Res o → Prog Op Res α) :
    Every ok P (.call o k) ↔ P o k ∧ ∀ r, ok o r → Every ok P (k r) := Iff.rfl

end Zinzhi.Interact
