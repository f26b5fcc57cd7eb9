import Mathlib.Data.Nat.Notation

/-!
Components with a contract, and the programs that call them.

A contract says which calls may be made, which results may come back, and what is known after a
call and its result. A component keeps the contract if it is tied to what is known by a simulation.
A client that makes no forbidden call, whatever results it is allowed to see, then runs on the
component without a fault, and what it sees is allowed.
-/

namespace Zinzhi.Clients

structure Contract (κ ρ α : Type*) where
  start : α
  legal : α → κ → Prop
  allowed : α → κ → ρ → Prop
  after : α → κ → ρ → α

variable {κ ρ α σ : Type*} (K : Contract κ ρ α) (client : List ρ → κ)

/-- What is known after these results, the last one first. -/
def known : List ρ → α
  | [] => K.start
  | r :: rs => K.after (known rs) (client rs) r

def Trace : List ρ → Prop
  | [] => True
  | r :: rs => Trace rs ∧ K.allowed (known K client rs) (client rs) r

/-- The client makes legal calls only, as long as it sees allowed results only. -/
def Obeys : Prop := ∀ rs, Trace K client rs → K.legal (known K client rs) (client rs)

def play (exec : σ → κ → Option (σ × ρ)) (client : List ρ → κ) (s : σ) : ℕ → Option (σ × List ρ)
  | 0 => some (s, [])
  | n + 1 => do
    let (s, rs) ← play exec client s n
    let (s, r) ← exec s (client rs)
    return (s, r :: rs)

/-- A legal call has a result, which is allowed. -/
def Simulates (exec : σ → κ → Option (σ × ρ)) (R : σ → α → Prop) : Prop :=
  ∀ s a c, R s a → K.legal a c →
    ∃ s' r, exec s c = some (s', r) ∧ K.allowed a c r ∧ R s' (K.after a c r)

variable {K client}

/-- **A client that obeys the contract gets what it promises.** -/
theorem play_simulates {exec : σ → κ → Option (σ × ρ)} {R : σ → α → Prop} {s : σ}
    (hsim : Simulates K exec R) (hs : R s K.start) (hobeys : Obeys K client) (n : ℕ) :
    ∃ s' rs, play exec client s n = some (s', rs) ∧ rs.length = n ∧ Trace K client rs ∧
      R s' (known K client rs) := by
  induction n with
  | zero => exact ⟨s, [], rfl, rfl, trivial, hs⟩
  | succ n ih =>
    obtain ⟨s₁, rs, hplay, hlen, htrace, hR⟩ := ih
    obtain ⟨s', r, hexec, hallowed, hR'⟩ := hsim s₁ _ _ hR (hobeys rs htrace)
    refine ⟨s', r :: rs, ?_, by simp [hlen], ⟨htrace, hallowed⟩, hR'⟩
    simp [play, hplay, hexec]

end Zinzhi.Clients
