import Mathlib.Logic.Relation
import Mathlib.Data.Set.Insert

/-!
Searching a graph with a guard on the edges of the current path.

From a place one looks along its edges. An edge may be a goal, and it may lead to another place.
An edge is not used again while it is on the path, but may be used again later. Such a search
still finds a goal wherever there is one to be reached: a path that uses an edge twice can be cut
short between the two uses.
-/

namespace Zinzhi.GuardedSearch

/-- The edges `π` of the places `ℓ`, where they lead, and which of them are goals. -/
structure EdgeGraph (ℓ π : Type*) where
  out : ℓ → π → Prop
  target : π → ℓ → Prop
  goal : π → Prop

variable {ℓ π : Type*} (G : EdgeGraph ℓ π)

def EdgeGraph.Step (l l' : ℓ) : Prop := ∃ p, G.out l p ∧ G.target p l'

/-- Some place to be reached has a goal. -/
def EdgeGraph.Reachable (l : ℓ) : Prop :=
  ∃ l', Relation.ReflTransGen G.Step l l' ∧ ∃ p, G.out l' p ∧ G.goal p

/-- A goal is found without the guarded edges, each edge taken being guarded from then on. -/
inductive EdgeGraph.Found : Set π → ℓ → Prop
  | here {S : Set π} {l : ℓ} {p : π} (hout : G.out l p) (hp : p ∉ S) (hgoal : G.goal p) : Found S l
  | step {S : Set π} {l l' : ℓ} {p : π} (hout : G.out l p) (hp : p ∉ S) (htarget : G.target p l')
    (h : Found (insert p S) l') : Found S l

def EdgeGraph.Through (S : Set π) (p : π) : Prop :=
  p ∉ S ∧ (G.goal p ∨ ∃ l', G.target p l' ∧ G.Found (insert p S) l')

/-- The edges `p :: ps` lead one after the other from `l` to a goal, the last of them. -/
def EdgeGraph.IsPath : ℓ → π → List π → Prop
  | l, p, [] => G.out l p ∧ G.goal p
  | l, p, q :: ps => G.out l p ∧ ∃ l', G.target p l' ∧ IsPath l' q ps

variable {G}

lemma EdgeGraph.found_iff {S : Set π} {l : ℓ} : G.Found S l ↔ ∃ p, G.out l p ∧ G.Through S p := by
  constructor
  · rintro (⟨hout, hp, hgoal⟩ | ⟨hout, hp, htarget, h⟩)
    · exact ⟨_, hout, hp, .inl hgoal⟩
    · exact ⟨_, hout, hp, .inr ⟨_, htarget, h⟩⟩
  · rintro ⟨p, hout, hp, hgoal | ⟨l', htarget, h⟩⟩
    · exact .here hout hp hgoal
    · exact .step hout hp htarget h

lemma EdgeGraph.IsPath.out {l : ℓ} {p : π} {ps : List π} (h : G.IsPath l p ps) : G.out l p := by
  cases ps with
  | nil => exact h.1
  | cons q ps => exact h.1

/-- Where a path uses an edge of `l`, the rest of it is a path from `l`. -/
lemma EdgeGraph.IsPath.cut {l l₀ : ℓ} {p q : π} {ps rest : List π}
    (h : G.IsPath l p (ps ++ q :: rest)) (hq : G.out l₀ q) : G.IsPath l₀ q rest := by
  induction ps generalizing l p with
  | nil =>
    obtain ⟨-, l', -, h⟩ := h
    cases rest with
    | nil => exact ⟨hq, h.2⟩
    | cons r rest => exact ⟨hq, h.2⟩
  | cons p' ps ih =>
    obtain ⟨-, l', -, h⟩ := h
    exact ih h

/-- A path around the guarded edges is found; by induction on its length. -/
lemma EdgeGraph.IsPath.found {S : Set π} {l : ℓ} {p : π} {ps : List π} (h : G.IsPath l p ps)
    (hS : ∀ q ∈ p :: ps, q ∉ S) : G.Found S l := by
  induction hn : ps.length using Nat.strong_induction_on generalizing S l p ps with
  | _ n ih =>
    subst hn
    have hp : p ∉ S := hS p List.mem_cons_self
    by_cases hmem : p ∈ ps
    · -- the edge is used again: go on from its last use
      obtain ⟨xs, rest, rfl⟩ := List.append_of_mem hmem
      refine ih rest.length (by simp; omega) (h.cut h.out) (fun q hq => hS q ?_) rfl
      exact List.mem_cons_of_mem _ (List.mem_append_right _ hq)
    · cases ps with
      | nil => exact .here h.1 hp h.2
      | cons q ps =>
        obtain ⟨hout, l', htarget, hrest⟩ := h
        refine .step hout hp htarget (ih ps.length (by simp) hrest (fun r hr => ?_) rfl)
        rw [Set.mem_insert_iff, not_or]
        exact ⟨fun e => hmem (e ▸ hr), hS r (List.mem_cons_of_mem _ hr)⟩

lemma EdgeGraph.Reachable.isPath {l : ℓ} (h : G.Reachable l) : ∃ p ps, G.IsPath l p ps := by
  obtain ⟨l', hsteps, p, hout, hgoal⟩ := h
  induction hsteps using Relation.ReflTransGen.head_induction_on with
  | refl => exact ⟨p, [], hout, hgoal⟩
  | head hstep _ ih =>
    obtain ⟨q, hq, htarget⟩ := hstep
    obtain ⟨r, ps, hpath⟩ := ih
    exact ⟨q, r :: ps, hq, _, htarget, hpath⟩

lemma EdgeGraph.Found.reachable {S : Set π} {l : ℓ} (h : G.Found S l) : G.Reachable l := by
  induction h with
  | here hout _ hgoal => exact ⟨_, .refl, _, hout, hgoal⟩
  | step hout _ htarget _ ih =>
    obtain ⟨l', hsteps, hgoal⟩ := ih
    exact ⟨l', .head ⟨_, hout, htarget⟩ hsteps, hgoal⟩

/-- **The guard loses nothing**: with no edge guarded at first, a goal is found exactly where one
can be reached. -/
theorem EdgeGraph.found_empty_iff {l : ℓ} : G.Found ∅ l ↔ G.Reachable l := by
  refine ⟨EdgeGraph.Found.reachable, fun h => ?_⟩
  obtain ⟨p, ps, hpath⟩ := h.isPath
  exact hpath.found fun _ _ => Set.notMem_empty _

end Zinzhi.GuardedSearch
