import Zinzhi.LinkedListPrograms

/-!
`List(int, const T&)` against as many calls of `push_back`.

What a list contains is what a reader of its nodes finds on the way along `_next` from the dummy
node back to it, and along `_prev`.
-/

namespace Zinzhi.ListFill

open Zinzhi.LinkRing Zinzhi.LinkedList Zinzhi.LinkedListShape Zinzhi.LinkedListPrograms

variable {T : Type}

/-! ### Reading a list -/

/-- The values from the node `p` on, until the dummy node is met. -/
def readFrom (follow : ℕ → Option ℕ) (h : Heap T) (d : ℕ) : (fuel : ℕ) → (p : ℕ) → Option (List T)
  | 0, _ => none
  | fuel + 1, p =>
    if p = d then some []
    else do
      let x ← h.data p
      let xs ← readFrom follow h d fuel (← follow p)
      return x :: xs

def frontToBack (fuel : ℕ) (h : Heap T) (l : Lst) : Option (List T) := do
  readFrom h.links.next h l.dummy fuel (← h.links.next l.dummy)

def backToFront (fuel : ℕ) (h : Heap T) (l : Lst) : Option (List T) := do
  readFrom h.links.prev h l.dummy fuel (← h.links.prev l.dummy)

/-- The list reads as `xs` both ways, and has as many elements. -/
structure ReadsAs (h : Heap T) (l : Lst) (xs : List T) : Prop where
  forward : ∀ fuel, xs.length < fuel → frontToBack fuel h l = some xs
  backward : ∀ fuel, xs.length < fuel → backToFront fuel h l = some xs.reverse
  size : l.size = xs.length

lemma ReadsAs.unique {h : Heap T} {l : Lst} {xs ys : List T} (hx : ReadsAs h l xs)
    (hy : ReadsAs h l ys) : xs = ys := by
  have hx' := hx.forward (max xs.length ys.length + 1) (by omega)
  have hy' := hy.forward (max xs.length ys.length + 1) (by omega)
  exact Option.some.inj (hx'.symm.trans hy')

lemma readFrom_path {follow : ℕ → Option ℕ} {h : Heap T} {d fuel p : ℕ} {ps : List ℕ} {xs : List T}
    (hpath : Path follow p ps d) (hdata : ps.map h.data = xs.map some) (hd : d ∉ ps)
    (hfuel : ps.length < fuel) : readFrom follow h d fuel p = some xs := by
  induction ps generalizing p fuel xs with
  | nil =>
    obtain ⟨k, rfl⟩ : ∃ k, fuel = k + 1 := ⟨fuel - 1, by omega⟩
    obtain rfl : p = d := hpath
    obtain rfl : xs = [] := by simpa using hdata
    simp [readFrom]
  | cons a ps ih =>
    obtain ⟨k, rfl⟩ : ∃ k, fuel = k + 1 := ⟨fuel - 1, by omega⟩
    obtain ⟨rfl, r, hr, hrest⟩ := hpath
    obtain ⟨x, xs, rfl⟩ := List.exists_cons_of_ne_nil (l := xs) (by rintro rfl; simp at hdata)
    obtain ⟨hx, hxs⟩ := List.cons.inj hdata
    have hpd : p ≠ d := fun e => hd (e ▸ List.mem_cons_self)
    have htail := ih hrest hxs (fun hmem => hd (List.mem_cons_of_mem _ hmem))
      (Nat.lt_of_succ_lt_succ hfuel)
    simp only [readFrom, if_neg hpd, hx, hr, htail, Option.bind_eq_bind, Option.bind_some]
    rfl

/-- The shape of a list says how it reads: the ring is one in both directions. -/
lemma Holds.readsAs [Inhabited T] {h : Heap T} {l : Lst} {ns : List ℕ} {xs : List T}
    (hl : Holds h l ns xs) : ReadsAs h l xs where
  forward fuel hfuel := by
    have hd : l.dummy ∉ ns := (List.nodup_cons.mp hl.ring.nodup).1
    have hpath := path_of_chain hl.ring.chain.tail
    have hfirst : h.links.next l.dummy = some (ns.headD l.dummy) := hl.ring.linked_head.1
    rw [frontToBack, hfirst]
    exact readFrom_path hpath hl.data hd (hl.length_eq ▸ hfuel)
  backward fuel hfuel := by
    have hring := hl.ring.flip
    have hd : l.dummy ∉ ns.reverse := (List.nodup_cons.mp hring.nodup).1
    have hpath := path_of_chain hring.chain.tail
    have hfirst : h.links.prev l.dummy = some (ns.reverse.headD l.dummy) := hring.linked_head.1
    rw [backToFront, hfirst]
    refine readFrom_path hpath ?_ hd (by rwa [List.length_reverse, hl.length_eq])
    rw [List.map_reverse, List.map_reverse, hl.data]
  size := hl.size

/-! ### The two ways to build it -/

section Build

variable [Inhabited T] (A : Allocator T)

/-- `List(int, const T&)`: the nodes get `T()`, and the value is not used. -/
def ofFill (h : Heap T) (n : ℤ) (_t : T) : Option (Heap T × Lst) := do
  let (h, d) := new A h default none none
  let (h, p) ← sizeLoop A d n.toNat h d
  let h ← setNext h d p
  return (h, ⟨d, n⟩)

omit [Inhabited T] in
/-- `n` calls of `push_back(t)` -/
def pushBacks (t : T) : (n : ℕ) → Heap T → Lst → Option (Heap T × Lst)
  | 0, h, l => some (h, l)
  | n + 1, h, l => do
    let (h, l) ← pushBack A h l t
    pushBacks t n h l

def ofPushBacks (h : Heap T) (n : ℕ) (t : T) : Option (Heap T × Lst) :=
  let (h, l) := ofEmpty A h
  pushBacks A t n h l

lemma ofFill_spec (h : Heap T) (n : ℕ) (t : T) :
    ∃ h' l', ofFill A h n t = some (h', l') ∧ ReadsAs h' l' (List.replicate n default) := by
  obtain ⟨h', l', ns', hrun, hl', -⟩ := ofSize_spec A h (Int.natCast_nonneg n)
  exact ⟨h', l', hrun, Holds.readsAs hl'⟩

lemma pushBacks_spec (t : T) (n : ℕ) {h : Heap T} {l : Lst} {ns : List ℕ} {xs : List T}
    (hl : Holds h l ns xs) :
    ∃ h' l' ns', pushBacks A t n h l = some (h', l') ∧
      Holds h' l' ns' (xs ++ List.replicate n t) := by
  induction n generalizing h l ns xs with
  | zero => exact ⟨h, l, ns, rfl, by simpa using hl⟩
  | succ n ih =>
    have hpush : absOp xs (.pushBack t) = some (xs ++ [t]) := rfl
    obtain ⟨h₁, l₁, ns₁, hrun₁, -, hl₁, -⟩ := callOp_spec A hl hpush
    obtain ⟨h', l', ns', hrun, hl'⟩ := ih hl₁
    refine ⟨h', l', ns', ?_, by simpa [List.replicate_succ] using hl'⟩
    replace hrun₁ : pushBack A h l t = some (h₁, l₁) := hrun₁
    simp only [pushBacks, hrun₁, Option.bind_eq_bind, Option.bind_some]
    exact hrun

lemma ofPushBacks_spec (h : Heap T) (n : ℕ) (t : T) :
    ∃ h' l', ofPushBacks A h n t = some (h', l') ∧ ReadsAs h' l' (List.replicate n t) := by
  obtain ⟨h₀, hnew, hl₀, -⟩ := new_holds A h
  obtain ⟨h', l', ns', hrun, hl'⟩ := pushBacks_spec A t n hl₀
  refine ⟨h', l', ?_, Holds.readsAs hl'⟩
  simp only [ofPushBacks, ofEmpty, hnew]
  exact hrun

/-- **The fill constructor agrees with `push_back`** exactly for no elements and for the default
value: it fills the list with that one. -/
theorem ofFill_agrees_iff (h : Heap T) (n : ℕ) (t : T) :
    (∃ h₁ l₁ h₂ l₂, ofFill A h n t = some (h₁, l₁) ∧ ofPushBacks A h n t = some (h₂, l₂) ∧
      ReadsAs h₁ l₁ (List.replicate n t) ∧ ReadsAs h₂ l₂ (List.replicate n t)) ↔
      n = 0 ∨ t = default := by
  obtain ⟨h₁, l₁, hfill, hreads₁⟩ := ofFill_spec A h n t
  obtain ⟨h₂, l₂, hpush, hreads₂⟩ := ofPushBacks_spec A h n t
  constructor
  · rintro ⟨h₁', l₁', -, -, hfill', -, hreads, -⟩
    rw [hfill] at hfill'
    obtain ⟨rfl, rfl⟩ := Prod.mk.inj (Option.some.inj hfill')
    exact (List.replicate_inj.mp (hreads.unique hreads₁)).2
  · intro hcond
    have heq : List.replicate n t = List.replicate n default :=
      List.replicate_inj.mpr ⟨rfl, hcond⟩
    exact ⟨h₁, l₁, h₂, l₂, hfill, hpush, heq ▸ hreads₁, hreads₂⟩

end Build

/-- `List<int>(1, 7)` holds a zero. -/
theorem ofFill_seven :
    ¬∃ h₁ l₁ h₂ l₂, ofFill Allocator.bump Heap.empty 1 7 = some (h₁, l₁) ∧
      ofPushBacks Allocator.bump Heap.empty 1 7 = some (h₂, l₂) ∧
      ReadsAs h₁ l₁ [7] ∧ ReadsAs h₂ l₂ [7] := by
  rintro ⟨h₁, l₁, -, -, hfill, -, hreads, -⟩
  obtain ⟨h, l, hrun, hzero⟩ := ofFill_spec Allocator.bump (T := ℕ) Heap.empty 1 7
  obtain ⟨rfl, rfl⟩ := Prod.mk.inj (Option.some.inj (hrun.symm.trans hfill))
  exact absurd (hreads.unique hzero) (by decide)

end Zinzhi.ListFill
