import Mathlib.Data.List.Basic

/-!
Counting loops over a body that may throw. What was done before an exception stays done, so the
state is returned with it.

Loops with a condition, on fuel: whether one ends is read off an invariant that decides it in every
state. Their body may throw too.
-/

namespace Zinzhi.Loops

variable {ε σ α β : Type*}

lemma bind_eq_ok_iff {x : Except ε α} {f : α → Except ε β} {b : β} :
    x.bind f = .ok b ↔ ∃ a, x = .ok a ∧ f a = .ok b := by
  cases x <;> simp [Except.bind]

lemma map_eq_ok_iff {x : Except ε α} {f : α → β} {b : β} :
    x.map f = .ok b ↔ ∃ a, x = .ok a ∧ f a = b := by
  cases x <;> simp [Except.map]

lemma ok_bind {α β : Type} (a : α) (f : α → Except ε β) : (.ok a >>= f) = f a := rfl

abbrev Outcome (ε σ : Type*) := Except ε Unit × σ

def andThen (r : Outcome ε σ) (f : σ → Outcome ε σ) : Outcome ε σ :=
  match r with
  | (.ok (), s) => f s
  | (.error e, s) => (.error e, s)

/-- Goes on with a value, or throws what its evaluation threw. -/
def orThrow (a : Except ε α) (f : α → σ → Outcome ε σ) (s : σ) : Outcome ε σ :=
  match a with
  | .ok a => f a s
  | .error e => (.error e, s)

/-- `for (i = 0; i < n; i++)` -/
def forRange (body : ℕ → σ → Outcome ε σ) : ℕ → σ → Outcome ε σ
  | 0, s => (.ok (), s)
  | n + 1, s => andThen (forRange body n s) (body n)

@[simp] lemma andThen_ok (s : σ) (f : σ → Outcome ε σ) : andThen (.ok (), s) f = f s := rfl

@[simp] lemma orThrow_ok (a : α) (f : α → σ → Outcome ε σ) (s : σ) :
    orThrow (.ok a) f s = f a s := rfl

/-- **The rule for a loop that throws nothing**: what each round takes on to the next holds at the
end. -/
theorem forRange_ok {f : ℕ → σ → Outcome ε σ} {I : ℕ → σ → Prop} {n : ℕ} {s : σ} (h0 : I 0 s)
    (hstep : ∀ i, i < n → ∀ s, I i s → ∃ s', f i s = (.ok (), s') ∧ I (i + 1) s') :
    ∃ s', forRange f n s = (.ok (), s') ∧ I n s' := by
  induction n with
  | zero => exact ⟨s, rfl, h0⟩
  | succ n ih =>
    obtain ⟨s₁, hrun, hI⟩ := ih fun i hi => hstep i (Nat.lt_succ_of_lt hi)
    obtain ⟨s', hbody, hI'⟩ := hstep n n.lt_succ_self s₁ hI
    exact ⟨s', by rw [forRange, hrun, andThen_ok, hbody], hI'⟩

/-- **The rule for a loop that throws in its round `k`**, in which it leaves what `J` says. -/
theorem forRange_throws {f : ℕ → σ → Outcome ε σ} {I : ℕ → σ → Prop} {J : σ → Prop} {k n : ℕ}
    {e : ε} {s : σ} (hk : k < n) (h0 : I 0 s)
    (hstep : ∀ i, i < k → ∀ s, I i s → ∃ s', f i s = (.ok (), s') ∧ I (i + 1) s')
    (hthrow : ∀ s, I k s → ∃ s', f k s = (.error e, s') ∧ J s') :
    ∃ s', forRange f n s = (.error e, s') ∧ J s' := by
  induction n with
  | zero => exact absurd hk (Nat.not_lt_zero k)
  | succ n ih =>
    rcases Nat.lt_succ_iff_lt_or_eq.mp hk with hlt | rfl
    · obtain ⟨s', hrun, hJ⟩ := ih hlt
      exact ⟨s', by rw [forRange, hrun]; rfl, hJ⟩
    · obtain ⟨s₁, hrun, hI⟩ := forRange_ok h0 hstep
      obtain ⟨s', hbody, hJ⟩ := hthrow s₁ hI
      exact ⟨s', by rw [forRange, hrun, andThen_ok, hbody], hJ⟩

/-! ### Loops with a condition -/

section While

variable (cond : σ → Prop) [DecidablePred cond] (body : σ → σ)

/-- `while (cond) body`, with fuel for the tests of the condition. -/
def whileLoop : ℕ → σ → Option σ
  | 0, _ => none
  | fuel + 1, s => if cond s then whileLoop fuel (body s) else some s

variable {cond body}

/-- What every round keeps holds at the end, and the condition does not. -/
theorem whileLoop_keeps {I : σ → Prop} (hstep : ∀ s, I s → cond s → I (body s)) {fuel : ℕ}
    {s s' : σ} (hs : I s) (hrun : whileLoop cond body fuel s = some s') : I s' ∧ ¬cond s' := by
  induction fuel generalizing s with
  | zero => cases hrun
  | succ fuel ih =>
    rw [whileLoop] at hrun
    split_ifs at hrun with hc
    · exact ih (hstep s hs hc) hrun
    · cases hrun
      exact ⟨hs, hc⟩

/-- With fuel for the measure a loop whose rounds lower it ends. -/
theorem whileLoop_ends {I : σ → Prop} {measure : σ → ℕ}
    (hstep : ∀ s, I s → cond s → I (body s) ∧ measure (body s) < measure s) {fuel : ℕ} {s : σ}
    (hs : I s) (hfuel : measure s < fuel) : ∃ s', whileLoop cond body fuel s = some s' := by
  induction fuel generalizing s with
  | zero => exact absurd hfuel (Nat.not_lt_zero _)
  | succ fuel ih =>
    rw [whileLoop]
    split_ifs with hc
    · obtain ⟨hI, hlt⟩ := hstep s hs hc
      exact ih hI (by omega)
    · exact ⟨s, rfl⟩

/-- **Exactly the good states lead to an end**, if a round neither makes a state good nor spoils it,
a loop only ends in a good one, and the rounds from a good one lower the measure. -/
theorem whileLoop_ends_iff {I good : σ → Prop} {measure : σ → ℕ}
    (hI : ∀ s, I s → cond s → I (body s)) (hgood : ∀ s, I s → cond s → (good (body s) ↔ good s))
    (hdone : ∀ s, ¬cond s → good s)
    (hlower : ∀ s, I s → cond s → good s → measure (body s) < measure s) {s : σ} (hs : I s) :
    (∃ fuel s', whileLoop cond body fuel s = some s') ↔ good s := by
  constructor
  · rintro ⟨fuel, s', hrun⟩
    have hkeeps : ∀ t, I t ∧ (good t ↔ good s) → cond t →
        I (body t) ∧ (good (body t) ↔ good s) :=
      fun t ht hc => ⟨hI t ht.1 hc, (hgood t ht.1 hc).trans ht.2⟩
    obtain ⟨⟨-, hiff⟩, hend⟩ := whileLoop_keeps hkeeps ⟨hs, Iff.rfl⟩ hrun
    exact hiff.mp (hdone s' hend)
  · intro hg
    have hstep : ∀ t, I t ∧ good t → cond t →
        (I (body t) ∧ good (body t)) ∧ measure (body t) < measure t :=
      fun t ht hc => ⟨⟨hI t ht.1 hc, (hgood t ht.1 hc).mpr ht.2⟩, hlower t ht.1 hc ht.2⟩
    exact ⟨measure s + 1, whileLoop_ends hstep ⟨hs, hg⟩ (Nat.lt_succ_self _)⟩

end While

/-! ### Loops with a condition whose body may throw -/

section WhileThrow

variable (cond : σ → Prop) [DecidablePred cond] (body : σ → Option (Outcome ε σ))

/-- `while (cond) body`. There is no result without one of the body, nor when the fuel runs out. -/
def whileThrow : ℕ → σ → Option (Outcome ε σ)
  | 0, _ => none
  | fuel + 1, s =>
    if cond s then
      match body s with
      | some (.ok (), s') => whileThrow fuel s'
      | r => r
    else some (.ok (), s)

variable {cond body}

lemma whileThrow_error {fuel : ℕ} {s s' : σ} {e : ε} (hc : cond s)
    (hbody : body s = some (.error e, s')) :
    whileThrow cond body (fuel + 1) s = some (.error e, s') := by
  rw [whileThrow, if_pos hc, hbody]

/-- A loop whose rounds throw nothing and lower the measure. -/
theorem whileThrow_ok {I : σ → Prop} {M : σ → ℕ}
    (hstep : ∀ s, I s → cond s →
      ∃ s', body s = some (.ok (), s') ∧ I s' ∧ M s' < M s) {fuel : ℕ} {s : σ}
    (hs : I s) (hfuel : M s < fuel) :
    ∃ s', whileThrow cond body fuel s = some (.ok (), s') ∧ I s' ∧ ¬cond s' := by
  induction fuel generalizing s with
  | zero => exact absurd hfuel (Nat.not_lt_zero _)
  | succ fuel ih =>
    rw [whileThrow]
    split_ifs with hc
    · obtain ⟨s₁, hbody, hI, hlt⟩ := hstep s hs hc
      rw [hbody]
      exact ih hI (by omega)
    · exact ⟨s, rfl, hs, hc⟩

/-- A loop whose condition stays true, but whose measure cannot fall for ever, throws. -/
theorem whileThrow_throws {I : σ → Prop} {M : σ → ℕ} {e : ε}
    (hcond : ∀ s, I s → cond s)
    (hstep : ∀ s, I s → (∃ s', body s = some (.error e, s')) ∨
      ∃ s', body s = some (.ok (), s') ∧ I s' ∧ M s' < M s) {fuel : ℕ} {s : σ}
    (hs : I s) (hfuel : M s < fuel) :
    ∃ s', whileThrow cond body fuel s = some (.error e, s') := by
  induction fuel generalizing s with
  | zero => exact absurd hfuel (Nat.not_lt_zero _)
  | succ fuel ih =>
    obtain ⟨s', hbody⟩ | ⟨s₁, hbody, hI, hlt⟩ := hstep s hs
    · exact ⟨s', whileThrow_error (hcond s hs) hbody⟩
    · rw [whileThrow, if_pos (hcond s hs), hbody]
      exact ih hI (by omega)

end WhileThrow

end Zinzhi.Loops
