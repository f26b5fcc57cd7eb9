import Zinzhi.GuardedSearch
import Mathlib.Data.Finset.Card
import Mathlib.Data.Fintype.Basic

/-!
`AbstractClassLoader.loadClass` over proxies that may delegate to other loaders, in cycles.

A proxy answers from classes of its own, or it calls `loadClass` of a loader: `ParentLoader`,
`CurrentLoader` and `ThreadContextLoader` do. It keeps the names that it is asked for at the
moment and answers null when it is asked again. `Collections.sort` is stable and, as documented,
no structural modification, so a list that is sorted again while it is gone through stays as it
is. The orders are integers: no difference of two in a list is too large for the `int` that
`compareTo` returns.
-/

namespace Zinzhi.Delegation

open Zinzhi.GuardedSearch

inductive Source (ℓ κ : Type)
  | classes (get : String → Option κ)
  | loader (l : ℓ)

structure System (ℓ π κ : Type) where
  order : π → ℤ
  toString : π → String
  source : π → Source ℓ κ

structure State (ℓ π : Type) where
  loaders : ℓ → List π
  currentLoadAttempts : π → Finset String

inductive Exn
  | classNotFound (className : String)
  deriving DecidableEq, Repr

variable {ℓ π κ : Type} [DecidableEq ℓ] [DecidableEq π]

/-! ### The attempts of a proxy -/

section Attempts

variable (sys : System ℓ π κ) (s : State ℓ π) (cl : π) (className : String)

def isAlreadyAttempted : Bool := sys.toString cl ++ className ∈ s.currentLoadAttempts cl

def attempt : State ℓ π :=
  { s with
    currentLoadAttempts := Function.update s.currentLoadAttempts cl
      (insert (sys.toString cl ++ className) (s.currentLoadAttempts cl)) }

def dismiss : State ℓ π :=
  { s with
    currentLoadAttempts := Function.update s.currentLoadAttempts cl
      ((s.currentLoadAttempts cl).erase (sys.toString cl ++ className)) }

end Attempts

/-! ### Loading a class -/

/-- `className.trim().equals("")` -/
def isBlank (className : String) : Bool := className.toList.all (· ≤ ' ')

def sort (sys : System ℓ π κ) (s : State ℓ π) (l : ℓ) : State ℓ π :=
  { s with
    loaders := Function.update s.loaders l
      ((s.loaders l).mergeSort fun p q => sys.order p ≤ sys.order q) }

section Calls

variable (sys : System ℓ π κ) (className : String)
  (call : ℓ → State ℓ π → Option (Except Exn (Option κ) × State ℓ π))

/-- `loadClass` of a proxy, over `loadClass` of the loaders -/
def proxyLoadClass (p : π) (s : State ℓ π) : Option (Option κ × State ℓ π) :=
  if isAlreadyAttempted sys s p className then some (none, s)
  else
    match sys.source p with
    | .classes get => some (get className, dismiss sys (attempt sys s p className) p className)
    | .loader l => do
      let (result, s) ← call l (attempt sys s p className)
      -- an exception counts as null, and the attempt is taken back either way
      return (result.toOption.join, dismiss sys s p className)

def askLoaders : List π → State ℓ π → Option (Option κ × State ℓ π)
  | [], s => some (none, s)
  | p :: ps, s => do
    let (clazz, s) ← proxyLoadClass sys className call p s
    if clazz.isSome then return (clazz, s) else askLoaders ps s

end Calls

def orNotFound (className : String) : Option κ → Except Exn (Option κ)
  | none => .error (.classNotFound className)
  | some clazz => .ok (some clazz)

/-- `loadClass` of a loader; the fuel bounds the depth of the calls -/
def loadClass (sys : System ℓ π κ) (className : String) : (fuel : ℕ) → ℓ → State ℓ π →
    Option (Except Exn (Option κ) × State ℓ π)
  | 0, _, _ => none
  | fuel + 1, l, s =>
    if isBlank className then some (.ok none, s)
    else do
      let s := sort sys s l
      let (clazz, s) ← askLoaders sys className (loadClass sys className fuel) (s.loaders l) s
      return (orNotFound className clazz, s)

/-! ### What is left of the attempts -/

/-- The proxies that would answer null because they are being asked. -/
def attempted (sys : System ℓ π κ) (s : State ℓ π) (className : String) : Set π :=
  {p | isAlreadyAttempted sys s p className = true}

/-- From `s` to `s'` the attempts are the same, and so are the proxies of each loader. -/
structure Restored (s s' : State ℓ π) : Prop where
  attempts : s'.currentLoadAttempts = s.currentLoadAttempts
  loaders : ∀ l, (s'.loaders l).Perm (s.loaders l)

omit [DecidableEq ℓ] [DecidableEq π] in
lemma Restored.refl (s : State ℓ π) : Restored s s := ⟨rfl, fun _ => .rfl⟩

omit [DecidableEq ℓ] [DecidableEq π] in
lemma Restored.trans {s s₁ s₂ : State ℓ π} (h : Restored s s₁) (h₁ : Restored s₁ s₂) :
    Restored s s₂ :=
  ⟨h₁.attempts.trans h.attempts, fun l => (h₁.loaders l).trans (h.loaders l)⟩

variable {sys : System ℓ π κ} {className : String} {s s' : State ℓ π} {p : π}

omit [DecidableEq ℓ] [DecidableEq π] in
lemma Restored.attempted_eq (h : Restored s s') :
    attempted sys s' className = attempted sys s className := by
  simp only [attempted, isAlreadyAttempted, h.attempts]

omit [DecidableEq ℓ] in
lemma attempted_attempt :
    attempted sys (attempt sys s p className) className =
      insert p (attempted sys s className) := by
  ext q
  by_cases hq : q = p
  · subst hq
    simp [attempted, isAlreadyAttempted, attempt]
  · simp [attempted, isAlreadyAttempted, attempt, hq]

omit [DecidableEq ℓ] in
/-- What was attempted is taken back when the call in between has taken back its own. -/
lemma restored_dismiss (hp : isAlreadyAttempted sys s p className = false)
    (h : Restored (attempt sys s p className) s') :
    Restored s (dismiss sys s' p className) := by
  refine ⟨?_, h.loaders⟩
  have hkey : sys.toString p ++ className ∉ s.currentLoadAttempts p := by
    simpa [isAlreadyAttempted] using hp
  funext q
  by_cases hq : q = p
  · subst hq
    simp [dismiss, h.attempts, attempt, Finset.erase_insert hkey]
  · simp [dismiss, h.attempts, attempt, Function.update_of_ne hq]

omit [DecidableEq π] in
lemma restored_sort (s : State ℓ π) (l : ℓ) : Restored s (sort sys s l) := by
  refine ⟨rfl, fun l' => ?_⟩
  by_cases hl : l' = l
  · subst hl
    simpa [sort] using List.mergeSort_perm _ _
  · simp [sort, Function.update_of_ne hl]

/-! ### What is found -/

/-- The delegation between the loaders, with the proxies that answer with the class `c` as its
goals. -/
def graph (sys : System ℓ π κ) (loaders : ℓ → List π) (className : String) (c : κ) :
    EdgeGraph ℓ π where
  out l p := p ∈ loaders l
  target p l := sys.source p = .loader l
  goal p := ∃ get, sys.source p = .classes get ∧ get className = some c

/-- A class is one of those there are, and null says that there are none. -/
def IsOneOf (P : κ → Prop) : Option κ → Prop
  | some c => P c
  | none => ∀ c, ¬P c

lemma IsOneOf.congr {P Q : κ → Prop} {r : Option κ} (h : IsOneOf P r) (hPQ : ∀ c, P c ↔ Q c) :
    IsOneOf Q r := by
  cases r with
  | none => exact fun c hc => h c ((hPQ c).2 hc)
  | some c => exact (hPQ c).1 h

/-- A call comes back, has taken back its attempts, and has found a class if there is one. -/
def Answers (P : κ → Prop) (s : State ℓ π) (r : Option (Option κ × State ℓ π)) : Prop :=
  ∃ clazz s', r = some (clazz, s') ∧ Restored s s' ∧ IsOneOf P clazz

variable {loaders : ℓ → List π}
  {call : ℓ → State ℓ π → Option (Except Exn (Option κ) × State ℓ π)}

omit [DecidableEq ℓ] in
lemma proxyLoadClass_answers
    (hcall : isAlreadyAttempted sys s p className = false → ∀ l, sys.source p = .loader l →
      Answers (fun c => (graph sys loaders className c).Found
          (insert p (attempted sys s className)) l) (attempt sys s p className)
        ((call l (attempt sys s p className)).map fun r => (r.1.toOption.join, r.2))) :
    Answers (fun c => (graph sys loaders className c).Through (attempted sys s className) p) s
      (proxyLoadClass sys className call p s) := by
  rw [proxyLoadClass]
  by_cases hp : isAlreadyAttempted sys s p className = true
  · -- a proxy that is being asked answers null
    rw [if_pos hp]
    exact ⟨none, s, rfl, .refl s, fun c h => h.1 hp⟩
  · rw [if_neg hp]
    have hp' := Bool.eq_false_of_not_eq_true hp
    cases hsource : sys.source p with
    | classes get =>
      -- a class of its own, or null
      refine ⟨_, _, rfl, restored_dismiss hp' (.refl _), ?_⟩
      have hthrough : ∀ c, (graph sys loaders className c).Through (attempted sys s className) p ↔
          get className = some c := by
        intro c
        constructor
        · rintro ⟨-, ⟨get', hget', hc⟩ | ⟨l, hl, -⟩⟩
          · rw [hsource, Source.classes.injEq] at hget'
            rwa [hget']
          · exact absurd (hsource.symm.trans hl) (by simp)
        · exact fun hc => ⟨hp, .inl ⟨get, hsource, hc⟩⟩
      refine IsOneOf.congr ?_ fun c => (hthrough c).symm
      cases get className with
      | none => exact fun c => by simp
      | some c => exact rfl
    | loader l =>
      -- the loader is asked, with this proxy guarded
      obtain ⟨clazz, s₁, hr, hs₁, hone⟩ := hcall hp' l hsource
      obtain ⟨⟨result, s₂⟩, hcall', hr⟩ := Option.map_eq_some_iff.1 hr
      obtain ⟨rfl, rfl⟩ := Prod.mk.inj hr
      refine ⟨_, _, by dsimp only; rw [hcall']; rfl, restored_dismiss hp' hs₁,
        hone.congr fun c => ?_⟩
      constructor
      · exact fun h => ⟨hp, .inr ⟨l, hsource, h⟩⟩
      · rintro ⟨-, ⟨get, hget, -⟩ | ⟨l', hl', h⟩⟩
        · exact absurd (hsource.symm.trans hget) (by simp)
        · rw [hsource.symm.trans hl' |> Source.loader.inj]
          exact h

omit [DecidableEq ℓ] in
/-- The loop finds a class if there is one along some proxy. -/
lemma askLoaders_answers {P : π → κ → Prop} {ps : List π}
    (hask : ∀ p ∈ ps, ∀ s₁, Restored s s₁ →
      Answers (P p) s₁ (proxyLoadClass sys className call p s₁)) :
    Answers (fun c => ∃ p ∈ ps, P p c) s (askLoaders sys className call ps s) := by
  induction ps generalizing s with
  | nil => exact ⟨none, s, rfl, .refl s, fun c => by simp⟩
  | cons p ps ih =>
    obtain ⟨clazz, s₁, hr, hs₁, hone⟩ := hask p List.mem_cons_self s (.refl s)
    cases clazz with
    | some c =>
      exact ⟨some c, s₁, by rw [askLoaders, hr]; rfl, hs₁, p, List.mem_cons_self, hone⟩
    | none =>
      obtain ⟨clazz, s₂, hr₂, hs₂, hone₂⟩ := ih fun q hq s₂ hs₂ =>
        hask q (List.mem_cons_of_mem p hq) s₂ (hs₁.trans hs₂)
      refine ⟨clazz, s₂, by rw [askLoaders, hr]; exact hr₂, hs₁.trans hs₂, hone₂.congr fun c => ?_⟩
      simp only [List.mem_cons, exists_eq_or_imp, hone c, false_or]

section Fuel

variable [Fintype π]

/-- The proxies that are not being asked; a call goes at most this deep. -/
def unattempted (sys : System ℓ π κ) (s : State ℓ π) (className : String) : Finset π :=
  Finset.univ.filter fun p => isAlreadyAttempted sys s p className = false

omit [DecidableEq ℓ] in
lemma card_unattempted_attempt (hp : isAlreadyAttempted sys s p className = false) :
    (unattempted sys (attempt sys s p className) className).card <
      (unattempted sys s className).card := by
  apply Finset.card_lt_card
  have hmem : ∀ q, q ∈ unattempted sys (attempt sys s p className) className ↔
      q ≠ p ∧ q ∈ unattempted sys s className := by
    intro q
    have h : q ∈ attempted sys (attempt sys s p className) className ↔ _ :=
      Set.ext_iff.1 attempted_attempt q
    simp only [attempted, Set.mem_ofPred_eq, Set.mem_insert_iff] at h
    simp only [unattempted, Finset.mem_filter, Finset.mem_univ, true_and,
      ← Bool.not_eq_true, h, not_or]
  refine (Finset.ssubset_iff_of_subset fun q hq => ((hmem q).1 hq).2).2 ⟨p, ?_, ?_⟩
  · simpa [unattempted] using hp
  · exact fun h => ((hmem p).1 h).1 rfl

omit [DecidableEq ℓ] [DecidableEq π] in
lemma Restored.unattempted_eq (h : Restored s s') :
    unattempted sys s' className = unattempted sys s className := by
  ext q
  simp [unattempted, isAlreadyAttempted, h.attempts]

/-- By induction on the fuel: each proxy that delegates is guarded from then on. -/
lemma loadClass_answers (hname : isBlank className = false) :
    ∀ (fuel : ℕ) (l : ℓ) (s : State ℓ π), (∀ l, (s.loaders l).Perm (loaders l)) →
      (unattempted sys s className).card < fuel →
      ∃ clazz s', loadClass sys className fuel l s = some (orNotFound className clazz, s') ∧
        Restored s s' ∧
        IsOneOf (fun c => (graph sys loaders className c).Found (attempted sys s className) l) clazz
  | 0, _, _, _, hfuel => absurd hfuel (Nat.not_lt_zero _)
  | fuel + 1, l, s, hs, hfuel => by
    have hsort : Restored s (sort sys s l) := restored_sort s l
    have hask : ∀ p ∈ (sort sys s l).loaders l, ∀ s₁, Restored (sort sys s l) s₁ →
        Answers
          (fun c => (graph sys loaders className c).Through (attempted sys s className) p) s₁
          (proxyLoadClass sys className (loadClass sys className fuel) p s₁) := by
      intro p _ s₁ hs₁
      have hs₁ := hsort.trans hs₁
      rw [← hs₁.attempted_eq]
      refine proxyLoadClass_answers fun hp l' _ => ?_
      have hcard := card_unattempted_attempt hp
      rw [hs₁.unattempted_eq] at hcard
      obtain ⟨clazz, s₂, hr, hs₂, hone⟩ := loadClass_answers hname fuel l'
        (attempt sys s₁ p className) (fun l => (hs₁.loaders l).trans (hs l)) (by omega)
      rw [attempted_attempt] at hone
      refine ⟨clazz, s₂, ?_, hs₂, hone⟩
      rw [hr]
      cases clazz <;> rfl
    obtain ⟨clazz, s₁, hr, hs₁, hone⟩ := askLoaders_answers hask
    refine ⟨clazz, s₁, ?_, hsort.trans hs₁, hone.congr fun c => ?_⟩
    · rw [loadClass, hname]
      simp only [Bool.false_eq_true, if_false, hr]
      rfl
    · rw [EdgeGraph.found_iff]
      refine exists_congr fun p => and_congr_left fun _ => ?_
      exact ((hsort.loaders l).trans (hs l)).mem_iff

end Fuel

/-! ### More fuel gives the same -/

omit [DecidableEq ℓ] in
lemma proxyLoadClass_mono
    {call' : ℓ → State ℓ π → Option (Except Exn (Option κ) × State ℓ π)}
    (h : ∀ l s r, call l s = some r → call' l s = some r) {r : Option κ × State ℓ π}
    (hr : proxyLoadClass sys className call p s = some r) :
    proxyLoadClass sys className call' p s = some r := by
  rw [proxyLoadClass] at hr ⊢
  split at hr
  · rename_i hp
    rwa [if_pos hp]
  · rename_i hp
    rw [if_neg hp]
    cases hsource : sys.source p with
    | classes get => rwa [hsource] at hr
    | loader l =>
      rw [hsource] at hr
      obtain ⟨r', hcall, hr⟩ := Option.bind_eq_some_iff.1 hr
      exact Option.bind_eq_some_iff.2 ⟨r', h _ _ _ hcall, hr⟩

omit [DecidableEq ℓ] in
lemma askLoaders_mono {call' : ℓ → State ℓ π → Option (Except Exn (Option κ) × State ℓ π)}
    (h : ∀ l s r, call l s = some r → call' l s = some r) {ps : List π}
    {r : Option κ × State ℓ π} (hr : askLoaders sys className call ps s = some r) :
    askLoaders sys className call' ps s = some r := by
  induction ps generalizing s with
  | nil => exact hr
  | cons p ps ih =>
    obtain ⟨⟨clazz, s₁⟩, hp, hr⟩ := Option.bind_eq_some_iff.1 hr
    refine Option.bind_eq_some_iff.2 ⟨(clazz, s₁), proxyLoadClass_mono h hp, ?_⟩
    cases clazz with
    | some c => exact hr
    | none => exact ih hr

lemma loadClass_succ {fuel : ℕ} {l : ℓ} {r : Except Exn (Option κ) × State ℓ π}
    (hr : loadClass sys className fuel l s = some r) :
    loadClass sys className (fuel + 1) l s = some r := by
  induction fuel generalizing l s r with
  | zero => cases hr
  | succ fuel ih =>
    rw [loadClass] at hr ⊢
    split at hr
    · rename_i hname
      rwa [if_pos hname]
    · rename_i hname
      rw [if_neg hname]
      obtain ⟨r', hask, hr⟩ := Option.bind_eq_some_iff.1 hr
      exact Option.bind_eq_some_iff.2 ⟨r', askLoaders_mono (fun _ _ _ => ih) hask, hr⟩

lemma loadClass_mono {fuel fuel' : ℕ} (hle : fuel ≤ fuel') {l : ℓ}
    {r : Except Exn (Option κ) × State ℓ π} (hr : loadClass sys className fuel l s = some r) :
    loadClass sys className fuel' l s = some r := by
  induction hle with
  | refl => exact hr
  | step _ ih => exact loadClass_succ ih

/-! ### Cyclic delegation -/

def idle (loaders : ℓ → List π) : State ℓ π := ⟨loaders, fun _ => ∅⟩

/-- `loadClass` called from outside comes back with a class that is to be reached by delegation, if
there is one, and throws otherwise; no attempt is left behind. -/
def Settles (sys : System ℓ π κ) (loaders : ℓ → List π) (l : ℓ) (className : String) : Prop :=
  ∃ result s', (∃ n, ∀ fuel ≥ n,
      loadClass sys className fuel l (idle loaders) = some (result, s')) ∧
    ((∃ c, (graph sys loaders className c).Reachable l) →
      ∃ c, result = .ok (some c) ∧ (graph sys loaders className c).Reachable l) ∧
    ((¬∃ c, (graph sys loaders className c).Reachable l) →
      result = .error (.classNotFound className)) ∧
    ∀ p, s'.currentLoadAttempts p = ∅

omit [DecidableEq ℓ] [DecidableEq π] in
lemma attempted_idle : attempted sys (idle loaders) className = ∅ := by
  ext p
  simp [attempted, isAlreadyAttempted, idle]

lemma settles_of_nonblank [Fintype π] (hname : isBlank className = false) (l : ℓ) :
    Settles sys loaders l className := by
  let n := (unattempted sys (idle loaders) className).card + 1
  obtain ⟨clazz, s', hr, hs', hone⟩ := loadClass_answers hname n l (idle loaders)
    (fun _ => .rfl) (Nat.lt_succ_self _)
  have hone : IsOneOf (fun c => (graph sys loaders className c).Reachable l) clazz := by
    rw [attempted_idle] at hone
    exact hone.congr fun c => EdgeGraph.found_empty_iff
  refine ⟨_, s', ⟨n, fun fuel hfuel => loadClass_mono hfuel hr⟩, ?_, ?_, ?_⟩
  · rintro ⟨c, hc⟩
    cases clazz with
    | none => exact absurd hc (hone c)
    | some c' => exact ⟨c', rfl, hone⟩
  · intro hnone
    cases clazz with
    | none => rfl
    | some c' => exact absurd ⟨c', hone⟩ hnone
  · intro p
    rw [hs'.attempts]
    rfl

/-- Delegation in cycles comes to an end and finds every class there is to be found; but a blank
name is answered with null, without asking anyone. -/
theorem loadClass_settles [Fintype π] (sys : System ℓ π κ) (loaders : ℓ → List π) (l : ℓ)
    (className : String) :
    (isBlank className = false → Settles sys loaders l className) ∧
      (isBlank className = true → ∀ fuel s,
        loadClass sys className (fuel + 1) l s = some (.ok none, s)) := by
  constructor
  · exact fun hname => settles_of_nonblank hname l
  · intro hname fuel s
    rw [loadClass, if_pos hname]

/-- Two loaders that delegate to each other, the second with a class of its own. -/
def twoLoaders : System Bool (Fin 3) ℕ where
  order p := p
  toString p := toString p
  source
    | 0 => .loader true
    | 1 => .loader false
    | 2 => .classes fun name => if name = "a.B" then some 7 else none

def twoLoadersProxies : Bool → List (Fin 3)
  | false => [0]
  | true => [2, 1]

theorem loadClass_settles_twoLoaders :
    Settles twoLoaders twoLoadersProxies false "a.B" ∧
      Settles twoLoaders twoLoadersProxies false "a.C" ∧
      loadClass twoLoaders "" 1 false (idle twoLoadersProxies) =
        some (.ok none, idle twoLoadersProxies) := by
  have h := loadClass_settles twoLoaders twoLoadersProxies false
  exact ⟨(h "a.B").1 (by simp [isBlank]), (h "a.C").1 (by simp [isBlank]),
    (h "").2 (by simp [isBlank]) 0 _⟩

/-- Nobody has a class without a name, and yet nothing is thrown. -/
theorem not_settles_blank : ¬Settles twoLoaders twoLoadersProxies false "" := by
  rintro ⟨result, s', ⟨n, hn⟩, hfound, hnone, -⟩
  have hr := hn (n + 1) (Nat.le_succ n)
  rw [loadClass, if_pos (by simp [isBlank])] at hr
  obtain ⟨rfl, -⟩ := Prod.mk.inj (Option.some.inj hr)
  by_cases h : ∃ c, (graph twoLoaders twoLoadersProxies "" c).Reachable false
  · obtain ⟨c, hc, -⟩ := hfound h
    cases hc
  · cases hnone h

end Zinzhi.Delegation
