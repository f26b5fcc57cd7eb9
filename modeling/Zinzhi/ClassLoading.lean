import Zinzhi.Runs
import Mathlib.Logic.Function.Basic

/-!
Threads that load one class through the `LocalLoader` of a `JarClassLoader`.

A step of a thread is one call of `isAlreadyAttempted`, `attempt` or `dismiss`, one access to the
map `classes`, one lookup in the repository or one call of `defineClass`. The key of the class in
`currentLoadAttempts` is the same for all threads. What stands between `defineClass` and the last
access to the map concerns the package of the class and its linking, and is part of that step.
-/

namespace Zinzhi.ClassLoading

open Zinzhi.Runs

inductive Answer (κ : Type)
  | cls (c : κ)
  | null
  | error

/-- The bytes are in the repository or not; the virtual machine answers the calls of `defineClass`
by their number. -/
structure Env (κ : Type) where
  hasBytes : Bool
  jvm : ℕ → Answer κ

/-- Where a thread stands in `LocalLoader.loadClass`: the step it takes next, or how it ended. -/
inductive Pc (κ : Type)
  | check
  | attempt
  | get
  | dismiss (result : Option κ)
  | loadBytes
  | recheck
  | define
  | put (c : κ)
  | returned (result : Option κ)
  | threw

structure Shared (κ : Type) where
  attempted : Bool
  classes : Option κ
  invoked : ℕ

structure State (τ κ : Type) where
  shared : Shared κ
  pc : τ → Pc κ

variable {τ κ : Type}

def initial (classes : Option κ) : State τ κ := ⟨⟨false, classes, 0⟩, fun _ => .check⟩

def next (env : Env κ) (m : Shared κ) : Pc κ → Shared κ × Pc κ
  | .check => (m, if m.attempted then .returned none else .attempt)
  | .attempt => ({ m with attempted := true }, .get)
  | .get => (m, .dismiss m.classes)
  | .dismiss (some c) => ({ m with attempted := false }, .returned (some c))
  | .dismiss none => ({ m with attempted := false }, .loadBytes)
  | .loadBytes => (m, if env.hasBytes then .recheck else .returned none)
  | .recheck =>
    (m, match m.classes with
      | some c => .returned (some c)
      | none => .define)
  | .define =>
    ({ m with invoked := m.invoked + 1 }, match env.jvm m.invoked with
      | .cls c => .put c
      | .null => .returned none
      | .error => .threw)
  | .put c => ({ m with classes := some c }, .returned (some c))
  | .returned r => (m, .returned r)
  | .threw => (m, .threw)

section Steps

variable [DecidableEq τ] (env : Env κ)

def step (s : State τ κ) (t : τ) : State τ κ :=
  ⟨(next env s.shared (s.pc t)).1, Function.update s.pc t (next env s.shared (s.pc t)).2⟩

lemma pc_step_self (s : State τ κ) (t : τ) :
    (step env s t).pc t = (next env s.shared (s.pc t)).2 :=
  Function.update_self ..

lemma pc_step_of_ne (s : State τ κ) {t u : τ} (h : u ≠ t) : (step env s t).pc u = s.pc u :=
  Function.update_of_ne h ..

end Steps

/-! ### No class is reported missing -/

inductive Exn
  | classNotFound
  deriving DecidableEq

/-- `AbstractClassLoader.loadClass` over the answers of its loaders, in their order. -/
def loadClass (answers : List (Option κ)) : Except Exn κ :=
  match answers.findSome? id with
  | some c => .ok c
  | none => .error .classNotFound

/-- No thread has ended with `ClassNotFoundException`, with `m` loaders before the local one and `n`
after it that do not find the class. -/
def NoneMissing (m n : ℕ) (s : State τ κ) : Prop :=
  ∀ t r, s.pc t = .returned r →
    loadClass (List.replicate m none ++ r :: List.replicate n none) ≠ .error .classNotFound

/-- The thread calls `isAlreadyAttempted` only while no `attempt` is pending, for its own or for
another thread. -/
def Unattempted (s : State τ κ) (t : τ) : Prop := s.pc t = .check → s.shared.attempted = false

lemma loadClass_missing_iff (m n : ℕ) (r : Option κ) :
    loadClass (List.replicate m none ++ r :: List.replicate n none) = .error .classNotFound ↔
      r = none := by
  have hnone (k : ℕ) : (List.replicate k (none : Option κ)).findSome? id = none := by simp
  cases r <;> simp [loadClass, List.findSome?_append, hnone]

lemma next_missing_iff {env : Env κ} (hbytes : env.hasBytes = true) (hjvm : ∀ k, env.jvm k ≠ .null)
    (m : Shared κ) {pc : Pc κ} (hpc : pc ≠ .returned none) :
    (next env m pc).2 ≠ .returned none ↔ (pc = .check → m.attempted = false) := by
  cases pc with
  | check => cases hm : m.attempted <;> simp [next, hm]
  | dismiss r => cases r <;> simp [next]
  | loadBytes => simp [next, hbytes]
  | recheck => cases hm : m.classes <;> simp [next, hm]
  | define =>
    have h := hjvm m.invoked
    cases hm : env.jvm m.invoked <;> simp_all [next]
  | returned r => cases r <;> simp_all [next]
  | _ => simp [next]

lemma noneMissing_iff (m n : ℕ) (s : State τ κ) :
    NoneMissing m n s ↔ ∀ t, s.pc t ≠ .returned none := by
  simp only [NoneMissing, ne_eq, loadClass_missing_iff]
  constructor
  · exact fun h t ht => h t none ht rfl
  · rintro h t r hr rfl
    exact h t hr

section Missing

variable [DecidableEq τ]

/-- **No thread is told that the class is missing**, exactly if no thread asks whether it is
attempted while an attempt is pending. -/
theorem noneMissing_iff_unattempted (env : Env κ) (hbytes : env.hasBytes = true)
    (hjvm : ∀ k, env.jvm k ≠ .null) (m n : ℕ) (classes : Option κ) (acts : List τ) :
    (∀ pre, pre <+: acts → NoneMissing m n (run (step env) (initial classes) pre)) ↔
      ∀ pre t, pre ++ [t] <+: acts → Unattempted (run (step env) (initial classes) pre) t := by
  refine always_iff_guarded (fun t r h => nomatch h) (fun s t hs => ?_) acts
  rw [noneMissing_iff] at hs ⊢
  rw [Unattempted, ← next_missing_iff hbytes hjvm s.shared (hs t), ← pc_step_self]
  refine ⟨fun h => h t, fun h u => ?_⟩
  by_cases hu : u = t
  · exact hu ▸ h
  · rw [pc_step_of_ne env s hu]
    exact hs u

end Missing

/-- The class is defined once, and a second call of `defineClass` is a `LinkageError`. -/
def oneClass : Env Unit := ⟨true, fun k => if k = 0 then .cls () else .error⟩

/-- Two threads that take their first step together and then one after the other. -/
theorem noneMissing_serial :
    NoneMissing 4 0 (run (step oneClass) (initial none)
      [false, true, false, false, false, false, false, false, false, true]) := by
  refine (noneMissing_iff_unattempted oneClass rfl (fun k => ?_) 4 0 none _).mpr ?_ _
    List.prefix_rfl
  · simp only [oneClass]
    split_ifs <;> simp
  · simp only [guarded_cons_iff]
    exact ⟨fun _ => rfl, fun _ => rfl, nofun, nofun, nofun, nofun, nofun, nofun, nofun, nofun,
      guarded_nil⟩

/-- A thread that asks while the other is about to look into the map. -/
theorem missing_while_attempted :
    ¬NoneMissing 4 0 (run (step oneClass) (initial none) [false, false, true]) :=
  fun h => h true none rfl rfl

/-! ### A class is defined once -/

/-- `defineClass` was called at most once, and the calls that have returned a class returned the
same one. -/
structure Once (s : State τ κ) : Prop where
  invoked : s.shared.invoked ≤ 1
  same : ∀ t u c d, s.pc t = .returned (some c) → s.pc u = .returned (some d) → c = d

/-- A thread that finds no class in the map when it looks again is the first to get so far. -/
def First (s : State τ κ) (t : τ) : Prop :=
  s.pc t = .recheck → s.shared.classes = none →
    s.shared.invoked = 0 ∧ ∀ u, s.pc u ≠ .define

/-- `defineClass` was called or is about to be called at most once. -/
structure Safe (s : State τ κ) : Prop where
  invoked : s.shared.invoked ≤ 1
  pending : ∀ t, s.pc t = .define → s.shared.invoked = 0
  unique : ∀ t u, s.pc t = .define → s.pc u = .define → t = u

/-- Only a thread that looks again comes to `defineClass`, and only there it is called. -/
lemma next_quiet (env : Env κ) (m : Shared κ) {pc : Pc κ} (hre : pc ≠ .recheck)
    (hdef : pc ≠ .define) :
    (next env m pc).2 ≠ .define ∧ (next env m pc).1.invoked = m.invoked := by
  cases pc with
  | check => cases hm : m.attempted <;> simp [next, hm]
  | dismiss r => cases r <;> simp [next]
  | loadBytes => cases hb : env.hasBytes <;> simp [next, hb]
  | recheck => exact absurd rfl hre
  | define => exact absurd rfl hdef
  | _ => simp [next]

/-- The class a thread has from the map or has put there. -/
def Pc.held : Pc κ → Option κ
  | .dismiss r => r
  | .returned r => r
  | _ => none

lemma next_held {env : Env κ} {m : Shared κ} {pc : Pc κ} {c : κ}
    (hpc : ∀ c, pc.held = some c → m.classes = some c)
    (h : (next env m pc).2.held = some c) : (next env m pc).1.classes = some c := by
  cases pc with
  | check => cases hm : m.attempted <;> simp [next, hm, Pc.held] at h
  | get => exact h
  | dismiss r => cases r with
    | none => simp [next, Pc.held] at h
    | some d => exact hpc c h
  | loadBytes => cases hb : env.hasBytes <;> simp [next, hb, Pc.held] at h
  | recheck => cases hm : m.classes <;> simp_all [next, Pc.held]
  | define => cases hj : env.jvm m.invoked <;> simp [next, hj, Pc.held] at h
  | put d => exact h
  | returned r => exact hpc c h
  | _ => simp [next, Pc.held] at h

lemma next_classes (env : Env κ) (m : Shared κ) {pc : Pc κ} (h : ∀ c, pc ≠ .put c) :
    (next env m pc).1.classes = m.classes := by
  cases pc with
  | put c => exact absurd rfl (h c)
  | dismiss r => cases r <;> rfl
  | _ => rfl

lemma next_put {env : Env κ} {m : Shared κ} {pc : Pc κ} {c : κ}
    (h : (next env m pc).2 = .put c) : pc = .define := by
  cases pc with
  | check => cases hm : m.attempted <;> simp [next, hm] at h
  | dismiss r => cases r <;> simp [next] at h
  | loadBytes => cases hb : env.hasBytes <;> simp [next, hb] at h
  | recheck => cases hm : m.classes <;> simp [next, hm] at h
  | define => rfl
  | _ => simp [next] at h

lemma next_define {env : Env κ} {m : Shared κ} {pc : Pc κ} (h : (next env m pc).2 = .define) :
    m.classes = none := by
  by_cases hre : pc = .recheck
  · subst hre
    cases hm : m.classes <;> simp_all [next]
  · by_cases hdef : pc = .define
    · subst hdef
      cases hj : env.jvm m.invoked <;> simp [next, hj] at h
    · exact absurd h (next_quiet env m hre hdef).1

lemma next_invoked (env : Env κ) (m : Shared κ) {pc : Pc κ} (h : pc ≠ .define) :
    (next env m pc).1.invoked = m.invoked := by
  by_cases hre : pc = .recheck
  · subst hre
    rfl
  · exact (next_quiet env m hre h).2

/-- The map has the class that threads got from it; a thread that is about to put one there is the
only one that has called `defineClass`. -/
structure Agreed (s : State τ κ) : Prop where
  held : ∀ t c, (s.pc t).held = some c → s.shared.classes = some c
  putting : ∀ t c, s.pc t = .put c → s.shared.invoked = 1 ∧ s.shared.classes = none
  alone : ∀ t u c d, s.pc t = .put c → s.pc u = .put d → t = u
  defining : ∀ t, s.pc t = .define → s.shared.classes = none

section Definitions

variable [DecidableEq τ] {env : Env κ} {s : State τ κ} {t : τ}

lemma Safe.of_quiet (hs : Safe s) (hpc : (next env s.shared (s.pc t)).2 ≠ .define)
    (hinv : (next env s.shared (s.pc t)).1.invoked = s.shared.invoked) : Safe (step env s t) := by
  have hold {u : τ} (hu : (step env s t).pc u = .define) : s.pc u = .define := by
    by_cases h : u = t
    · subst h
      rw [pc_step_self] at hu
      exact absurd hu hpc
    · rwa [pc_step_of_ne env s h] at hu
  have hinv' : (step env s t).shared.invoked = s.shared.invoked := hinv
  refine ⟨hinv' ▸ hs.invoked, fun u hu => ?_, fun u v hu hv => hs.unique u v (hold hu) (hold hv)⟩
  rw [hinv']
  exact hs.pending u (hold hu)

/-- **A step keeps `defineClass` from a second call** exactly if it is the first to get so far. -/
lemma safe_step_iff (hs : Safe s) (t : τ) : Safe (step env s t) ↔ First s t := by
  cases hpc : s.pc t with
  | recheck =>
    cases hcl : s.shared.classes with
    | some c =>
      refine iff_of_true (hs.of_quiet ?_ ?_) fun _ h => nomatch hcl.symm.trans h
      · simp [hpc, next, hcl]
      · simp [hpc, next]
    | none =>
      -- the thread comes to `defineClass`, where no other may be or have been
      have hnew : (step env s t).pc t = .define := by simp [pc_step_self, hpc, next, hcl]
      have hinv : (step env s t).shared.invoked = s.shared.invoked := by simp [step, hpc, next]
      constructor
      · refine fun h _ _ => ⟨hinv ▸ h.pending t hnew, fun u hu => ?_⟩
        have hut : u ≠ t := fun e => nomatch hpc.symm.trans ((congrArg s.pc e).symm.trans hu)
        exact hut (h.unique u t (by rwa [pc_step_of_ne env s hut]) hnew)
      · intro h
        obtain ⟨hzero, hnone⟩ := h hpc hcl
        have hold {u : τ} (hu : (step env s t).pc u = .define) : u = t := by
          by_contra hut
          rw [pc_step_of_ne env s hut] at hu
          exact hnone u hu
        exact ⟨by rw [hinv, hzero]; omega, fun _ _ => hinv.trans hzero,
          fun u v hu hv => (hold hu).trans (hold hv).symm⟩
  | define =>
    have hzero := hs.pending t hpc
    have hinv : (step env s t).shared.invoked = 1 := by simp [step, hpc, next, hzero]
    have hnone (u : τ) : (step env s t).pc u ≠ .define := by
      by_cases hut : u = t
      · subst hut
        rw [pc_step_self, hpc]
        simp only [next]
        split <;> simp
      · rw [pc_step_of_ne env s hut]
        exact fun hu => hut (hs.unique u t hu hpc)
    refine iff_of_true ⟨hinv.le, fun u hu => absurd hu (hnone u),
      fun u v hu => absurd hu (hnone u)⟩ fun h => nomatch hpc.symm.trans h
  | _ =>
    refine iff_of_true (hs.of_quiet ?_ ?_) fun h => nomatch hpc.symm.trans h
    all_goals simp [hpc, next_quiet]

lemma Agreed.step_put (hs : Safe s) (ha : Agreed s) {c : κ} (hpc : s.pc t = .put c) :
    Agreed (step env s t) := by
  obtain ⟨hone, hnone⟩ := ha.putting t c hpc
  have hclasses : (step env s t).shared.classes = some c := by simp [step, hpc, next]
  have hself : (step env s t).pc t = .returned (some c) := by simp [pc_step_self, hpc, next]
  have hput (u : τ) (d : κ) : (step env s t).pc u ≠ .put d := by
    intro hu
    by_cases hut : u = t
    · subst hut
      exact nomatch hself.symm.trans hu
    · rw [pc_step_of_ne env s hut] at hu
      exact hut (ha.alone u t d c hu hpc)
  refine ⟨fun u d hd => ?_, fun u d hu => absurd hu (hput u d),
    fun u v d e hu => absurd hu (hput u d), fun u hu => ?_⟩
  · by_cases hut : u = t
    · subst hut
      rw [hself] at hd
      rw [hclasses, ← hd]
      rfl
    · rw [pc_step_of_ne env s hut] at hd
      exact nomatch hnone.symm.trans (ha.held u d hd)
  · by_cases hut : u = t
    · subst hut
      exact nomatch hself.symm.trans hu
    · rw [pc_step_of_ne env s hut] at hu
      exact nomatch hone.symm.trans (hs.pending u hu)

lemma Agreed.step_other (hs : Safe s) (ha : Agreed s) (hpc : ∀ c, s.pc t ≠ .put c) :
    Agreed (step env s t) := by
  have hclasses : (step env s t).shared.classes = s.shared.classes :=
    next_classes env s.shared hpc
  -- a thread that comes to the map has called `defineClass` in this step, as the first one
  have hnew {c : κ} (hc : (step env s t).pc t = .put c) :
      s.pc t = .define ∧ ∀ u d, s.pc u ≠ .put d := by
    rw [pc_step_self] at hc
    have hdef := next_put hc
    refine ⟨hdef, fun u d hu => ?_⟩
    exact nomatch (ha.putting u d hu).1.symm.trans (hs.pending t hdef)
  refine ⟨fun u c hc => ?_, fun u c hu => ?_, fun u v c d hu hv => ?_, fun u hu => ?_⟩
  · by_cases hut : u = t
    · subst hut
      rw [pc_step_self] at hc
      exact next_held (ha.held u) hc
    · rw [pc_step_of_ne env s hut] at hc
      rw [hclasses, ha.held u c hc]
  · by_cases hut : u = t
    · subst hut
      obtain ⟨hdef, -⟩ := hnew hu
      rw [hclasses, ha.defining u hdef]
      simp [step, hdef, next, hs.pending u hdef]
    · rw [pc_step_of_ne env s hut] at hu
      obtain ⟨hone, hnone⟩ := ha.putting u c hu
      have hdef : s.pc t ≠ .define := fun h => nomatch hone.symm.trans (hs.pending t h)
      exact ⟨(next_invoked env s.shared hdef).trans hone, hclasses.trans hnone⟩
  · by_cases hut : u = t
    · by_cases hvt : v = t
      · rw [hut, hvt]
      · rw [pc_step_of_ne env s hvt] at hv
        rw [hut] at hu
        exact absurd hv ((hnew hu).2 v d)
    · rw [pc_step_of_ne env s hut] at hu
      by_cases hvt : v = t
      · rw [hvt] at hv
        exact absurd hu ((hnew hv).2 u c)
      · rw [pc_step_of_ne env s hvt] at hv
        exact ha.alone u v c d hu hv
  · rw [hclasses]
    by_cases hut : u = t
    · subst hut
      rw [pc_step_self] at hu
      exact next_define hu
    · rw [pc_step_of_ne env s hut] at hu
      exact ha.defining u hu

lemma Agreed.step (hs : Safe s) (ha : Agreed s) (t : τ) : Agreed (step env s t) := by
  by_cases h : ∃ c, s.pc t = .put c
  · obtain ⟨c, hc⟩ := h
    exact ha.step_put hs hc
  · exact ha.step_other hs (not_exists.mp h)

omit [DecidableEq τ] in
lemma safe_initial (classes : Option κ) : Safe (initial classes : State τ κ) where
  invoked := Nat.zero_le 1
  pending _ h := nomatch h
  unique _ _ h := nomatch h

omit [DecidableEq τ] in
lemma agreed_initial (classes : Option κ) : Agreed (initial classes : State τ κ) where
  held _ _ h := nomatch h
  putting _ _ h := nomatch h
  alone _ _ _ _ h := nomatch h
  defining _ h := nomatch h

lemma agreed_run {classes : Option κ} {acts : List τ}
    (hsafe : ∀ pre, pre <+: acts → Safe (run (step env) (initial classes) pre)) {pre : List τ}
    (hpre : pre <+: acts) : Agreed (run (step env) (initial classes) pre) := by
  induction pre using List.reverseRecOn with
  | nil => exact agreed_initial classes
  | append_singleton pre t ih =>
    have hbefore := (List.prefix_append pre [t]).trans hpre
    rw [run_concat]
    exact (ih hbefore).step (hsafe pre hbefore) t

omit [DecidableEq τ] in
lemma once_of_safe (hs : Safe s) (ha : Agreed s) : Once s := by
  refine ⟨hs.invoked, fun t u c d ht hu => ?_⟩
  have hc := ha.held t c (by rw [ht]; rfl)
  have hd := ha.held u d (by rw [hu]; rfl)
  exact Option.some.inj (hc.symm.trans hd)

variable (env) in
lemma invoked_le_step (s : State τ κ) (t : τ) :
    s.shared.invoked ≤ (step env s t).shared.invoked := by
  by_cases h : s.pc t = .define
  · simp [step, h, next]
  · exact (next_invoked env s.shared h).ge

lemma Safe.of_step (h : Safe (step env s t)) : Safe s := by
  have hle := invoked_le_step env s t
  -- a call of `defineClass` shows in the count
  have hcall (ht : s.pc t = .define) : (step env s t).shared.invoked = s.shared.invoked + 1 := by
    simp [step, ht, next]
  have hstays {u : τ} (hu : s.pc u = .define) (hut : u ≠ t) : (step env s t).pc u = .define := by
    rwa [pc_step_of_ne env s hut]
  have hinv := h.invoked
  refine ⟨hle.trans hinv, fun u hu => ?_, fun u v hu hv => ?_⟩
  · by_cases hut : u = t
    · have := hcall (hut ▸ hu)
      omega
    · have := h.pending u (hstays hu hut)
      omega
  · by_contra huv
    by_cases hut : u = t
    · have hzero := h.pending v (hstays hv fun e => huv (hut.trans e.symm))
      have := hcall (hut ▸ hu)
      omega
    · by_cases hvt : v = t
      · have hzero := h.pending u (hstays hu hut)
        have := hcall (hvt ▸ hv)
        omega
      · exact huv (h.unique u v (hstays hu hut) (hstays hv hvt))

lemma Safe.of_run {init : State τ κ} {acts pre : List τ}
    (h : Safe (run (step env) init acts)) (hpre : pre <+: acts) :
    Safe (run (step env) init pre) := by
  obtain ⟨rest, rfl⟩ := hpre
  induction rest using List.reverseRecOn with
  | nil => rwa [List.append_nil] at h
  | append_singleton rest t ih =>
    rw [← List.append_assoc, run_concat] at h
    exact ih h.of_step

/-- **A class is defined at most once, and all calls agree on it**, if every thread that finds
nothing in the map when it looks again is the first to get so far; and only then, when every thread
that comes to `defineClass` calls it. -/
theorem once_of_first_and_first_of_once (env : Env κ) (classes : Option κ) (acts : List τ) :
    ((∀ pre t, pre ++ [t] <+: acts → First (run (step env) (initial classes) pre) t) →
      ∀ pre, pre <+: acts → Once (run (step env) (initial classes) pre)) ∧
    ((∀ t, (run (step env) (initial classes) acts).pc t ≠ .define) →
      (∀ pre, pre <+: acts → Once (run (step env) (initial classes) pre)) →
        ∀ pre t, pre ++ [t] <+: acts → First (run (step env) (initial classes) pre) t) := by
  have hiff : (∀ pre, pre <+: acts → Safe (run (step env) (initial classes) pre)) ↔
      ∀ pre t, pre ++ [t] <+: acts → First (run (step env) (initial classes) pre) t :=
    always_iff_guarded (safe_initial classes) (fun s t hs => safe_step_iff hs t) acts
  constructor
  · intro h pre hpre
    have hsafe := hiff.mpr h
    exact once_of_safe (hsafe pre hpre) (agreed_run hsafe hpre)
  · intro hend honce
    have hlast : Safe (run (step env) (initial classes) acts) :=
      ⟨(honce acts List.prefix_rfl).invoked, fun t ht => absurd ht (hend t),
        fun t u ht => absurd ht (hend t)⟩
    exact hiff.mp fun pre hpre => hlast.of_run hpre

end Definitions

/-- Two threads look again before either has called `defineClass`. -/
theorem defined_twice :
    ¬Once (run (step oneClass) (initial none)
      (List.replicate 6 false ++ List.replicate 6 true ++ [false, true])) :=
  fun h => absurd h.invoked (by decide)

end Zinzhi.ClassLoading
