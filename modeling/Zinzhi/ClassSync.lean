import Zinzhi.ClassLoading
import Zinzhi.Delegation
import Zinzhi.JarResources

/-!
The loaded classes of a `JarClassLoader` and the entries of its repository.

A class is kept under the name it was asked for, its bytes under the path that `formatClassName`
makes of the name. Several names have one path.
-/

namespace Zinzhi.ClassSync

open Zinzhi.Loops Zinzhi.Runs Zinzhi.JarResources
open Zinzhi.ClassLoading (Answer)
open Zinzhi.Delegation (isBlank)

/-! ### Names and paths -/

/-- `String.replace(char, char)` -/
def replace (oldChar newChar : Char) (s : String) : String :=
  String.ofList (s.toList.map fun c => if c = oldChar then newChar else c)

def formatClassName (classNameReplacementChar : Char) (className : String) : String :=
  let className := replace '/' '~' className
  let className :=
    if classNameReplacementChar = '\x00' then replace '.' '/' className ++ ".class"
    else replace '.' classNameReplacementChar className ++ ".class"
  replace '~' '/' className

/-- The characters of a path come one by one from those of the name. -/
def pathChar (classNameReplacementChar c : Char) : Char :=
  if c = '/' ∨ c = '~' then '/'
  else if c = '.' then
    if classNameReplacementChar = '\x00' ∨ classNameReplacementChar = '~' then '/'
    else classNameReplacementChar
  else c

/-- What is done to the characters is known from the three that are replaced and all others. -/
lemma char_ext {f g : Char → Char} (hslash : f '/' = g '/') (htilde : f '~' = g '~')
    (hdot : f '.' = g '.') (hother : ∀ c, c ≠ '/' → c ≠ '~' → c ≠ '.' → f c = g c) : f = g := by
  funext c
  by_cases h : c = '/' ∨ c = '~' ∨ c = '.'
  · rcases h with rfl | rfl | rfl
    · exact hslash
    · exact htilde
    · exact hdot
  · simp only [not_or] at h
    exact hother c h.1 h.2.1 h.2.2

lemma toList_replace (oldChar newChar : Char) (s : String) :
    (replace oldChar newChar s).toList =
      s.toList.map fun c => if c = oldChar then newChar else c := by
  simp [replace]

lemma toList_formatClassName (r : Char) (className : String) :
    (formatClassName r className).toList =
      className.toList.map (pathChar r) ++ ".class".toList := by
  have hclass : ".class".toList.map (fun c => if c = '~' then '/' else c) = ".class".toList := by
    simp
  have hchars (slash : Char) (hslash : pathChar r =
      (fun c => if c = '~' then '/' else c) ∘ (fun c => if c = '.' then slash else c) ∘
        fun c => if c = '/' then '~' else c) :
      (replace '~' '/' (replace '.' slash (replace '/' '~' className) ++ ".class")).toList =
        className.toList.map (pathChar r) ++ ".class".toList := by
    rw [toList_replace, String.toList_append, List.map_append, hclass, toList_replace,
      toList_replace, List.map_map, List.map_map, hslash]
    rfl
  unfold formatClassName
  split
  · rename_i hr
    refine hchars '/' (char_ext rfl rfl (by simp [pathChar, hr]) ?_)
    intro c hslash htilde hdot
    simp [pathChar, hslash, htilde, hdot]
  · rename_i hr
    refine hchars r (char_ext rfl rfl (by simp [pathChar, hr]) ?_)
    intro c hslash htilde hdot
    simp [pathChar, hslash, htilde, hdot]

/-- Two names have one path exactly if their characters do. -/
lemma formatClassName_eq_iff (r : Char) (n n' : String) :
    formatClassName r n = formatClassName r n' ↔
      n.toList.map (pathChar r) = n'.toList.map (pathChar r) := by
  rw [← String.toList_inj, toList_formatClassName, toList_formatClassName,
    List.append_left_inj]

/-! ### The virtual machine -/

/-- What is assumed of the virtual machine: `defineClass` succeeds only for names of dot-separated
identifiers, whose characters are neither slashes nor tildes. The calls are told apart by their
number. -/
structure Jvm (κ : Type) where
  isIdentifierStart : Char → Bool
  isIdentifierPart : Char → Bool
  defineClass : ℕ → String → List UInt8 → Answer κ
  part_of_start : ∀ c, isIdentifierStart c = true → isIdentifierPart c = true
  slash_not_part : isIdentifierPart '/' = false
  tilde_not_part : isIdentifierPart '~' = false
  defines : ∀ k name bytes c, defineClass k name bytes = .cls c →
    ∀ part ∈ name.toList.splitOn '.', ∃ start rest, part = start :: rest ∧
      isIdentifierStart start = true ∧ ∀ c ∈ rest, isIdentifierPart c = true

/-! ### The loader -/

structure Loader (κ : Type) where
  classes : String → Option κ
  classpathResources : Repository
  /-- the calls of `defineClass` so far -/
  invoked : ℕ

def Loader.new {κ : Type} : Loader κ := ⟨fun _ => none, Repository.empty, 0⟩

inductive Exn
  | jclRuntime (message : String)
  | resource (e : JarResources.Exn)
  | classNotFound (className : String)
  /-- what is thrown from `defineClass`, or from what follows it up to the entry of the class -/
  | linkage (className : String)

variable {κ : Type} (jvm : Jvm κ) (r : Char)

def add (jar : Jar) (s : Loader κ) : Outcome Exn (Loader κ) :=
  match loadJar true jar s.classpathResources with
  | (.ok (), rep) => (.ok (), { s with classpathResources := rep })
  | (.error e, rep) => (.error (.resource e), { s with classpathResources := rep })

def loadClassBytes (className : String) (s : Loader κ) : Option (List UInt8) :=
  getResource s.classpathResources (formatClassName r className)

def localLoadClass (className : String) (s : Loader κ) : Except Exn (Option κ) × Loader κ :=
  match s.classes className with
  | some c => (.ok (some c), s)
  | none =>
    match loadClassBytes r className s with
    | none => (.ok none, s)
    | some classBytes =>
      let s' := { s with invoked := s.invoked + 1 }
      match jvm.defineClass s.invoked className classBytes with
      | .cls c =>
        (.ok (some c), { s' with classes := Function.update s.classes className (some c) })
      | .null => (.ok none, s')
      | .error => (.error (.linkage className), s')

/-- What the loaders asked after the local one make of its answer. -/
def askAfter (className : String) (after : Option κ) :
    Except Exn (Option κ) → Except Exn (Option κ)
  | .error e => .error e
  | .ok (some c) => .ok (some c)
  | .ok none =>
    match after with
    | some c => .ok (some c)
    | none => .error (.classNotFound className)

/-- `AbstractClassLoader.loadClass`, where the loaders asked before the local one answer `before`
and those asked after it `after`. -/
def loadClass (className : String) (before after : Option κ) (s : Loader κ) :
    Except Exn (Option κ) × Loader κ :=
  if isBlank className then (.ok none, s)
  else if before.isSome then (.ok before, s)
  else
    let result := localLoadClass jvm r className s
    (askAfter className after result.1, result.2)

/-- `classpathResources.unload`, with an exception of its own for a missing entry -/
def unloadOr (message resource : String) (s : Loader κ) : Outcome Exn (Loader κ) :=
  match unload resource s.classpathResources with
  | (.ok (), rep) => (.ok (), { s with classpathResources := rep })
  | (.error _, rep) => (.error (.jclRuntime message), { s with classpathResources := rep })

def outOfSync : String :=
  "Something is very wrong!!!The locally loaded classes must be in sync with ClasspathResources"

def notLocal : String :=
  "Class could not be unloaded [Possible reason: Class belongs to the system]"

def unloadClass (className : String) (s : Loader κ) : Outcome Exn (Loader κ) :=
  if (s.classes className).isSome then
    unloadOr outOfSync (formatClassName r className)
      { s with classes := Function.update s.classes className none }
  else unloadOr notLocal (formatClassName r className) s

inductive Cmd (κ : Type)
  | add (jar : Jar)
  | loadClass (className : String) (before after : Option κ)
  | unloadClass (className : String)

def perform (s : Loader κ) : Cmd κ → Outcome Exn (Loader κ)
  | .add jar => add jar s
  | .loadClass className before after =>
    let result := loadClass jvm r className before after s
    (result.1.map fun _ => (), result.2)
  | .unloadClass className => unloadClass r className s

/-- A caller that goes on after an exception. -/
def step (s : Loader κ) (cmd : Cmd κ) : Loader κ := (perform jvm r s cmd).2

/-! ### In sync -/

def InSync (s : Loader κ) : Prop :=
  ∀ className, (s.classes className).isSome →
    (s.classpathResources.jarEntryContents (formatClassName r className)).isSome

/-- No other loaded class has the path of the class to be unloaded. -/
def Unaliased (s : Loader κ) : Cmd κ → Prop
  | .unloadClass className => ∀ n, n ≠ className → (s.classes n).isSome →
      formatClassName r n ≠ formatClassName r className
  | _ => True

variable {jvm r}

/-! ### What the calls do to the two maps -/

/-- The repository stays, and a class is entered only under a name that has bytes and that the
virtual machine takes. -/
structure Loads (jvm : Jvm κ) (r : Char) (className : String) (s s' : Loader κ) : Prop where
  kept : s'.classpathResources = s.classpathResources
  entered : s'.classes = s.classes ∨ ∃ c k bytes, loadClassBytes r className s = some bytes ∧
    jvm.defineClass k className bytes = .cls c ∧
    s'.classes = Function.update s.classes className (some c)

lemma localLoadClass_loads (className : String) (s : Loader κ) :
    Loads jvm r className s (localLoadClass jvm r className s).2 := by
  rw [localLoadClass]
  split
  · exact ⟨rfl, .inl rfl⟩
  · split
    · exact ⟨rfl, .inl rfl⟩
    · rename_i bytes hbytes
      dsimp only
      split
      · rename_i c hdefine
        exact ⟨rfl, .inr ⟨c, s.invoked, bytes, hbytes, hdefine, rfl⟩⟩
      · exact ⟨rfl, .inl rfl⟩
      · exact ⟨rfl, .inl rfl⟩

lemma loadClass_loads (className : String) (before after : Option κ) (s : Loader κ) :
    Loads jvm r className s (loadClass jvm r className before after s).2 := by
  rw [loadClass]
  split
  · exact ⟨rfl, .inl rfl⟩
  · split
    · exact ⟨rfl, .inl rfl⟩
    · exact localLoadClass_loads className s

lemma unloadOr_eq (message resource : String) (s : Loader κ) :
    (unloadOr message resource s).2.classes = s.classes ∧
      (unloadOr message resource s).2.classpathResources.jarEntryContents =
        Function.update s.classpathResources.jarEntryContents resource none := by
  cases h : s.classpathResources.jarEntryContents resource with
  | none => simp [unloadOr, unload, h]
  | some c => simp [unloadOr, unload, h]

/-- Whether the class was loaded or not, its entry is gone from both maps. -/
lemma unloadClass_eq (className : String) (s : Loader κ) :
    (unloadClass r className s).2.classes = Function.update s.classes className none ∧
      (unloadClass r className s).2.classpathResources.jarEntryContents =
        Function.update s.classpathResources.jarEntryContents
          (formatClassName r className) none := by
  rw [unloadClass]
  split
  · exact unloadOr_eq ..
  · rename_i h
    have hnone : s.classes className = none := by simpa using h
    have hsame : Function.update s.classes className none = s.classes :=
      Function.update_eq_self_iff.mpr hnone.symm
    rw [hsame]
    exact unloadOr_eq ..

lemma add_keeps (jar : Jar) (s : Loader κ) :
    ∃ s', add jar s = (.ok (), s') ∧ s'.classes = s.classes ∧
      ∀ name, (s.classpathResources.jarEntryContents name).isSome →
        (s'.classpathResources.jarEntryContents name).isSome := by
  obtain ⟨rep, h, hrep⟩ := loadJar_keeps jar s.classpathResources
  refine ⟨{ s with classpathResources := rep }, ?_, rfl, hrep⟩
  rw [add, h]

/-! ### Exactly when the maps stay in sync -/

lemma unloadClass_inSync_iff {s : Loader κ} (hs : InSync r s) (className : String) :
    InSync r (unloadClass r className s).2 ↔ Unaliased r s (.unloadClass className) := by
  obtain ⟨hclasses, hcontents⟩ := unloadClass_eq (r := r) className s
  unfold InSync
  rw [hclasses, hcontents]
  refine forall_congr' fun n => ?_
  by_cases hn : n = className
  · subst hn
    simp
  · by_cases hpath : formatClassName r n = formatClassName r className
    · simp [hn, hpath]
    · simpa [hn, hpath] using hs n

/-- **One call.** Loading and adding keep the maps in sync; unloading does so for a class that
shares its path with no other loaded class. -/
lemma step_inSync_iff {s : Loader κ} (hs : InSync r s) (cmd : Cmd κ) :
    InSync r (step jvm r s cmd) ↔ Unaliased r s cmd := by
  cases cmd with
  | add jar =>
    obtain ⟨s', hadd, hclasses, hkeeps⟩ := add_keeps jar s
    refine iff_of_true (fun n hn => ?_) trivial
    have hstep : step jvm r s (.add jar) = s' := congrArg Prod.snd hadd
    rw [hstep] at hn ⊢
    rw [hclasses] at hn
    exact hkeeps _ (hs n hn)
  | loadClass className before after =>
    have hloads : Loads jvm r className s _ := loadClass_loads className before after s
    refine iff_of_true (fun n hn => ?_) trivial
    change ((loadClass jvm r className before after s).2.classes n).isSome at hn
    change ((loadClass jvm r className before after s).2.classpathResources.jarEntryContents
      _).isSome
    rw [hloads.kept]
    rcases hloads.entered with h | ⟨c, k, bytes, hbytes, -, h⟩
    · -- nothing is entered
      rw [h] at hn
      exact hs n hn
    · -- the class is entered under its own name
      by_cases hname : n = className
      · subst hname
        obtain ⟨content, hcontent, -⟩ := Option.map_eq_some_iff.mp hbytes
        rw [hcontent]
        rfl
      · rw [h, Function.update_of_ne hname] at hn
        exact hs n hn
  | unloadClass className => exact unloadClass_inSync_iff hs className

lemma unloadOr_ok {s : Loader κ} {resource : String}
    (h : (s.classpathResources.jarEntryContents resource).isSome) (message : String) :
    (unloadOr message resource s).1 = .ok () := by
  simp [unloadOr, unload, h]

lemma unloadOr_error {s : Loader κ} {message resource : String} {e : Exn}
    (h : (unloadOr message resource s).1 = .error e) : e = .jclRuntime message := by
  rw [unloadOr] at h
  split at h
  · cases h
  · exact (Except.error.inj h).symm

lemma localLoadClass_ne_jclRuntime {className message : String} {s : Loader κ} :
    (localLoadClass jvm r className s).1 ≠ .error (.jclRuntime message) := by
  rw [localLoadClass]
  split
  · simp
  · split
    · simp
    · dsimp only
      split <;> simp

lemma loadClass_ne_jclRuntime {className message : String} {before after : Option κ}
    {s : Loader κ} :
    (loadClass jvm r className before after s).1 ≠ .error (.jclRuntime message) := by
  rw [loadClass]
  split
  · simp
  · split
    · simp
    · intro h
      dsimp only at h
      cases hlocal : (localLoadClass jvm r className s).1 with
      | error e =>
        rw [hlocal] at h
        exact localLoadClass_ne_jclRuntime (hlocal.trans h)
      | ok result =>
        rw [hlocal] at h
        cases result <;> cases after <;> simp [askAfter] at h

/-- While the maps are in sync, no call finds them otherwise. -/
lemma perform_ne_outOfSync {s : Loader κ} (hs : InSync r s) (cmd : Cmd κ) :
    (perform jvm r s cmd).1 ≠ .error (.jclRuntime outOfSync) := by
  intro h
  cases cmd with
  | add jar =>
    obtain ⟨s', hadd, -⟩ := add_keeps jar s
    have hok : (perform jvm r s (.add jar)).1 = .ok () := congrArg Prod.fst hadd
    cases hok.symm.trans h
  | loadClass className before after =>
    cases hload : (loadClass jvm r className before after s).1 with
    | error e =>
      have herror : (perform jvm r s (.loadClass className before after)).1 = .error e :=
        congrArg (Except.map fun _ => ()) hload
      cases herror.symm.trans h
      exact loadClass_ne_jclRuntime hload
    | ok result =>
      have hok : (perform jvm r s (.loadClass className before after)).1 = .ok () :=
        congrArg (Except.map fun _ => ()) hload
      cases hok.symm.trans h
  | unloadClass className =>
    change (unloadClass r className s).1 = _ at h
    rw [unloadClass] at h
    split at h
    · -- the class was loaded, so its bytes are there
      rename_i hloaded
      rw [unloadOr_ok (by exact hs className hloaded)] at h
      cases h
    · -- it was not, and the message is another one
      have hmessage := unloadOr_error h
      simp [outOfSync, notLocal] at hmessage

lemma inSync_new (r : Char) : InSync r (Loader.new : Loader κ) := by
  intro n hn
  cases hn

/-- **The maps are in sync in every state of a run** exactly if each class that is unloaded shares
its path with no other loaded class. Then no call of the run finds them out of sync. -/
theorem inSync_iff_unaliased (jvm : Jvm κ) (r : Char) (cmds : List (Cmd κ)) :
    ((∀ pre, pre <+: cmds → InSync r (run (step jvm r) Loader.new pre)) ↔
      ∀ pre cmd, pre ++ [cmd] <+: cmds → Unaliased r (run (step jvm r) Loader.new pre) cmd) ∧
    ((∀ pre, pre <+: cmds → InSync r (run (step jvm r) Loader.new pre)) →
      ∀ pre cmd, pre ++ [cmd] <+: cmds →
        (perform jvm r (run (step jvm r) Loader.new pre) cmd).1 ≠
          .error (.jclRuntime outOfSync)) := by
  constructor
  · exact always_iff_guarded (P := InSync r) (inSync_new r)
      (fun s cmd hs => step_inSync_iff hs cmd) cmds
  · intro h pre cmd hpre
    exact perform_ne_outOfSync (h pre ((List.prefix_append pre [cmd]).trans hpre)) cmd

def oneClassJvm : Jvm Unit where
  isIdentifierStart := Char.isAlpha
  isIdentifierPart := Char.isAlphanum
  defineClass _ name _ := if name = "a.B" then .cls () else .error
  part_of_start c h := by simp [Char.isAlphanum, h]
  slash_not_part := by decide
  tilde_not_part := by decide
  defines k name bytes c h := by
    have hname : name = "a.B" := by
      by_contra hne
      simp [hne] at h
    subst hname
    intro part hpart
    have hparts : "a.B".toList.splitOn '.' = [['a'], ['B']] := by
      simp [List.splitOn_cons_eq_if_modifyHead]
    rw [hparts] at hpart
    rcases List.mem_pair.mp hpart with rfl | rfl
    · exact ⟨'a', [], rfl, by decide, by simp⟩
    · exact ⟨'B', [], rfl, by decide, by simp⟩

def oneClassJar : Jar := ⟨"file:b.jar", [⟨"a/B.class", false, [202, 254]⟩]⟩

def oneClassLoaded : Loader Unit :=
  run (step oneClassJvm '\x00') Loader.new [.add oneClassJar, .loadClass "a.B" none none]

lemma classes_oneClassLoaded :
    oneClassLoaded.classes = Function.update (fun _ => none) "a.B" (some ()) := by
  have hpath : formatClassName '\x00' "a.B" = "a/B.class" := by decide
  simp [oneClassLoaded, run, step, perform, add, loadJar, loadEntries, loadEntry, oneClassJar,
    addLocation, Loader.new, Repository.empty, loadClass, isBlank, localLoadClass, loadClassBytes,
    getResource, hpath, oneClassJvm]

theorem inSync_by_name :
    InSync '\x00' (run (step oneClassJvm '\x00') Loader.new
      [.add oneClassJar, .loadClass "a.B" none none, .unloadClass "a.B"]) := by
  refine (inSync_iff_unaliased oneClassJvm '\x00' _).1.mpr ?_ _ List.prefix_rfl
  simp only [guarded_cons_iff]
  refine ⟨trivial, trivial, fun n hn hsome => ?_, guarded_nil⟩
  change (oneClassLoaded.classes n).isSome at hsome
  rw [classes_oneClassLoaded, Function.update_of_ne hn] at hsome
  cases hsome

/-- The class is loaded, and then unloaded as `a/B`: it stays in the map, but its bytes are gone,
and unloading it once more tells that something is very wrong. -/
theorem not_inSync_by_path :
    ¬InSync '\x00' (run (step oneClassJvm '\x00') Loader.new
        [.add oneClassJar, .loadClass "a.B" none none, .unloadClass "a/B"]) ∧
      (perform oneClassJvm '\x00' (run (step oneClassJvm '\x00') Loader.new
        [.add oneClassJar, .loadClass "a.B" none none, .unloadClass "a/B"])
          (.unloadClass "a.B")).1 = .error (.jclRuntime outOfSync) := by
  obtain ⟨hclasses, hcontents⟩ := unloadClass_eq (r := '\x00') "a/B" oneClassLoaded
  have hpath : formatClassName '\x00' "a/B" = formatClassName '\x00' "a.B" := by
    rw [formatClassName_eq_iff]
    simp [pathChar]
  have hloaded : ((unloadClass '\x00' "a/B" oneClassLoaded).2.classes "a.B").isSome := by
    rw [hclasses, classes_oneClassLoaded]
    rfl
  have hgone : (unloadClass '\x00' "a/B" oneClassLoaded).2.classpathResources.jarEntryContents
      (formatClassName '\x00' "a.B") = none := by
    rw [hcontents, hpath, Function.update_self]
  constructor
  · intro h
    have hbytes := h "a.B" hloaded
    cases hbytes.symm.trans (congrArg Option.isSome hgone)
  · change (unloadClass '\x00' "a.B" (unloadClass '\x00' "a/B" oneClassLoaded).2).1 = _
    rw [unloadClass, if_pos hloaded, unloadOr, unload, hgone]
    rfl

/-! ### The other spellings of a loaded class -/

lemma mem_of_mem_intercalate {x d : Char} {parts : List (List Char)}
    (h : d ∈ [x].intercalate parts) (hx : d ≠ x) : ∃ part ∈ parts, d ∈ part := by
  induction parts with
  | nil => simp at h
  | cons part parts ih =>
    cases parts with
    | nil => exact ⟨part, List.mem_cons_self, by simpa using h⟩
    | cons part' parts =>
      rw [List.intercalate_cons_cons] at h
      simp only [List.mem_append, List.mem_singleton, hx, or_false] at h
      rcases h with h | h
      · exact ⟨part, List.mem_cons_self, h⟩
      · obtain ⟨q, hq, hd⟩ := ih h
        exact ⟨q, List.mem_cons_of_mem part hq, hd⟩

def Dotted (name : String) : Prop := ∀ d ∈ name.toList, d ≠ '/' ∧ d ≠ '~'

lemma Jvm.dotted {name : String} {k : ℕ} {bytes : List UInt8} {c : κ}
    (h : jvm.defineClass k name bytes = .cls c) : Dotted name := by
  have hpart : ∀ d ∈ name.toList, d ≠ '.' → jvm.isIdentifierPart d = true := by
    intro d hd hdot
    have hsplit : ['.'].intercalate (name.toList.splitOn '.') = name.toList :=
      List.intercalate_splitOn '.'
    rw [← hsplit] at hd
    obtain ⟨part, hpart, hd⟩ := mem_of_mem_intercalate hd hdot
    obtain ⟨start, rest, rfl, hstart, hrest⟩ := jvm.defines k name bytes c h part hpart
    rcases List.mem_cons.mp hd with rfl | hd
    · exact jvm.part_of_start d hstart
    · exact hrest d hd
  intro d hd
  constructor
  · rintro rfl
    cases jvm.slash_not_part.symm.trans (hpart _ hd (by decide))
  · rintro rfl
    cases jvm.tilde_not_part.symm.trans (hpart _ hd (by decide))

/-- The classes that are loaded in a run have dotted names. -/
lemma dotted_run (cmds : List (Cmd κ)) {n : String}
    (hn : ((run (step jvm r) Loader.new cmds).classes n).isSome) : Dotted n := by
  induction cmds using List.reverseRecOn generalizing n with
  | nil => cases hn
  | append_singleton cmds cmd ih =>
    rw [run_concat] at hn
    cases cmd with
    | add jar =>
      obtain ⟨s', hadd, hclasses, -⟩ := add_keeps jar (run (step jvm r) Loader.new cmds)
      have hstep : step jvm r (run (step jvm r) Loader.new cmds) (.add jar) = s' :=
        congrArg Prod.snd hadd
      rw [hstep, hclasses] at hn
      exact ih hn
    | loadClass className before after =>
      have hloads : Loads jvm r className (run (step jvm r) Loader.new cmds) _ :=
        loadClass_loads className before after _
      rcases hloads.entered with h | ⟨c, k, bytes, -, hdefine, h⟩
      · exact ih (by rwa [step, perform, h] at hn)
      · rw [step, perform, h] at hn
        by_cases hname : n = className
        · exact hname ▸ Jvm.dotted hdefine
        · rw [Function.update_of_ne hname] at hn
          exact ih hn
    | unloadClass className =>
      rw [step, perform, (unloadClass_eq className _).1] at hn
      by_cases hname : n = className
      · simp [hname] at hn
      · rw [Function.update_of_ne hname] at hn
        exact ih hn

def dottedName (name : String) : String := replace '/' '.' (replace '~' '.' name)

lemma dot_comp_pathChar :
    (fun c => if c = '/' then '.' else c) ∘ pathChar '\x00' =
      fun c => if c = '/' ∨ c = '~' then '.' else c := by
  refine char_ext ?_ ?_ ?_ fun c hslash htilde hdot => ?_
  all_goals simp [pathChar, *]

lemma pathChar_comp_dot :
    (pathChar '\x00' ∘ fun c => if c = '/' ∨ c = '~' then '.' else c) = pathChar '\x00' := by
  refine char_ext ?_ ?_ ?_ fun c hslash htilde hdot => ?_
  all_goals simp [pathChar, *]

/-- Without a replacement character, a dotted name shares its path with just those names that are
other spellings of it. -/
lemma formatClassName_eq_iff_dottedName {n : String} (hn : Dotted n) (name : String) :
    formatClassName '\x00' n = formatClassName '\x00' name ↔ n = dottedName name := by
  have hdots : (dottedName name).toList = name.toList.map fun c =>
      if c = '/' ∨ c = '~' then '.' else c := by
    rw [dottedName, toList_replace, toList_replace, List.map_map]
    congr 1
    refine char_ext rfl rfl rfl fun c hslash htilde _ => ?_
    simp [hslash, htilde]
  rw [formatClassName_eq_iff, ← String.toList_inj, hdots]
  constructor
  · intro h
    -- the slashes of the path are the dots of the name
    have hback := congrArg (List.map fun c => if c = '/' then '.' else c) h
    rw [List.map_map, List.map_map] at hback
    calc n.toList = n.toList.map ((fun c => if c = '/' then '.' else c) ∘ pathChar '\x00') := by
          refine (List.map_id n.toList).symm.trans (List.map_congr_left fun c hc => ?_)
          obtain ⟨hslash, htilde⟩ := hn c hc
          by_cases hdot : c = '.'
          · simp [pathChar, hdot]
          · simp [pathChar, hslash, htilde, hdot]
      _ = name.toList.map ((fun c => if c = '/' then '.' else c) ∘ pathChar '\x00') := hback
      _ = name.toList.map fun c => if c = '/' ∨ c = '~' then '.' else c := by rw [dot_comp_pathChar]
  · intro h
    rw [h, List.map_map, pathChar_comp_dot]

/-- Without a replacement character, a class must not be unloaded by a spelling of its name that
has slashes or tildes. -/
theorem unaliased_iff_dottedName (cmds : List (Cmd κ)) (className : String) :
    Unaliased '\x00' (run (step jvm '\x00') Loader.new cmds) (.unloadClass className) ↔
      dottedName className = className ∨
        (run (step jvm '\x00') Loader.new cmds).classes (dottedName className) = none := by
  constructor
  · intro h
    by_contra hcon
    obtain ⟨hne, hloaded⟩ := not_or.mp hcon
    have hsome := Option.isSome_iff_ne_none.mpr hloaded
    exact h _ hne hsome ((formatClassName_eq_iff_dottedName (dotted_run cmds hsome) _).mpr rfl)
  · intro h n hne hsome hpath
    have hn := (formatClassName_eq_iff_dottedName (dotted_run cmds hsome) _).mp hpath
    rcases h with h | h
    · exact hne (hn.trans h)
    · simp [hn, h] at hsome

end Zinzhi.ClassSync
