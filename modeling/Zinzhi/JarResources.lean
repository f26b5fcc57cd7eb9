import Zinzhi.Loops
import Zinzhi.Runs
import Mathlib.Logic.Function.Basic

/-!
The repository of a `JarClassLoader`: three maps that `loadJar` fills and `unload` empties.

The bytes of an entry carry the jar they were read from; the code does not keep it, but it is what
the locations are to tell. `new URL` is a parameter, which says whether a text is a well-formed URL.
-/

namespace Zinzhi.JarResources

open Zinzhi.Loops Zinzhi.Runs

structure Content where
  bytes : List UInt8
  origin : String

structure Repository where
  jarEntryContents : String → Option Content
  jarEntryLocations : String → Option (List String)
  jars : String → Option String

def Repository.empty : Repository := ⟨fun _ => none, fun _ => none, fun _ => none⟩

structure JarEntry where
  name : String
  isDirectory : Bool
  bytes : List UInt8

structure Jar where
  url : String
  entries : List JarEntry

inductive Exn
  | jclRuntime (message : String)
  | resourceNotFound (resource message : String)

/-! ### Lookups -/

def jarUrl (url name : String) : String := "jar:" ++ url ++ "!/" ++ name

def getResource (s : Repository) (name : String) : Option (List UInt8) :=
  (s.jarEntryContents name).map Content.bytes

section Lookups

variable (formed : String → Bool) (s : Repository) (name : String)

def getURLResource : Option String :=
  (s.jars name).bind fun url =>
    if formed (jarUrl url name) then some (jarUrl url name) else none

def getURLResources : Option (List String) :=
  (s.jarEntryLocations name).map fun jurls => (jurls.map (jarUrl · name)).filter formed

end Lookups

/-! ### Changes -/

/-- `jurls.add(url)`, with a new list if there is none -/
def addLocation (s : Repository) (name url : String) : Repository :=
  { s with
    jarEntryLocations := Function.update s.jarEntryLocations name
      (some ((s.jarEntryLocations name).getD [] ++ [url])) }

/-- One round of the loop in `loadJar` -/
def loadEntry (collisionAllowed : Bool) (url : String) (e : JarEntry) (s : Repository) :
    Outcome Exn Repository :=
  if e.isDirectory then (.ok (), s)
  else
    let s := addLocation s e.name url
    if (s.jarEntryContents e.name).isSome then
      if collisionAllowed then (.ok (), s)
      else (.error (.jclRuntime ("Class/Resource " ++ e.name ++ " already loaded")), s)
    else
      (.ok (), { s with
        jarEntryContents := Function.update s.jarEntryContents e.name (some ⟨e.bytes, url⟩)
        jars := Function.update s.jars e.name (some url) })

def loadEntries (collisionAllowed : Bool) (url : String) :
    List JarEntry → Repository → Outcome Exn Repository
  | [], s => (.ok (), s)
  | e :: es, s => andThen (loadEntry collisionAllowed url e s) (loadEntries collisionAllowed url es)

def loadJar (collisionAllowed : Bool) (jar : Jar) : Repository → Outcome Exn Repository :=
  loadEntries collisionAllowed jar.url jar.entries

def unload (resource : String) (s : Repository) : Outcome Exn Repository :=
  if (s.jarEntryContents resource).isSome then
    (.ok (), { s with jarEntryContents := Function.update s.jarEntryContents resource none })
  else
    (.error (.resourceNotFound resource "Resource not found in local ClasspathResources"), s)

inductive Cmd
  | loadJar (jar : Jar)
  | unload (name : String)

/-- A caller that goes on after an exception, with collisions allowed. -/
def step (s : Repository) : Cmd → Repository
  | .loadJar jar => (loadJar true jar s).2
  | .unload name => (unload name s).2

/-! ### Agreement -/

/-- All three lookups find the name or none does, and both locations tell the jar of the bytes. -/
structure Agrees (formed : String → Bool) (s : Repository) (name : String) : Prop where
  url : (getResource s name).isSome ↔ (getURLResource formed s name).isSome
  urls : (getURLResource formed s name).isSome ↔ (getURLResources formed s name).getD [] ≠ []
  origin : ∀ c, s.jarEntryContents name = some c →
    getURLResource formed s name = some (jarUrl c.origin name) ∧
      ((getURLResources formed s name).getD []).head? = some (jarUrl c.origin name)

/-- The call removes no entry. -/
def RemovesNothing (s : Repository) : Cmd → Prop
  | .loadJar _ => True
  | .unload name => s.jarEntryContents name = none

/-- The maps themselves: no location without bytes, and the jar of the bytes first. -/
def Linked (s : Repository) (name : String) : Prop :=
  match s.jarEntryContents name with
  | none => s.jars name = none ∧ (s.jarEntryLocations name).getD [] = []
  | some c => s.jars name = some c.origin ∧
      ((s.jarEntryLocations name).getD []).head? = some c.origin

lemma jarUrl_inj {url url' name : String} : jarUrl url name = jarUrl url' name ↔ url = url' := by
  refine ⟨fun h => ?_, fun h => h ▸ rfl⟩
  have hlist := congrArg String.toList h
  simp only [jarUrl, String.toList_append] at hlist
  exact String.ext (List.append_cancel_left
    (List.append_cancel_right (List.append_cancel_right hlist)))

section Agreement

variable {formed : String → Bool} (hformed : ∀ url name, formed (jarUrl url name) = true)

include hformed

lemma getURLResource_eq (s : Repository) (name : String) :
    getURLResource formed s name = (s.jars name).map (jarUrl · name) := by
  cases h : s.jars name <;> simp [getURLResource, h, hformed]

lemma getURLResources_eq (s : Repository) (name : String) :
    (getURLResources formed s name).getD [] =
      ((s.jarEntryLocations name).getD []).map (jarUrl · name) := by
  have hall (jurls : List String) : (jurls.map (jarUrl · name)).filter formed =
      jurls.map (jarUrl · name) := by
    simp [List.filter_eq_self, hformed]
  cases h : s.jarEntryLocations name <;> simp [getURLResources, h, hall]

lemma agrees_iff (s : Repository) (name : String) : Agrees formed s name ↔ Linked s name := by
  have hurl := getURLResource_eq hformed s name
  have hurls := getURLResources_eq hformed s name
  unfold Linked
  cases hc : s.jarEntryContents name with
  | none =>
    have hres : getResource s name = none := by rw [getResource, hc]; rfl
    constructor
    · rintro ⟨h, h', -⟩
      have hjars : s.jars name = none := by simpa [hres, hurl] using h
      refine ⟨hjars, ?_⟩
      simpa [hurl, hurls, hjars] using h'
    · rintro ⟨hjars, hlocs⟩
      refine ⟨by simp [hres, hurl, hjars], by simp [hurl, hurls, hjars, hlocs], fun c h => ?_⟩
      exact nomatch hc.symm.trans h
  | some c =>
    have hres : (getResource s name).isSome := by simp [getResource, hc]
    constructor
    · rintro ⟨-, -, h⟩
      obtain ⟨hjar, hhead⟩ := h c hc
      rw [hurl] at hjar
      rw [hurls] at hhead
      obtain ⟨url, hjars, heq⟩ := Option.map_eq_some_iff.mp hjar
      rw [List.head?_map] at hhead
      obtain ⟨first, hfirst, heq'⟩ := Option.map_eq_some_iff.mp hhead
      rw [hjars, hfirst, jarUrl_inj.mp heq, jarUrl_inj.mp heq']
      exact ⟨rfl, rfl⟩
    · rintro ⟨hjars, hhead⟩
      have hne : (s.jarEntryLocations name).getD [] ≠ [] := by
        intro h
        simp [h] at hhead
      refine ⟨by simp [hres, hurl, hjars], by simp [hurl, hurls, hjars, hne], fun d hd => ?_⟩
      obtain rfl := Option.some.inj (hc.symm.trans hd)
      rw [hurl, hurls, List.head?_map, hjars, hhead]
      exact ⟨rfl, rfl⟩

end Agreement

/-! ### What the calls keep -/

lemma linked_congr {s s' : Repository} {name : String}
    (hc : s'.jarEntryContents name = s.jarEntryContents name)
    (hl : s'.jarEntryLocations name = s.jarEntryLocations name) (hj : s'.jars name = s.jars name) :
    Linked s' name ↔ Linked s name := by
  rw [Linked, Linked, hc, hl, hj]

section Load

variable {s : Repository} (hs : ∀ name, Linked s name)

include hs

/-- **One entry** is kept with its jar, or its jar is one more location of bytes that are there. -/
lemma loadEntry_linked (url : String) (e : JarEntry) :
    ∃ s', loadEntry true url e s = (.ok (), s') ∧ ∀ name, Linked s' name := by
  have hold := hs e.name
  unfold Linked at hold
  cases hdir : e.isDirectory with
  | true => exact ⟨s, by simp [loadEntry, hdir], hs⟩
  | false =>
    cases hc : s.jarEntryContents e.name with
    | some c =>
      -- one more location of bytes that are there
      rw [hc] at hold
      refine ⟨addLocation s e.name url, by simp [loadEntry, hdir, addLocation, hc], fun name => ?_⟩
      by_cases hname : name = e.name
      · subst hname
        simp [Linked, addLocation, hc, hold.1, List.head?_append, hold.2]
      · have hlocs : (addLocation s e.name url).jarEntryLocations name =
            s.jarEntryLocations name := Function.update_of_ne hname ..
        refine (linked_congr ?_ hlocs ?_).mpr (hs name) <;> rfl
    | none =>
      -- new bytes with their first location
      rw [hc] at hold
      refine ⟨_, by simp [loadEntry, hdir, addLocation, hc]; rfl, fun name => ?_⟩
      by_cases hname : name = e.name
      · subst hname
        simp [Linked, hold.2]
      · rw [linked_congr (Function.update_of_ne hname ..) (Function.update_of_ne hname ..)
          (Function.update_of_ne hname ..)]
        exact hs name

lemma loadEntries_linked (url : String) (es : List JarEntry) :
    ∃ s', loadEntries true url es s = (.ok (), s') ∧ ∀ name, Linked s' name := by
  induction es generalizing s with
  | nil => exact ⟨s, rfl, hs⟩
  | cons e es ih =>
    obtain ⟨s₁, h₁, hs₁⟩ := loadEntry_linked hs url e
    obtain ⟨s', h', hs'⟩ := ih hs₁
    exact ⟨s', by rw [loadEntries, h₁, andThen_ok, h'], hs'⟩

/-- **A removal** leaves the locations of what it removed. -/
lemma unload_linked_iff (name : String) :
    (∀ n, Linked (unload name s).2 n) ↔ s.jarEntryContents name = none := by
  have hold := hs name
  unfold Linked at hold
  cases hc : s.jarEntryContents name with
  | none =>
    refine iff_of_true ?_ rfl
    simpa [unload, hc] using hs
  | some c =>
    rw [hc] at hold
    refine iff_of_false (fun h => ?_) (by simp)
    have hnew := h name
    simp [unload, hc, Linked, hold.1] at hnew

end Load

/-- No entry is lost, and nothing is thrown, when collisions are allowed. -/
lemma loadEntry_keeps (url : String) (e : JarEntry) (s : Repository) :
    ∃ s', loadEntry true url e s = (.ok (), s') ∧
      ∀ name, (s.jarEntryContents name).isSome → (s'.jarEntryContents name).isSome := by
  cases hdir : e.isDirectory with
  | true => exact ⟨s, by simp [loadEntry, hdir], fun _ h => h⟩
  | false =>
    cases hc : s.jarEntryContents e.name with
    | some c =>
      exact ⟨addLocation s e.name url, by simp [loadEntry, hdir, addLocation, hc], fun _ h => h⟩
    | none =>
      refine ⟨_, by simp [loadEntry, hdir, addLocation, hc]; rfl, fun name h => ?_⟩
      by_cases hname : name = e.name
      · subst hname
        simp
      · simpa [Function.update_of_ne hname] using h

lemma loadJar_keeps (jar : Jar) (s : Repository) :
    ∃ s', loadJar true jar s = (.ok (), s') ∧
      ∀ name, (s.jarEntryContents name).isSome → (s'.jarEntryContents name).isSome := by
  unfold loadJar
  induction jar.entries generalizing s with
  | nil => exact ⟨s, rfl, fun _ h => h⟩
  | cons e es ih =>
    obtain ⟨s₁, h₁, hs₁⟩ := loadEntry_keeps jar.url e s
    obtain ⟨s', h', hs'⟩ := ih s₁
    exact ⟨s', by rw [loadEntries, h₁, andThen_ok, h'], fun name h => hs' name (hs₁ name h)⟩

lemma linked_empty (name : String) : Linked Repository.empty name := ⟨rfl, rfl⟩

/-- **The three maps agree in every state of a run** exactly if no call of it removes an entry. -/
theorem agrees_iff_removesNothing (formed : String → Bool)
    (hformed : ∀ url name, formed (jarUrl url name) = true) (cmds : List Cmd) :
    (∀ pre, pre <+: cmds → ∀ name, Agrees formed (run step Repository.empty pre) name) ↔
      ∀ pre cmd, pre ++ [cmd] <+: cmds → RemovesNothing (run step Repository.empty pre) cmd := by
  simp only [agrees_iff hformed]
  refine always_iff_guarded (P := fun s => ∀ name, Linked s name) linked_empty
    (fun s cmd hs => ?_) cmds
  cases cmd with
  | loadJar jar =>
    obtain ⟨s', h, hs'⟩ := loadEntries_linked hs jar.url jar.entries
    have hstep : step s (.loadJar jar) = s' := by rw [step, loadJar, h]
    exact iff_of_true (hstep ▸ hs') trivial
  | unload name => exact unload_linked_iff hs name

/-- One name in two jars, and twice in the first. -/
theorem agrees_two_jars :
    Agrees (fun _ => true) (run step Repository.empty
      [.loadJar ⟨"file:a.jar", [⟨"x", false, [1]⟩, ⟨"x", false, [2]⟩]⟩,
        .loadJar ⟨"file:b.jar", [⟨"x", false, [3]⟩]⟩]) "x" := by
  refine (agrees_iff_removesNothing (fun _ => true) (fun _ _ => rfl) _).mpr ?_ _ List.prefix_rfl _
  simp only [guarded_cons_iff]
  exact ⟨trivial, trivial, guarded_nil⟩

/-- A jar is loaded and its entry removed: the bytes are gone, the locations are not. -/
theorem not_agrees_after_unload :
    ¬Agrees (fun _ => true) (run step Repository.empty
      [.loadJar ⟨"file:a.jar", [⟨"x", false, [1]⟩]⟩, .unload "x"]) "x" := by
  intro h
  exact absurd (h.url.mpr rfl) (by decide)

end Zinzhi.JarResources
