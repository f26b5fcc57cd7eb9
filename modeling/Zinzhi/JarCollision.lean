import Zinzhi.JarResources
import Mathlib.Data.List.Nodup

/-!
`loadJar` without collisions: what a refused jar leaves in the repository.

An entry is added to the locations of its name before the test whether the name is there already,
so the locations have grown when the exception is thrown, if nothing else has.
-/

namespace Zinzhi.JarCollision

open Zinzhi.Loops Zinzhi.JarResources

def fileNames (es : List JarEntry) : List String :=
  (es.filter fun e => !e.isDirectory).map JarEntry.name

/-- None of the names is there, nor twice in the jar. -/
structure NoCollision (s : Repository) (es : List JarEntry) : Prop where
  absent : ∀ name ∈ fileNames es, s.jarEntryContents name = none
  nodup : (fileNames es).Nodup

/-- A refused jar leaves the repository as it was. -/
def RefusedUnchanged (s : Repository) (jar : Jar) : Prop :=
  ∀ message s', loadJar false jar s = (.error (.jclRuntime message), s') →
    s'.jarEntryContents = s.jarEntryContents ∧ s'.jarEntryLocations = s.jarEntryLocations ∧
      s'.jars = s.jars

def locations (s : Repository) (name : String) : ℕ :=
  ((s.jarEntryLocations name).getD []).length

section Entry

variable (url : String) {e : JarEntry} {s : Repository}

lemma loadEntry_directory (hdir : e.isDirectory = true) :
    loadEntry false url e s = (.ok (), s) := by
  simp [loadEntry, hdir]

lemma loadEntry_collision (hdir : e.isDirectory = false)
    (hc : (s.jarEntryContents e.name).isSome) :
    ∃ message, loadEntry false url e s =
      (.error (.jclRuntime message), addLocation s e.name url) := by
  refine ⟨"Class/Resource " ++ e.name ++ " already loaded", ?_⟩
  simp [loadEntry, hdir, addLocation, hc]

lemma loadEntry_new (hdir : e.isDirectory = false) (hc : s.jarEntryContents e.name = none) :
    ∃ s', loadEntry false url e s = (.ok (), s') ∧
      s'.jarEntryContents =
        Function.update s.jarEntryContents e.name (some ⟨e.bytes, url⟩) ∧
      s'.jarEntryLocations = (addLocation s e.name url).jarEntryLocations :=
  ⟨{ addLocation s e.name url with
      jarEntryContents := Function.update s.jarEntryContents e.name (some ⟨e.bytes, url⟩)
      jars := Function.update s.jars e.name (some url) },
    by simp [loadEntry, hdir, addLocation, hc], rfl, rfl⟩

lemma locations_addLocation (s : Repository) (name name' : String) :
    locations (addLocation s name url) name' =
      locations s name' + if name' = name then 1 else 0 := by
  by_cases h : name' = name
  · subst h
    simp [locations, addLocation]
  · simp [locations, addLocation, h]

lemma noCollision_directory (hdir : e.isDirectory = true) (es : List JarEntry) :
    NoCollision s (e :: es) ↔ NoCollision s es := by
  have hnames : fileNames (e :: es) = fileNames es := by simp [fileNames, hdir]
  constructor
  · rintro ⟨habsent, hnodup⟩
    exact ⟨hnames ▸ habsent, hnames ▸ hnodup⟩
  · rintro ⟨habsent, hnodup⟩
    exact ⟨hnames.symm ▸ habsent, hnames.symm ▸ hnodup⟩

lemma noCollision_file (hdir : e.isDirectory = false) (es : List JarEntry) {s' : Repository}
    {c : Content}
    (hs' : s'.jarEntryContents = Function.update s.jarEntryContents e.name (some c)) :
    NoCollision s (e :: es) ↔ s.jarEntryContents e.name = none ∧ NoCollision s' es := by
  have hnames : fileNames (e :: es) = e.name :: fileNames es := by simp [fileNames, hdir]
  constructor
  · rintro ⟨habsent, hnodup⟩
    rw [hnames, List.forall_mem_cons] at habsent
    rw [hnames, List.nodup_cons] at hnodup
    refine ⟨habsent.1, fun name hname => ?_, hnodup.2⟩
    have hne : name ≠ e.name := fun heq => hnodup.1 (heq ▸ hname)
    rw [hs', Function.update_of_ne hne, habsent.2 name hname]
  · rintro ⟨hnone, habsent, hnodup⟩
    have hne : ∀ name ∈ fileNames es, name ≠ e.name := by
      rintro name hname rfl
      have hold := habsent _ hname
      rw [hs', Function.update_self] at hold
      cases hold
    refine ⟨?_, ?_⟩
    · rw [hnames, List.forall_mem_cons]
      refine ⟨hnone, fun name hname => ?_⟩
      rw [← habsent name hname, hs', Function.update_of_ne (hne name hname)]
    · rw [hnames, List.nodup_cons]
      exact ⟨fun hmem => hne _ hmem rfl, hnodup⟩

end Entry

/-- **Without a collision** every entry is loaded. **With one** the jar is refused, and the name it
is refused for has one more location. -/
lemma loadEntries_cases (url : String) (es : List JarEntry) (s : Repository) :
    (NoCollision s es ∧ ∃ s', loadEntries false url es s = (.ok (), s')) ∨
      ¬NoCollision s es ∧ ∃ message s',
        loadEntries false url es s = (.error (.jclRuntime message), s') ∧
          ∃ name, locations s name < locations s' name := by
  induction es generalizing s with
  | nil => exact .inl ⟨⟨by simp [fileNames], by simp [fileNames]⟩, s, rfl⟩
  | cons e es ih =>
    cases hdir : e.isDirectory with
    | true =>
      -- a directory is passed over
      rw [loadEntries, loadEntry_directory url hdir, andThen_ok, noCollision_directory hdir es]
      exact ih s
    | false =>
      cases hc : s.jarEntryContents e.name with
      | some c =>
        -- the name is there: the jar is one more location, and refused
        obtain ⟨message, hrun⟩ := loadEntry_collision url hdir (Option.isSome_of_eq_some hc)
        refine .inr ⟨fun h => ?_, message, addLocation s e.name url,
          by rw [loadEntries, hrun]; rfl, e.name, ?_⟩
        · have hnone := h.absent e.name (by simp [fileNames, hdir])
          exact absurd (hc.symm.trans hnone) (by simp)
        · rw [locations_addLocation, if_pos rfl]
          omega
      | none =>
        -- the name is new
        obtain ⟨s₁, hrun, hcontents, hlocs⟩ := loadEntry_new url hdir hc
        have hle (name : String) : locations s name ≤ locations s₁ name := by
          have hsame : locations s₁ name = locations (addLocation s e.name url) name := by
            rw [locations, hlocs, locations]
          rw [hsame, locations_addLocation]
          exact Nat.le_add_right _ _
        have hrest : NoCollision s (e :: es) ↔ NoCollision s₁ es :=
          (noCollision_file hdir es hcontents).trans (and_iff_right hc)
        rw [loadEntries, hrun, andThen_ok, hrest]
        rcases ih s₁ with h | ⟨h, message, s', hrefused, name, hlt⟩
        · exact .inl h
        · exact .inr ⟨h, message, s', hrefused, name, (hle name).trans_lt hlt⟩

/-- **A refused jar leaves the repository as it was** only if there is none: exactly when no name of
the jar is there already, and none is in it twice. -/
theorem refusedUnchanged_iff (s : Repository) (jar : Jar) :
    RefusedUnchanged s jar ↔ NoCollision s jar.entries := by
  rcases loadEntries_cases jar.url jar.entries s with
    ⟨hfree, s₁, hrun⟩ | ⟨hcollision, message, s', hrun, name, hlt⟩
  · refine iff_of_true (fun message s' hthrow => ?_) hfree
    rw [loadJar, hrun] at hthrow
    cases hthrow
  · refine iff_of_false (fun h => ?_) hcollision
    obtain ⟨-, hlocs, -⟩ := h message s' hrun
    rw [locations, locations, hlocs] at hlt
    exact Nat.lt_irrefl _ hlt

/-- One name, first from one jar and then from another. -/
theorem refusedUnchanged_twice :
    ¬RefusedUnchanged (loadJar false ⟨"file:a.jar", [⟨"x", false, [1]⟩]⟩ Repository.empty).2
      ⟨"file:b.jar", [⟨"x", false, [2]⟩]⟩ := by
  intro h
  obtain ⟨-, hlocs, -⟩ := h _ _ rfl
  exact absurd (congrFun hlocs "x") (by decide)

end Zinzhi.JarCollision
