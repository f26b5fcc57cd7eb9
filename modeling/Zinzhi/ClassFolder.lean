import Zinzhi.ClassSync
import Mathlib.Data.List.Infix
import Mathlib.Data.List.Nodup

/-!
Folders of class files, as `ClasspathResources` walks through them.

The walk takes the names of the folders on its way for the package, with a slash between two of
them; `loadClassContent` puts one more before the name of the file, also where there is no package.
A file is read as a whole, as `File.length` and one call of `read` do for files that do not change.
What a jar file contains is a parameter. Of `toLowerCase` only the letters of the two endings
matter.
-/

namespace Zinzhi.ClassFolder

open Zinzhi.Loops Zinzhi.JarResources Zinzhi.ClassSync

/-- What `File.list` gives of a folder, with the files and the folders themselves. -/
inductive Listing
  | nil
  | file (name : String) (content : List UInt8) (rest : Listing)
  | directory (name : String) (files rest : Listing)

/-! ### Loading -/

section Load

variable (collisionAllowed : Bool) (jarAt : String → Jar)

/-- The end of `loadClassContent` and of `loadResourceContent` -/
def putContent (kind entryName : String) (c : Content) (s : Repository) :
    Outcome JarResources.Exn Repository :=
  if (s.jarEntryContents entryName).isSome then
    if collisionAllowed then (.ok (), s)
    else (.error (.jclRuntime (kind ++ " " ++ entryName ++ " already loaded")), s)
  else
    (.ok (), { s with jarEntryContents := Function.update s.jarEntryContents entryName (some c) })

def loadClassContent (path name : String) (content : List UInt8) (pack : String) :
    Repository → Outcome JarResources.Exn Repository :=
  putContent collisionAllowed "Class" (pack ++ "/" ++ name) ⟨content, path⟩

def loadResourceContent (path name : String) (content : List UInt8) (pack : String) :
    Repository → Outcome JarResources.Exn Repository :=
  putContent collisionAllowed "Resource" ((if 0 < pack.length then pack ++ "/" else "") ++ name)
    ⟨content, path⟩

/-- `name.toLowerCase().endsWith(ending)` -/
def hasEnding (name ending : String) : Bool :=
  ending.toList.isSuffixOf (name.toList.map Char.toLower)

def loadFile (path name : String) (content : List UInt8) (packName : String) :
    Repository → Outcome JarResources.Exn Repository :=
  if hasEnding name ".class" then loadClassContent collisionAllowed path name content packName
  else if hasEnding name ".jar" then loadJar collisionAllowed (jarAt path)
  else loadResourceContent collisionAllowed path name content packName

def subPackage (pn name : String) : String := (if pn ≠ "" then pn ++ "/" else pn) ++ name

/-- The loop of `loadResource` over what a folder contains -/
def loadResource : Listing → (path packName : String) →
    Repository → Outcome JarResources.Exn Repository
  | .nil, _, _, s => (.ok (), s)
  | .file name content rest, path, packName, s =>
    andThen (loadFile collisionAllowed jarAt (path ++ "/" ++ name) name content packName s)
      (loadResource rest path packName)
  | .directory name files rest, path, packName, s =>
    andThen (loadResource files (path ++ "/" ++ name) (subPackage packName name) s)
      (loadResource rest path packName)

def addFolder {κ : Type} (path : String) (folder : Listing) (s : Loader κ) :
    Outcome ClassSync.Exn (Loader κ) :=
  match loadResource collisionAllowed jarAt folder path "" s.classpathResources with
  | (.ok (), rep) => (.ok (), { s with classpathResources := rep })
  | (.error e, rep) => (.error (.resource e), { s with classpathResources := rep })

end Load

/-! ### Folders of class files -/

/-- No character of the name means something to the loader. -/
def Plain (name : String) : Prop := ∀ c ∈ name.toList, c ≠ '.' ∧ c ≠ '/' ∧ c ≠ '~'

def Listing.names : Listing → List String
  | .nil => []
  | .file name _ rest => name :: rest.names
  | .directory name _ rest => name :: rest.names

/-- All files are class files, and all names in a folder are different. -/
def Listing.Classes : Listing → Prop
  | .nil => True
  | .file name _ rest =>
    (∃ n, name = n ++ ".class" ∧ Plain n) ∧ name ∉ rest.names ∧ rest.Classes
  | .directory name files rest =>
    (name ≠ "" ∧ Plain name) ∧ name ∉ rest.names ∧ files.Classes ∧ rest.Classes

/-- The class file of `n` is in the folder `d₁/…/dₖ` of the listing. -/
inductive Contains : Listing → List String → String → List UInt8 → Prop
  | here {n : String} {bytes : List UInt8} {rest : Listing} :
    Contains (.file (n ++ ".class") bytes rest) [] n bytes
  | inside {d : String} {files rest : Listing} {ds : List String} {n : String}
    {bytes : List UInt8} (h : Contains files ds n bytes) :
    Contains (.directory d files rest) (d :: ds) n bytes
  | behindFile {name : String} {content : List UInt8} {rest : Listing} {ds : List String}
    {n : String} {bytes : List UInt8} (h : Contains rest ds n bytes) :
    Contains (.file name content rest) ds n bytes
  | behindFolder {name : String} {files rest : Listing} {ds : List String} {n : String}
    {bytes : List UInt8} (h : Contains rest ds n bytes) :
    Contains (.directory name files rest) ds n bytes

lemma contains_file_iff {name : String} {content : List UInt8} {rest : Listing}
    {ds : List String} {n : String} {bytes : List UInt8} :
    Contains (.file name content rest) ds n bytes ↔
      (name = n ++ ".class" ∧ ds = [] ∧ bytes = content) ∨ Contains rest ds n bytes := by
  constructor
  · intro h
    cases h with
    | here => exact .inl ⟨rfl, rfl, rfl⟩
    | behindFile h => exact .inr h
  · rintro (⟨rfl, rfl, rfl⟩ | h)
    · exact .here
    · exact .behindFile h

/-- What is on the way to a file, or else the file, is in the listing itself. -/
lemma Contains.head_mem {l : Listing} {ds : List String} {n : String} {bytes : List UInt8}
    (h : Contains l ds n bytes) : ds.headD (n ++ ".class") ∈ l.names := by
  induction h with
  | here => exact List.mem_cons_self
  | inside => exact List.mem_cons_self
  | behindFile _ ih => exact List.mem_cons_of_mem _ ih
  | behindFolder _ ih => exact List.mem_cons_of_mem _ ih

/-! ### Keys -/

def packageOf (ds : List String) : String := ds.foldl subPackage ""

def key (ds : List String) (name : String) : String := packageOf ds ++ "/" ++ name

def PlainDirs (ds : List String) : Prop := ∀ d ∈ ds, d ≠ "" ∧ Plain d

lemma PlainDirs.noSlash {ds : List String} (hds : PlainDirs ds) :
    ∀ l ∈ ds.map String.toList, '/' ∉ l := by
  intro l hl hslash
  obtain ⟨d, hd, rfl⟩ := List.mem_map.mp hl
  exact ((hds d hd).2 '/' hslash).2.1 rfl

lemma packageOf_concat (ds : List String) (d : String) :
    packageOf (ds ++ [d]) = subPackage (packageOf ds) d := by
  rw [packageOf, List.foldl_append]
  rfl

lemma intercalate_concat {α : Type} (x : α) {ls : List (List α)} (hls : ls ≠ []) (l : List α) :
    [x].intercalate (ls ++ [l]) = [x].intercalate ls ++ x :: l := by
  induction ls with
  | nil => exact absurd rfl hls
  | cons a ls ih =>
    cases ls with
    | nil => simp [List.intercalate_cons_cons]
    | cons b ls =>
      have hrest := ih (List.cons_ne_nil b ls)
      rw [List.cons_append] at hrest
      rw [List.cons_append, List.cons_append, List.intercalate_cons_cons, hrest,
        List.intercalate_cons_cons, List.append_assoc, List.append_assoc, List.append_assoc]

lemma packageOf_eq_empty_iff {ds : List String} (hds : PlainDirs ds) :
    packageOf ds = "" ↔ ds = [] := by
  refine ⟨fun h => ?_, fun h => by rw [h]; rfl⟩
  by_contra hne
  obtain ⟨ds, d, rfl⟩ := (List.eq_nil_or_concat' ds).resolve_left hne
  have hd := (hds d (by simp)).1
  rw [packageOf_concat, subPackage, String.append_eq_empty_iff] at h
  exact hd h.2

/-- The names of the folders, with slashes between them. -/
lemma toList_packageOf {ds : List String} (hds : PlainDirs ds) :
    (packageOf ds).toList = ['/'].intercalate (ds.map String.toList) := by
  induction ds using List.reverseRecOn with
  | nil => rfl
  | append_singleton ds d ih =>
    have hds' : PlainDirs ds := fun d' hd' => hds d' (List.mem_append_left _ hd')
    rw [packageOf_concat, subPackage, List.map_append]
    by_cases hne : ds = []
    · subst hne
      simp [packageOf]
    · have hpack : packageOf ds ≠ "" := fun h => hne ((packageOf_eq_empty_iff hds').mp h)
      rw [if_pos hpack, List.map_singleton, intercalate_concat '/' (by simpa using hne), ← ih hds']
      simp

lemma key_inj {ds ds' : List String} {n n' : String} (hds : PlainDirs ds) (hds' : PlainDirs ds')
    (hn : '/' ∉ n.toList) (hn' : '/' ∉ n'.toList) (h : key ds n = key ds' n') :
    ds = ds' ∧ n = n' := by
  have hparts : (packageOf ds).toList.splitOn '/' ++ [n.toList] =
      (packageOf ds').toList.splitOn '/' ++ [n'.toList] := by
    have hsplit := congrArg (fun s : String => s.toList.splitOn '/') h
    simpa [key, List.splitOn_append_cons_self, List.splitOn_eq_singleton hn,
      List.splitOn_eq_singleton hn'] using hsplit
  obtain ⟨hpackage, hname⟩ := List.append_inj' hparts rfl
  refine ⟨?_, String.toList_inj.mp (List.singleton_inj.mp hname)⟩
  have hsame : packageOf ds = packageOf ds' := by
    apply String.toList_inj.mp
    calc (packageOf ds).toList
        = ['/'].intercalate ((packageOf ds).toList.splitOn '/') :=
          (List.intercalate_splitOn '/').symm
      _ = ['/'].intercalate ((packageOf ds').toList.splitOn '/') := by rw [hpackage]
      _ = (packageOf ds').toList := List.intercalate_splitOn '/'
  by_cases hne : ds = []
  · rw [hne, eq_comm, ← packageOf_eq_empty_iff hds', ← hsame, hne]
    rfl
  · have hne' : ds' ≠ [] := fun h' => hne ((packageOf_eq_empty_iff hds).mp
      (hsame.trans ((packageOf_eq_empty_iff hds').mpr h')))
    rw [toList_packageOf hds, toList_packageOf hds',
      List.splitOn_intercalate '/' (hds.noSlash) (by simpa using hne),
      List.splitOn_intercalate '/' (hds'.noSlash) (by simpa using hne')] at hpackage
    exact List.map_injective_iff.mpr (fun _ _ => String.toList_inj.mp) hpackage

lemma map_intercalate {α β : Type} (f : α → β) (x : α) (ls : List (List α)) :
    ([x].intercalate ls).map f = [f x].intercalate (ls.map (List.map f)) := by
  induction ls with
  | nil => rfl
  | cons a ls ih =>
    cases ls with
    | nil => simp
    | cons b ls =>
      rw [List.intercalate_cons_cons, List.map_append, List.map_append, ih, List.map_singleton]
      simp only [List.map_cons, List.intercalate_cons_cons]

lemma Plain.map_pathChar {n : String} (hn : Plain n) :
    n.toList.map (pathChar '\x00') = n.toList := by
  refine (List.map_congr_left fun c hc => ?_).trans (List.map_id _)
  obtain ⟨hdot, hslash, htilde⟩ := hn c hc
  simp [pathChar, hdot, hslash, htilde]

/-- In a package, the path of a class is the key of its file. -/
lemma formatClassName_eq_key {ds : List String} {n : String} (hds : PlainDirs ds) (hn : Plain n)
    (hne : ds ≠ []) :
    formatClassName '\x00' (String.intercalate "." (ds ++ [n])) = key ds (n ++ ".class") := by
  have hplain : (ds.map String.toList).map (List.map (pathChar '\x00')) = ds.map String.toList := by
    rw [List.map_map]
    exact List.map_congr_left fun d hd => (hds d hd).2.map_pathChar
  apply String.toList_inj.mp
  calc (formatClassName '\x00' (String.intercalate "." (ds ++ [n]))).toList
      = ['/'].intercalate (ds.map String.toList ++ [n.toList]) ++ ".class".toList := by
        rw [toList_formatClassName, String.toList_intercalate, List.map_append, List.map_singleton]
        have hdot : ".".toList = ['.'] := rfl
        have hslash : pathChar '\x00' '.' = '/' := rfl
        rw [hdot, map_intercalate, hslash, List.map_append, hplain, List.map_singleton,
          hn.map_pathChar]
    _ = (packageOf ds).toList ++ '/' :: n.toList ++ ".class".toList := by
        rw [intercalate_concat '/' (by simpa using hne), toList_packageOf hds]
    _ = (key ds (n ++ ".class")).toList := by simp [key]

/-! ### What is added -/

/-- In a repository that has none of the entries yet, `f` adds them and changes nothing else. -/
def Adds (f : Repository → Outcome JarResources.Exn Repository)
    (E : String → List UInt8 → Prop) : Prop :=
  ∀ s, (∀ k bytes, E k bytes → getResource s k = none) → ∃ s', f s = (.ok (), s') ∧
    (∀ k bytes, E k bytes → getResource s' k = some bytes) ∧
    ∀ k, (∀ bytes, ¬E k bytes) → getResource s' k = getResource s k

lemma Adds.andThen {f g : Repository → Outcome JarResources.Exn Repository}
    {E F : String → List UInt8 → Prop} (hf : Adds f E) (hg : Adds g F)
    (hapart : ∀ k bytes bytes', E k bytes → ¬F k bytes') :
    Adds (fun s => Loops.andThen (f s) g) fun k bytes => E k bytes ∨ F k bytes := by
  intro s hs
  obtain ⟨s₁, hf₁, hE, hkeptE⟩ := hf s fun k bytes h => hs k bytes (.inl h)
  have hs₁ : ∀ k bytes, F k bytes → getResource s₁ k = none := by
    intro k bytes h
    rw [hkeptE k fun bytes' h' => hapart k bytes' bytes h' h]
    exact hs k bytes (.inr h)
  obtain ⟨s₂, hg₂, hF, hkeptF⟩ := hg s₁ hs₁
  refine ⟨s₂, ?_, ?_, ?_⟩
  · change Loops.andThen (f s) g = (.ok (), s₂)
    rw [hf₁, andThen_ok, hg₂]
  · rintro k bytes (h | h)
    · rw [hkeptF k fun bytes' => hapart k bytes bytes' h]
      exact hE k bytes h
    · exact hF k bytes h
  · intro k h
    rw [hkeptF k fun bytes hk => h bytes (.inr hk), hkeptE k fun bytes hk => h bytes (.inl hk)]

lemma Adds.congr {f : Repository → Outcome JarResources.Exn Repository}
    {E F : String → List UInt8 → Prop} (hf : Adds f E) (h : ∀ k bytes, E k bytes ↔ F k bytes) :
    Adds f F := by
  obtain rfl : E = F := by
    funext k bytes
    exact propext (h k bytes)
  exact hf

lemma putContent_adds (collisionAllowed : Bool) (kind entryName : String) (c : Content) :
    Adds (putContent collisionAllowed kind entryName c)
      fun k bytes => k = entryName ∧ bytes = c.bytes := by
  intro s hs
  have habsent : s.jarEntryContents entryName = none := by
    simpa [getResource] using hs entryName c.bytes ⟨rfl, rfl⟩
  refine ⟨_, by rw [putContent, habsent]; rfl, ?_, ?_⟩
  · rintro k bytes ⟨rfl, rfl⟩
    simp [getResource]
  · intro k h
    have hk : k ≠ entryName := fun hk => h c.bytes ⟨hk, rfl⟩
    simp [getResource, Function.update_of_ne hk]

/-- The entries of the class files in a listing, which the walk has come to over `pre`. -/
def Entry (l : Listing) (pre : List String) (k : String) (bytes : List UInt8) : Prop :=
  ∃ ds n, Contains l ds n bytes ∧ k = key (pre ++ ds) (n ++ ".class")

lemma entry_file_iff {n : String} {content : List UInt8} {rest : Listing} {pre : List String}
    {k : String} {bytes : List UInt8} :
    Entry (.file (n ++ ".class") content rest) pre k bytes ↔
      (k = key pre (n ++ ".class") ∧ bytes = content) ∨ Entry rest pre k bytes := by
  constructor
  · rintro ⟨ds, n', h, rfl⟩
    rcases contains_file_iff.mp h with ⟨hname, rfl, rfl⟩ | h
    · exact .inl ⟨by rw [List.append_nil, hname], rfl⟩
    · exact .inr ⟨ds, n', h, rfl⟩
  · rintro (⟨rfl, rfl⟩ | ⟨ds, n', h, rfl⟩)
    · exact ⟨[], n, .here, by rw [List.append_nil]⟩
    · exact ⟨ds, n', .behindFile h, rfl⟩

lemma entry_directory_iff {d : String} {files rest : Listing} {pre : List String}
    {k : String} {bytes : List UInt8} :
    Entry (.directory d files rest) pre k bytes ↔
      Entry files (pre ++ [d]) k bytes ∨ Entry rest pre k bytes := by
  constructor
  · rintro ⟨ds, n, h, rfl⟩
    cases h with
    | inside h => exact .inl ⟨_, n, h, by rw [List.append_assoc, List.singleton_append]⟩
    | behindFolder h => exact .inr ⟨ds, n, h, rfl⟩
  · rintro (⟨ds, n, h, rfl⟩ | ⟨ds, n, h, rfl⟩)
    · exact ⟨d :: ds, n, .inside h, by rw [List.append_assoc, List.singleton_append]⟩
    · exact ⟨ds, n, .behindFolder h, rfl⟩

lemma Contains.plain {l : Listing} (hl : l.Classes) {ds : List String} {n : String}
    {bytes : List UInt8} (h : Contains l ds n bytes) : PlainDirs ds ∧ Plain n := by
  induction h with
  | here =>
    obtain ⟨⟨n', hname, hn'⟩, -⟩ := hl
    obtain rfl := (String.append_left_inj _).mp hname
    exact ⟨by simp [PlainDirs], hn'⟩
  | inside _ ih =>
    obtain ⟨hd, -, hfiles, -⟩ := hl
    obtain ⟨hds, hn⟩ := ih hfiles
    exact ⟨List.forall_mem_cons.mpr ⟨hd, hds⟩, hn⟩
  | behindFile _ ih => exact ih hl.2.2
  | behindFolder _ ih => exact ih hl.2.2.2

lemma Plain.noSlash {n : String} (hn : Plain n) : '/' ∉ (n ++ ".class").toList := by
  intro h
  rw [String.toList_append, List.mem_append] at h
  rcases h with h | h
  · exact (hn '/' h).2.1 rfl
  · revert h
    decide

lemma PlainDirs.append {ds ds' : List String} (hds : PlainDirs ds) (hds' : PlainDirs ds') :
    PlainDirs (ds ++ ds') :=
  List.forall_mem_append.mpr ⟨hds, hds'⟩

/-- The key of a file tells where the listing has it. -/
lemma Entry.head_mem {l : Listing} (hl : l.Classes) {pre ds : List String} {n : String}
    {bytes : List UInt8} (hpre : PlainDirs pre) (hds : PlainDirs ds) (hn : Plain n)
    (h : Entry l pre (key (pre ++ ds) (n ++ ".class")) bytes) :
    ds.headD (n ++ ".class") ∈ l.names := by
  obtain ⟨ds', n', h, hkey⟩ := h
  obtain ⟨hds', hn'⟩ := h.plain hl
  obtain ⟨hsame, hname⟩ :=
    key_inj (hpre.append hds) (hpre.append hds') hn.noSlash hn'.noSlash hkey
  rw [List.append_cancel_left hsame, hname]
  exact h.head_mem

section Walk

variable (collisionAllowed : Bool) (jarAt : String → Jar)

lemma loadFile_adds (path : String) (n : String) (content : List UInt8) (packName : String) :
    Adds (loadFile collisionAllowed jarAt path (n ++ ".class") content packName)
      fun k bytes => k = packName ++ "/" ++ (n ++ ".class") ∧ bytes = content := by
  have hclass : hasEnding (n ++ ".class") ".class" = true := by
    rw [hasEnding, List.isSuffixOf_iff_suffix, String.toList_append, List.map_append]
    exact List.suffix_append _ _
  unfold loadFile
  rw [if_pos hclass]
  exact putContent_adds collisionAllowed "Class" (packName ++ "/" ++ (n ++ ".class"))
    ⟨content, path⟩

/-- **The walk adds the class files of the folder** under their keys. -/
lemma loadResource_adds {l : Listing} (hl : l.Classes) (path : String) {pre : List String}
    (hpre : PlainDirs pre) :
    Adds (loadResource collisionAllowed jarAt l path (packageOf pre)) (Entry l pre) := by
  induction l generalizing path pre with
  | nil =>
    have hnone : ∀ k bytes, ¬Entry .nil pre k bytes := by
      rintro k bytes ⟨ds, n, h, -⟩
      cases h
    exact fun s _ => ⟨s, rfl, fun k bytes h => absurd h (hnone k bytes), fun k _ => rfl⟩
  | file name content rest ih =>
    obtain ⟨⟨n, rfl, hn⟩, hnew, hrest⟩ := hl
    refine ((loadFile_adds collisionAllowed jarAt _ n content (packageOf pre)).andThen
      (ih hrest path hpre) ?_).congr fun k bytes => entry_file_iff.symm
    -- no file behind it has the same key, as no name in the listing is the same
    rintro k bytes bytes' ⟨rfl, -⟩ h
    have hkey : packageOf pre ++ "/" ++ (n ++ ".class") = key (pre ++ []) (n ++ ".class") := by
      rw [List.append_nil, key]
    rw [hkey] at h
    exact hnew (Entry.head_mem hrest hpre (by simp [PlainDirs]) hn h)
  | directory name files rest ihfiles ihrest =>
    obtain ⟨hname, hnew, hfiles, hrest⟩ := hl
    have hpre' : PlainDirs (pre ++ [name]) :=
      hpre.append (List.forall_mem_singleton.mpr hname)
    -- the walk goes on below with the package that `pre` and this folder make
    have hin := ihfiles hfiles (path ++ "/" ++ name) hpre'
    rw [packageOf_concat] at hin
    refine (hin.andThen (ihrest hrest path hpre) ?_).congr
      fun k bytes => entry_directory_iff.symm
    rintro k bytes bytes' ⟨ds, n, hcontains, rfl⟩ h
    obtain ⟨hds, hn⟩ := hcontains.plain hfiles
    rw [List.append_assoc, List.singleton_append] at h
    exact hnew (Entry.head_mem hrest hpre (List.forall_mem_cons.mpr ⟨hname, hds⟩) hn h)

variable {κ : Type}

lemma key_ne_formatClassName {n : String} (hn : Plain n) (ds : List String) (name : String) :
    formatClassName '\x00' n ≠ key ds name := by
  intro h
  have hslash : '/' ∈ (formatClassName '\x00' n).toList := by
    rw [h]
    simp [key]
  rw [toList_formatClassName, hn.map_pathChar, ← String.toList_append] at hslash
  exact hn.noSlash hslash

/-- **A class file of an added folder can be loaded by the name of its class** exactly if it is not
in the folder itself, but in one below. -/
theorem addFolder_loads_iff (path : String) {folder : Listing} (hfolder : folder.Classes)
    {ds : List String} {n : String} {bytes : List UInt8} (h : Contains folder ds n bytes) :
    (∃ s' : Loader κ,
      addFolder collisionAllowed jarAt path folder Loader.new = (.ok (), s') ∧
        loadClassBytes '\x00' (String.intercalate "." (ds ++ [n])) s' = some bytes) ↔
      ds ≠ [] := by
  obtain ⟨hds, hn⟩ := h.plain hfolder
  have hpre : PlainDirs [] := by simp [PlainDirs]
  obtain ⟨rep, hload, hfound, hkept⟩ := loadResource_adds collisionAllowed jarAt hfolder path hpre
    Repository.empty fun _ _ _ => rfl
  have hadd : addFolder collisionAllowed jarAt path folder Loader.new =
      (.ok (), { (Loader.new : Loader κ) with classpathResources := rep }) := by
    have hload' : loadResource collisionAllowed jarAt folder path ""
        (Loader.new : Loader κ).classpathResources = (.ok (), rep) := hload
    rw [addFolder, hload']
  constructor
  · -- the path that is looked for has no slash, and every key has one
    rintro ⟨s', hs', hbytes⟩ rfl
    obtain rfl : _ = s' := congrArg Prod.snd (hadd.symm.trans hs')
    have hnone : getResource rep (formatClassName '\x00' n) = none := by
      rw [hkept]
      · rfl
      · rintro bytes' ⟨ds, n', -, hkey⟩
        exact key_ne_formatClassName hn _ _ hkey
    have hname : String.intercalate "." ([] ++ [n]) = n := by simp
    rw [loadClassBytes, hname, hnone] at hbytes
    cases hbytes
  · intro hne
    refine ⟨_, hadd, ?_⟩
    rw [loadClassBytes, formatClassName_eq_key hds hn hne]
    exact hfound _ _ ⟨ds, n, h, rfl⟩

end Walk

def packageFolder : Listing := .directory "a" (.file "B.class" [202, 254] .nil) .nil

def noJars : String → Jar := fun url => ⟨url, []⟩

theorem addFolder_loads_package :
    packageFolder.Classes ∧ Contains packageFolder ["a"] "B" [202, 254] ∧
      ∃ s' : Loader Unit,
        addFolder true noJars "classes" packageFolder Loader.new = (.ok (), s') ∧
          loadClassBytes '\x00' (String.intercalate "." (["a"] ++ ["B"])) s' =
            some [202, 254] := by
  have hclasses : packageFolder.Classes := by
    refine ⟨⟨by decide, by simp [Plain]⟩, by simp [Listing.names], ?_, trivial⟩
    exact ⟨⟨"B", rfl, by simp [Plain]⟩, by simp [Listing.names], trivial⟩
  have hcontains : Contains packageFolder ["a"] "B" [202, 254] :=
    .inside (contains_file_iff.mpr (.inl ⟨rfl, rfl, rfl⟩))
  exact ⟨hclasses, hcontains,
    (addFolder_loads_iff true noJars "classes" hclasses hcontains).mpr (by simp)⟩

def defaultFolder : Listing := .file "B.class" [202, 254] .nil

/-- The bytes of `B` are under `/B.class`, and are looked for under `B.class`. -/
theorem addFolder_no_package :
    defaultFolder.Classes ∧ Contains defaultFolder [] "B" [202, 254] ∧
      ∃ s' : Loader Unit,
        addFolder true noJars "classes" defaultFolder Loader.new = (.ok (), s') ∧
          loadClassBytes '\x00' "B" s' = none := by
  refine ⟨⟨⟨"B", rfl, by simp [Plain]⟩, by simp [Listing.names], trivial⟩,
    contains_file_iff.mpr (.inl ⟨rfl, rfl, rfl⟩), ?_⟩
  have hclass : hasEnding "B.class" ".class" = true := by decide
  refine ⟨_, by
    rw [addFolder, defaultFolder, loadResource, loadFile, if_pos hclass]
    rfl, ?_⟩
  have hpath : formatClassName '\x00' "B" ≠ "" ++ "/" ++ "B.class" := by decide
  rw [loadClassBytes, getResource, Option.map_eq_none_iff]
  dsimp only
  rw [Function.update_of_ne hpath]
  rfl

end Zinzhi.ClassFolder
