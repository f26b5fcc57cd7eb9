import Zinzhi.Delegation
import Zinzhi.Runs
import Zinzhi.StableSort

/-!
The lookups of an `AbstractClassLoader` over its list of proxies.

Each lookup sorts the list by `compareTo`, which subtracts the orders, and asks one proxy after the
other. A proxy is told by what it answers. `Collections.sort` is stable where `compareTo` keeps its
contract; elsewhere it may throw `IllegalArgumentException`.
-/

namespace Zinzhi.LoaderOrder

open Zinzhi.Runs Zinzhi.StableSort
open Zinzhi.Delegation (isBlank)

variable {π κ α : Type}

structure Fields (π : Type) where
  order : π → Int32
  enabled : π → Bool

/-- The methods of the proxies. Classes have no structure, a URL is its text and a stream what is
read from it. -/
structure Methods (π κ : Type) where
  loadClass : π → String → Option κ
  getResource : π → String → Option String
  loadResource : π → String → Option (List UInt8)
  findResource : π → String → Option String
  getResources : π → String → Option (List String)
  findResources : π → String → Option (List String)

def compareTo (fs : Fields π) (l o : π) : Int32 := fs.order l - fs.order o

/-- `compareTo`, with the number it stands for -/
def comparison (fs : Fields π) (l o : π) : ℤ := (compareTo fs l o).toInt

inductive Exn
  | classNotFound (className : String)
  | illegalArgument
  deriving DecidableEq, Repr

/-! ### The loops -/

/-- The loop of `loadClass`: the first answer, and the proxies that were asked -/
def askAll (ask : π → Option α) : List π → Option α × List π
  | [] => (none, [])
  | l :: loaders =>
    match ask l with
    | some a => (some a, [l])
    | none =>
      let (a, asked) := askAll ask loaders
      (a, l :: asked)

/-- The loop of `getResource`, `getResourceAsStream` and `findResource` -/
def askEnabled (enabled : π → Bool) (ask : π → Option α) : List π → Option α × List π
  | [] => (none, [])
  | l :: loaders =>
    if enabled l then
      match ask l with
      | some a => (some a, [l])
      | none =>
        let (a, asked) := askEnabled enabled ask loaders
        (a, l :: asked)
    else askEnabled enabled ask loaders

/-- The loop of `getResources` and `findResources` -/
def collectEnabled (enabled : π → Bool) (ask : π → Option (List α)) : List π → List α × List π
  | [] => ([], [])
  | l :: loaders =>
    let (urlArr, asked) := collectEnabled enabled ask loaders
    if enabled l then ((ask l).getD [] ++ urlArr, l :: asked) else (urlArr, asked)

/-! ### The lookups -/

/-- What a lookup returns or throws, which proxies it asks, and how it leaves the list. -/
structure Lookup (π α : Type) where
  result : Except Exn (Option α)
  asked : List π
  loaders : List π

section Lookups

variable (std : SortMethod π) (fs : Fields π) (ms : Methods π κ)

/-- What the lookups have in common: the name, the sort and then a loop -/
def lookup (name : String) (loop : List π → Except Exn (Option α) × List π) (loaders : List π) :
    Lookup π α :=
  if isBlank name then ⟨.ok none, [], loaders⟩
  else
    match std.sort (comparison fs) loaders with
    | .error loaders => ⟨.error .illegalArgument, [], loaders⟩
    | .ok loaders => ⟨(loop loaders).1, (loop loaders).2, loaders⟩

def orNotFound (className : String) : Option α → Except Exn (Option α)
  | none => .error (.classNotFound className)
  | some clazz => .ok (some clazz)

/-- Other than the loops for resources, this one does not ask `isEnabled`. -/
def loadClass (className : String) : List π → Lookup π κ :=
  lookup std fs className fun loaders =>
    let (clazz, asked) := askAll (ms.loadClass · className) loaders
    (orNotFound className clazz, asked)

/-- One of the three lookups that stop at the first answer -/
def lookupEnabled (ask : π → String → Option α) (name : String) : List π → Lookup π α :=
  lookup std fs name fun loaders =>
    let (a, asked) := askEnabled fs.enabled (ask · name) loaders
    (.ok a, asked)

def getResource : String → List π → Lookup π String := lookupEnabled std fs ms.getResource

def getResourceAsStream : String → List π → Lookup π (List UInt8) :=
  lookupEnabled std fs ms.loadResource

def findResource : String → List π → Lookup π String := lookupEnabled std fs ms.findResource

/-- One of the two lookups that ask all -/
def lookupEach (ask : π → String → Option (List α)) (name : String) :
    List π → Lookup π (List α) :=
  lookup std fs name fun loaders =>
    let (urlArr, asked) := collectEnabled fs.enabled (ask · name) loaders
    (.ok (some urlArr), asked)

def getResources : String → List π → Lookup π (List String) := lookupEach std fs ms.getResources

def findResources : String → List π → Lookup π (List String) := lookupEach std fs ms.findResources

end Lookups

/-! ### The list of a loader -/

inductive Cmd (π : Type)
  | addLoader (l : π)
  | loadClass (className : String)
  | getResource (name : String)
  | getResourceAsStream (name : String)
  | findResource (name : String)
  | getResources (name : String)
  | findResources (name : String)

def step (std : SortMethod π) (fs : Fields π) (ms : Methods π κ) (loaders : List π) :
    Cmd π → List π
  | .addLoader l => loaders ++ [l]
  | .loadClass name => (loadClass std fs ms name loaders).loaders
  | .getResource name => (getResource std fs ms name loaders).loaders
  | .getResourceAsStream name => (getResourceAsStream std fs ms name loaders).loaders
  | .findResource name => (findResource std fs ms name loaders).loaders
  | .getResources name => (getResources std fs ms name loaders).loaders
  | .findResources name => (findResources std fs ms name loaders).loaders

/-- The list as it was added, which no lookup changes -/
def insertStep (loaders : List π) : Cmd π → List π
  | .addLoader l => loaders ++ [l]
  | _ => loaders

def inserted (cmds : List (Cmd π)) : List π := run insertStep [] cmds

/-! ### What the lookups are for -/

/-- By their orders, and where those are equal as they were inserted -/
def inOrder (fs : Fields π) (loaders : List π) : List π :=
  loaders.mergeSort fun l o => (fs.order l).toInt ≤ (fs.order o).toInt

def first (fs : Fields π) (loaders : List π) (ask : π → Option α) : Option α :=
  ((inOrder fs loaders).filter fs.enabled).findSome? ask

/-- The result is the one wanted, and no disabled proxy is asked for it. -/
structure Right (fs : Fields π) (wanted : Except Exn (Option α)) (r : Lookup π α) : Prop where
  result : r.result = wanted
  asked : ∀ l ∈ r.asked, fs.enabled l = true

/-- After the commands, the lookups of the name honour order and enablement. -/
structure Honours (std : SortMethod π) (fs : Fields π) (ms : Methods π κ) (cmds : List (Cmd π))
    (name : String) : Prop where
  loadClass : Right fs (orNotFound name (first fs (inserted cmds) (ms.loadClass · name)))
    (loadClass std fs ms name (run (step std fs ms) [] cmds))
  throws : (LoaderOrder.loadClass std fs ms name (run (step std fs ms) [] cmds)).result =
      .error (.classNotFound name) ↔
    ∀ l ∈ inserted cmds, fs.enabled l = true → ms.loadClass l name = none
  getResource : Right fs (.ok (first fs (inserted cmds) (ms.getResource · name)))
    (getResource std fs ms name (run (step std fs ms) [] cmds))
  getResourceAsStream : Right fs (.ok (first fs (inserted cmds) (ms.loadResource · name)))
    (getResourceAsStream std fs ms name (run (step std fs ms) [] cmds))
  findResource : Right fs (.ok (first fs (inserted cmds) (ms.findResource · name)))
    (findResource std fs ms name (run (step std fs ms) [] cmds))

/-- No difference of two orders is too large for an `int`. -/
def Close (fs : Fields π) (loaders : List π) : Prop :=
  ∀ l ∈ loaders, ∀ o ∈ loaders, (fs.order l).toInt - (fs.order o).toInt < 2 ^ 31

/-- Every disabled proxy comes behind an enabled one that answers. -/
def DisabledBehind (fs : Fields π) (ask : π → Option α) (loaders : List π) : Prop :=
  ∀ pre l post, loaders = pre ++ l :: post → fs.enabled l = false →
    ∃ o ∈ pre, fs.enabled o = true ∧ (ask o).isSome

/-! ### The order -/

/-- What `compareTo` is to compute. -/
def difference (fs : Fields π) (l o : π) : ℤ := (fs.order l).toInt - (fs.order o).toInt

lemma consistent_difference (fs : Fields π) (loaders : List π) :
    Consistent (difference fs) loaders where
  swap l _ o _ := by
    unfold difference
    omega
  trans l _ o _ p _ := by
    unfold difference
    omega

lemma stablySorted_inOrder (fs : Fields π) (loaders : List π) :
    StablySorted (difference fs) loaders (inOrder fs loaders) := by
  have hle : (fun l o => decide ((fs.order l).toInt ≤ (fs.order o).toInt)) =
      fun l o => decide (difference fs l o ≤ 0) := by
    funext l o
    rw [decide_eq_decide, difference]
    omega
  rw [inOrder, hle]
  exact stablySorted_mergeSort (consistent_difference fs loaders)

lemma mem_inOrder {fs : Fields π} {loaders : List π} {l : π} :
    l ∈ inOrder fs loaders ↔ l ∈ loaders :=
  (stablySorted_inOrder fs loaders).perm.mem_iff

lemma Close.mono {fs : Fields π} {loaders loaders' : List π} (h : Close fs loaders)
    (hsub : loaders' ⊆ loaders) : Close fs loaders' :=
  fun l hl o ho => h l (hsub hl) o (hsub ho)

lemma comparison_of_close {fs : Fields π} {loaders : List π} (h : Close fs loaders) {l o : π}
    (hl : l ∈ loaders) (ho : o ∈ loaders) : comparison fs l o = difference fs l o := by
  have hlo := h l hl o ho
  have hol := h o ho l hl
  rw [comparison, compareTo, Int32.toInt_sub, difference, Int.bmod_def]
  omega

lemma inOrder_of_stablySorted {fs : Fields π} {loaders loaders' : List π}
    (h : StablySorted (difference fs) loaders loaders') : inOrder fs loaders = loaders' :=
  (stablySorted_inOrder fs loaders).unique (consistent_difference fs loaders) h

/-- **The sort puts the list in order** if no difference is too large. -/
lemma sort_of_close (std : SortMethod π) {fs : Fields π} {loaders : List π}
    (h : Close fs loaders) :
    std.sort (comparison fs) loaders = .ok (inOrder fs loaders) := by
  have hcmp : ∀ l ∈ loaders, ∀ o ∈ loaders, comparison fs l o = difference fs l o :=
    fun l hl o ho => comparison_of_close h hl ho
  exact std.sort_eq ((consistent_difference fs loaders).congr hcmp)
    ((stablySorted_inOrder fs loaders).congr hcmp)

/-- If one is too large, it comes out negative. -/
lemma comparison_neg_of_far {fs : Fields π} {l o : π} (h : 2 ^ 31 ≤ difference fs l o) :
    comparison fs l o < 0 := by
  have hl := (fs.order l).toInt_lt
  have ho := (fs.order o).le_toInt
  rw [difference] at h
  rw [comparison, compareTo, Int32.toInt_sub, Int.bmod_def]
  omega

/-! ### Lists that are in the same order -/

/-- The same proxies, and those of one order one after the other as before. -/
structure Rearranged (fs : Fields π) (loaders loaders' : List π) : Prop where
  perm : loaders'.Perm loaders
  ties : ∀ k, loaders'.filter (fs.order · = k) = loaders.filter (fs.order · = k)

namespace Rearranged

variable {fs : Fields π} {loaders loaders' : List π}

lemma refl (fs : Fields π) (loaders : List π) : Rearranged fs loaders loaders :=
  ⟨.rfl, fun _ => rfl⟩

lemma trans {loaders'' : List π} (h : Rearranged fs loaders loaders')
    (h' : Rearranged fs loaders' loaders'') : Rearranged fs loaders loaders'' :=
  ⟨h'.perm.trans h.perm, fun k => (h'.ties k).trans (h.ties k)⟩

lemma concat (h : Rearranged fs loaders loaders') (l : π) :
    Rearranged fs (loaders ++ [l]) (loaders' ++ [l]) where
  perm := h.perm.append_right [l]
  ties k := by rw [List.filter_append, List.filter_append, h.ties k]

end Rearranged

lemma difference_eq_zero_iff {fs : Fields π} {l o : π} :
    difference fs l o = 0 ↔ fs.order o = fs.order l := by
  rw [difference, Int.sub_eq_zero, Int32.toInt_inj, eq_comm]

lemma filter_difference (fs : Fields π) (l : π) (loaders : List π) :
    loaders.filter (fun o => difference fs l o = 0) =
      loaders.filter (fs.order · = fs.order l) := by
  simp only [difference_eq_zero_iff]

lemma rearranged_inOrder (fs : Fields π) (loaders : List π) :
    Rearranged fs loaders (inOrder fs loaders) := by
  have hsorted := stablySorted_inOrder fs loaders
  refine ⟨hsorted.perm, fun k => ?_⟩
  by_cases hk : ∃ l ∈ loaders, fs.order l = k
  · obtain ⟨l, hl, rfl⟩ := hk
    rw [← filter_difference, ← filter_difference]
    exact hsorted.ties l hl
  · -- no proxy has this order, before and after
    have hnone : ∀ l ∈ loaders, ¬fs.order l = k := fun l hl h => hk ⟨l, hl, h⟩
    rw [List.filter_eq_nil_iff.mpr (by simpa [mem_inOrder] using hnone),
      List.filter_eq_nil_iff.mpr (by simpa using hnone)]

lemma Rearranged.inOrder_eq {fs : Fields π} {loaders loaders' : List π}
    (h : Rearranged fs loaders loaders') : inOrder fs loaders' = inOrder fs loaders := by
  have h' := h.trans (rearranged_inOrder fs loaders')
  refine (inOrder_of_stablySorted
    ⟨h'.perm, (stablySorted_inOrder fs loaders').sorted, fun l _ => ?_⟩).symm
  rw [filter_difference, filter_difference]
  exact h'.ties (fs.order l)

/-! ### Runs -/

section Runs

variable {std : SortMethod π} {fs : Fields π} {ms : Methods π κ}

lemma lookup_blank {name : String} (hname : isBlank name = true)
    (loop : List π → Except Exn (Option α) × List π) (loaders : List π) :
    lookup std fs name loop loaders = ⟨.ok none, [], loaders⟩ :=
  if_pos hname

lemma lookup_ok {name : String} (hname : isBlank name = false) {loaders loaders' : List π}
    (hsort : std.sort (comparison fs) loaders = .ok loaders')
    (loop : List π → Except Exn (Option α) × List π) :
    lookup std fs name loop loaders = ⟨(loop loaders').1, (loop loaders').2, loaders'⟩ := by
  rw [lookup, hname, hsort]
  rfl

lemma lookup_error {name : String} (hname : isBlank name = false) {loaders loaders' : List π}
    (hsort : std.sort (comparison fs) loaders = .error loaders')
    (loop : List π → Except Exn (Option α) × List π) :
    lookup std fs name loop loaders = ⟨.error .illegalArgument, [], loaders'⟩ := by
  rw [lookup, hname, hsort]
  rfl

/-- What a sort does to the list is all a lookup does to it. -/
lemma lookup_loaders {P : List π → Prop} {loaders : List π} (hP : P loaders)
    (hok : ∀ loaders', std.sort (comparison fs) loaders = .ok loaders' →
      P loaders')
    (herror : ∀ loaders',
      std.sort (comparison fs) loaders = .error loaders' → P loaders')
    (name : String) (loop : List π → Except Exn (Option α) × List π) :
    P (lookup std fs name loop loaders).loaders := by
  cases hname : isBlank name with
  | true =>
    rw [lookup_blank hname]
    exact hP
  | false =>
    cases hsort : std.sort (comparison fs) loaders with
    | ok loaders' =>
      rw [lookup_ok hname hsort]
      exact hok loaders' hsort
    | error loaders' =>
      rw [lookup_error hname hsort]
      exact herror loaders' hsort

lemma inserted_concat (cmds : List (Cmd π)) (cmd : Cmd π) :
    inserted (cmds ++ [cmd]) = insertStep (inserted cmds) cmd :=
  run_concat insertStep [] cmds cmd

lemma insertStep_subset (loaders : List π) (cmd : Cmd π) : loaders ⊆ insertStep loaders cmd := by
  cases cmd with
  | addLoader l => exact List.subset_append_left loaders [l]
  | _ => exact List.Subset.refl loaders

/-- **The rule for runs**: what holds of the two lists when a proxy is added to both, and when a
lookup sorts the second, holds after all commands. -/
lemma run_rule {R : List π → List π → Prop} (cmds : List (Cmd π)) (hnil : R [] [])
    (hadd : ∀ loaders loaders' l, R loaders loaders' → R (loaders ++ [l]) (loaders' ++ [l]))
    (hlookup : ∀ loaders loaders', loaders ⊆ inserted cmds → R loaders loaders' →
      ∀ (name : String) {α : Type} (loop : List π → Except Exn (Option α) × List π),
        R loaders (lookup std fs name loop loaders').loaders) :
    R (inserted cmds) (run (step std fs ms) [] cmds) := by
  induction cmds using List.reverseRecOn with
  | nil => exact hnil
  | append_singleton cmds cmd ih =>
    rw [inserted_concat] at hlookup ⊢
    rw [run_concat]
    have hsub := insertStep_subset (inserted cmds) cmd
    have hR := ih fun loaders loaders' h => hlookup loaders loaders' (List.Subset.trans h hsub)
    have hR' := @hlookup _ _ hsub hR
    cases cmd with
    | addLoader l => exact hadd _ _ l hR
    | loadClass name => exact hR' name _
    | getResource name => exact hR' name _
    | getResourceAsStream name => exact hR' name _
    | findResource name => exact hR' name _
    | getResources name => exact hR' name _
    | findResources name => exact hR' name _

/-- **The list stays in the order of insertion, up to the sort**, if no difference is too large. -/
lemma run_rearranged {cmds : List (Cmd π)} (h : Close fs (inserted cmds)) :
    Rearranged fs (inserted cmds) (run (step std fs ms) [] cmds) := by
  refine run_rule cmds (.refl fs []) (fun _ _ l hR => hR.concat l) ?_
  intro loaders loaders' hsub hR name α loop
  have hclose : Close fs loaders' := h.mono fun l hl => hsub (hR.perm.subset hl)
  refine lookup_loaders (P := Rearranged fs loaders) hR ?_ ?_ name loop
  · intro sorted hsort
    rw [sort_of_close std hclose] at hsort
    cases hsort
    exact hR.trans (rearranged_inOrder fs loaders')
  · intro sorted hsort
    rw [sort_of_close std hclose] at hsort
    cases hsort

lemma run_strict_perm (fs : Fields π) (ms : Methods π κ) (cmds : List (Cmd π)) :
    (run (step .strict fs ms) [] cmds).Perm (inserted cmds) := by
  refine run_rule (R := fun loaders loaders' => loaders'.Perm loaders) cmds .rfl
    (fun _ _ l hR => hR.append_right [l]) ?_
  intro loaders loaders' _ hR name α loop
  refine lookup_loaders (P := fun sorted => sorted.Perm loaders) hR ?_ ?_ name loop
  · exact fun sorted hsort => (SortMethod.strict_perm (.inl hsort)).trans hR
  · exact fun sorted hsort => (SortMethod.strict_perm (.inr hsort)).trans hR

end Runs

/-! ### The loops -/

section Asked

variable {enabled : π → Bool} {ask : π → Option α}

lemma askEnabled_eq (enabled : π → Bool) (ask : π → Option α) (loaders : List π) :
    askEnabled enabled ask loaders = askAll ask (loaders.filter enabled) := by
  induction loaders with
  | nil => rfl
  | cons l loaders ih =>
    rw [askEnabled, ih]
    by_cases hl : enabled l = true
    · rw [if_pos hl, List.filter_cons_of_pos hl, askAll]
    · rw [if_neg hl, List.filter_cons_of_neg hl]

lemma askAll_fst (ask : π → Option α) (loaders : List π) :
    (askAll ask loaders).1 = loaders.findSome? ask := by
  induction loaders with
  | nil => rfl
  | cons l loaders ih =>
    rw [askAll, List.findSome?_cons]
    cases ask l with
    | some a => rfl
    | none => exact ih

lemma askAll_snd_subset (ask : π → Option α) (loaders : List π) :
    (askAll ask loaders).2 ⊆ loaders := by
  induction loaders with
  | nil => exact List.Subset.refl []
  | cons l loaders ih =>
    rw [askAll]
    cases ask l with
    | some a => simp
    | none => exact List.cons_subset_cons l ih

lemma askAll_silent (loaders : List π) :
    (askAll (fun _ => (none : Option α)) loaders).2 = loaders := by
  induction loaders with
  | nil => rfl
  | cons l loaders ih => exact congrArg (l :: ·) ih

lemma disabledBehind_cons_iff {fs : Fields π} {l : π} {loaders : List π} :
    DisabledBehind fs ask (l :: loaders) ↔
      fs.enabled l = true ∧ ((ask l).isSome ∨ DisabledBehind fs ask loaders) := by
  constructor
  · intro h
    have hl : fs.enabled l = true := by
      by_contra hdisabled
      obtain ⟨o, ho, -⟩ := h [] l loaders rfl (Bool.eq_false_of_not_eq_true hdisabled)
      cases ho
    refine ⟨hl, or_iff_not_imp_left.mpr fun hnone pre o post heq hdisabled => ?_⟩
    obtain ⟨p, hp, henabled, hsome⟩ := h (l :: pre) o post (by rw [heq]; rfl) hdisabled
    rcases List.mem_cons.mp hp with rfl | hp
    · exact absurd hsome hnone
    · exact ⟨p, hp, henabled, hsome⟩
  · rintro ⟨hl, h⟩ pre o post heq hdisabled
    cases pre with
    | nil =>
      obtain ⟨rfl, -⟩ := List.cons.inj heq
      exact absurd (hdisabled.symm.trans hl) Bool.false_ne_true
    | cons l' pre =>
      obtain ⟨rfl, htail⟩ := List.cons.inj heq
      rcases h with hsome | h
      · exact ⟨l, List.mem_cons_self, hl, hsome⟩
      · obtain ⟨p, hp, hanswer⟩ := h pre o post htail hdisabled
        exact ⟨p, List.mem_cons_of_mem l hp, hanswer⟩

/-- No disabled proxy is asked exactly if an enabled one answers before it. -/
lemma asked_enabled_iff {fs : Fields π} {loaders : List π} :
    (∀ l ∈ (askAll ask loaders).2, fs.enabled l = true) ↔ DisabledBehind fs ask loaders := by
  induction loaders with
  | nil => simp [askAll, DisabledBehind]
  | cons l loaders ih =>
    rw [disabledBehind_cons_iff, ← ih, askAll]
    cases ask l with
    | some a => simp
    | none => simp

lemma findSome?_filter_of_asked {loaders : List π}
    (h : ∀ l ∈ (askAll ask loaders).2, enabled l = true) :
    (loaders.filter enabled).findSome? ask = loaders.findSome? ask := by
  induction loaders with
  | nil => rfl
  | cons l loaders ih =>
    rw [askAll] at h
    cases hask : ask l with
    | some a =>
      rw [hask] at h
      have hl : enabled l = true := h l List.mem_cons_self
      rw [List.filter_cons_of_pos hl, List.findSome?_cons, List.findSome?_cons, hask]
    | none =>
      rw [hask] at h
      have hl : enabled l = true := h l List.mem_cons_self
      rw [List.filter_cons_of_pos hl, List.findSome?_cons, List.findSome?_cons, hask]
      exact ih fun o ho => h o (List.mem_cons_of_mem l ho)

lemma collectEnabled_eq (enabled : π → Bool) (ask : π → Option (List α)) (loaders : List π) :
    collectEnabled enabled ask loaders =
      ((loaders.filter enabled).flatMap fun l => (ask l).getD [], loaders.filter enabled) := by
  induction loaders with
  | nil => rfl
  | cons l loaders ih =>
    rw [collectEnabled, ih]
    dsimp only
    by_cases hl : enabled l = true
    · rw [if_pos hl, List.filter_cons_of_pos hl, List.flatMap_cons]
    · rw [if_neg hl, List.filter_cons_of_neg hl]

end Asked

/-! ### Lookups of a list in order -/

section InOrder

variable {std : SortMethod π} {fs : Fields π} {ms : Methods π κ} {loaders loaders' : List π}
  {name : String}

lemma first_eq_none_iff {ask : π → Option α} :
    first fs loaders ask = none ↔ ∀ l ∈ loaders, fs.enabled l = true → ask l = none := by
  simp [first, List.findSome?_eq_none_iff, mem_inOrder]

lemma lookupEnabled_right (hname : isBlank name = false)
    (hsort : std.sort (comparison fs) loaders' = .ok (inOrder fs loaders))
    (ask : π → String → Option α) :
    Right fs (.ok (first fs loaders (ask · name))) (lookupEnabled std fs ask name loaders') := by
  rw [lookupEnabled, lookup_ok hname hsort]
  simp only [askEnabled_eq]
  constructor
  · exact congrArg Except.ok (askAll_fst _ _)
  · exact fun l hl => (List.mem_filter.mp (askAll_snd_subset _ _ hl)).2

lemma loadClass_eq (hname : isBlank name = false)
    (hsort : std.sort (comparison fs) loaders' = .ok (inOrder fs loaders)) :
    loadClass std fs ms name loaders' =
      ⟨orNotFound name ((inOrder fs loaders).findSome? (ms.loadClass · name)),
        (askAll (ms.loadClass · name) (inOrder fs loaders)).2, inOrder fs loaders⟩ := by
  rw [loadClass, lookup_ok hname hsort, ← askAll_fst]

/-- `loadClass` is right where it does not come to a disabled proxy. -/
lemma loadClass_right_iff (hname : isBlank name = false)
    (hsort : std.sort (comparison fs) loaders' = .ok (inOrder fs loaders)) :
    Right fs (orNotFound name (first fs loaders (ms.loadClass · name)))
        (loadClass std fs ms name loaders') ↔
      DisabledBehind fs (ms.loadClass · name) (inOrder fs loaders) := by
  rw [loadClass_eq hname hsort, ← asked_enabled_iff]
  constructor
  · exact fun h => h.asked
  · intro h
    refine ⟨?_, h⟩
    rw [first, findSome?_filter_of_asked h]

lemma orNotFound_eq_error_iff {a : Option α} :
    orNotFound name a = .error (.classNotFound name) ↔ a = none := by
  cases a with
  | none => simp [orNotFound]
  | some a => simp [orNotFound]

lemma lookupEach_right (hname : isBlank name = false)
    (hsort : std.sort (comparison fs) loaders' = .ok (inOrder fs loaders))
    (ask : π → String → Option (List α)) :
    Right fs (.ok (some (((inOrder fs loaders).filter fs.enabled).flatMap
      fun l => (ask l name).getD []))) (lookupEach std fs ask name loaders') := by
  rw [lookupEach, lookup_ok hname hsort]
  simp only [collectEnabled_eq]
  exact ⟨rfl, fun l hl => (List.mem_filter.mp hl).2⟩

end InOrder

section AfterRun

variable {fs : Fields π} {cmds : List (Cmd π)} {name : String} (hname : isBlank name = false)
  (hclose : Close fs (inserted cmds)) (std : SortMethod π) (ms : Methods π κ)

include hclose in
lemma sort_run :
    std.sort (comparison fs) (run (step std fs ms) [] cmds) =
      .ok (inOrder fs (inserted cmds)) := by
  have hrun : Rearranged fs (inserted cmds) (run (step std fs ms) [] cmds) :=
    run_rearranged hclose
  rw [sort_of_close std (hclose.mono hrun.perm.subset), hrun.inOrder_eq]

include hname hclose

/-- **`getResources` and `findResources` honour order and enablement** if no difference is too
large. -/
theorem getResources_honours :
    Right fs (.ok (some (((inOrder fs (inserted cmds)).filter fs.enabled).flatMap
        fun l => (ms.getResources l name).getD [])))
        (getResources std fs ms name (run (step std fs ms) [] cmds)) ∧
      Right fs (.ok (some (((inOrder fs (inserted cmds)).filter fs.enabled).flatMap
        fun l => (ms.findResources l name).getD [])))
        (findResources std fs ms name (run (step std fs ms) [] cmds)) := by
  have hsort := sort_run hclose std ms
  exact ⟨lookupEach_right hname hsort _, lookupEach_right hname hsort _⟩

lemma honours_iff_of_close :
    Honours std fs ms cmds name ↔
      DisabledBehind fs (ms.loadClass · name) (inOrder fs (inserted cmds)) := by
  have hsort := sort_run hclose std ms
  rw [← loadClass_right_iff hname hsort]
  constructor
  · exact fun h => h.loadClass
  · intro h
    refine ⟨h, ?_, lookupEnabled_right hname hsort _, lookupEnabled_right hname hsort _,
      lookupEnabled_right hname hsort _⟩
    rw [h.result, orNotFound_eq_error_iff, first_eq_none_iff]

end AfterRun

/-! ### What is needed -/

def silent : Methods π κ where
  loadClass _ _ := none
  getResource _ _ := none
  loadResource _ _ := none
  findResource _ _ := none
  getResources _ _ := none
  findResources _ _ := none

def rivals [DecidableEq π] (l o : π) : Methods π κ :=
  { silent with
    getResource := fun p _ =>
      if p = l then some "file:l" else if p = o then some "file:o" else none }

/-- The one of the two answers that comes first in the list. -/
lemma findSome?_of_pairwise {ask : π → Option α} {R : π → π → Prop} {sorted : List π} {l o : π}
    {a : α} (hsorted : sorted.Pairwise R) (hl : l ∈ sorted) (hR : ¬R o l) (ha : ask l = some a)
    (hothers : ∀ p, p ≠ l → p ≠ o → ask p = none) : sorted.findSome? ask = some a := by
  obtain ⟨pre, post, rfl, hpre⟩ := List.eq_append_cons_of_mem hl
  refine List.findSome?_eq_some_iff.mpr ⟨pre, l, post, rfl, ha, fun p hp => hothers p ?_ ?_⟩
  · rintro rfl
    exact hpre hp
  · rintro rfl
    exact hR ((List.pairwise_append.mp hsorted).2.2 p hp l List.mem_cons_self)

section Needed

variable {fs : Fields π} {cmds : List (Cmd π)} {name : String} (hname : isBlank name = false)
  (h : ∀ std (ms : Methods π κ), Honours std fs ms cmds name)

include hname h

/-- Otherwise the sort may throw. -/
lemma consistent_of_honours :
    Consistent (comparison fs) (inserted cmds) := by
  by_contra hc
  have hperm := run_strict_perm fs (silent : Methods π κ) cmds
  have hc' : ¬Consistent (comparison fs)
      (run (step .strict fs (silent : Methods π κ)) [] cmds) :=
    fun hcons => hc (hcons.mono hperm.symm.subset)
  have hresult := (h .strict silent).getResource.result
  rw [getResource, lookupEnabled, lookup_error hname (SortMethod.strict_error hc')] at hresult
  cases hresult

lemma exists_sorted (ms : Methods π κ) :
    ∃ sorted, SortMethod.strict.sort (comparison fs)
        (run (step .strict fs ms) [] cmds) = .ok sorted ∧
      sorted.Perm (inserted cmds) ∧
      sorted.Pairwise fun l o => comparison fs l o ≤ 0 := by
  have hperm := run_strict_perm fs ms cmds
  obtain ⟨sorted, hsort, hsorted⟩ := SortMethod.strict.stable _ _
    ((consistent_of_honours hname h).mono hperm.subset)
  exact ⟨sorted, hsort, hsorted.perm.trans hperm, hsorted.sorted⟩

/-- If nobody answers, `loadClass` asks all. -/
lemma enabled_of_honours : ∀ l ∈ inserted cmds, fs.enabled l = true := by
  obtain ⟨sorted, hsort, hperm, -⟩ := exists_sorted hname h silent
  have hasked := (h .strict silent).loadClass.asked
  rw [loadClass, lookup_ok hname hsort] at hasked
  intro l hl
  refine hasked l ?_
  change l ∈ (askAll (fun _ => none) sorted).2
  rw [askAll_silent]
  exact hperm.mem_iff.mpr hl

/-- Of two proxies whose orders are too far apart the wrong one comes first. -/
lemma close_of_honours : Close fs (inserted cmds) := by
  classical
  intro l hl o ho
  by_contra hfar
  have hneg : comparison fs l o < 0 := comparison_neg_of_far (not_lt.mp hfar)
  have hpos := ((consistent_of_honours hname h).swap o ho l hl).mpr hneg
  have hne : l ≠ o := by
    rintro rfl
    rw [sub_self] at hfar
    exact hfar (by decide)
  obtain ⟨sorted, hsort, hperm, hpair⟩ := exists_sorted hname h (rivals l o)
  have henabled := enabled_of_honours hname h
  have hfound : (sorted.filter fs.enabled).findSome?
      ((rivals l o : Methods π κ).getResource · name) = some "file:l" := by
    rw [List.filter_eq_self.mpr fun p hp => henabled p (hperm.mem_iff.mp hp)]
    refine findSome?_of_pairwise hpair (hperm.mem_iff.mpr hl) (not_le.mpr hpos) (if_pos rfl) ?_
    intro p hpl hpo
    simp [rivals, hpl, hpo]
  have hwanted : first fs (inserted cmds) ((rivals l o : Methods π κ).getResource · name) =
      some "file:o" := by
    have hlater : ¬difference fs l o ≤ 0 := by
      rw [difference]
      omega
    rw [first, List.filter_eq_self.mpr fun p hp => henabled p (mem_inOrder.mp hp)]
    refine findSome?_of_pairwise (stablySorted_inOrder fs _).sorted (mem_inOrder.mpr ho) hlater
      (by simp [rivals, hne.symm]) ?_
    intro p hpo hpl
    simp [rivals, hpl, hpo]
  have hresult := (h .strict (rivals l o)).getResource.result
  rw [hwanted, getResource, lookupEnabled, lookup_ok hname hsort] at hresult
  simp only [askEnabled_eq, askAll_fst, hfound] at hresult
  exact absurd hresult (by decide)

end Needed

/-- **The lookups honour order and enablement**, whatever the proxies answer, exactly if all of them
are enabled and no two orders differ by more than an `int` can hold. If the orders are like that,
they do for given proxies exactly if `loadClass` finds the class before it comes to a disabled
one. -/
theorem honours_iff (fs : Fields π) (cmds : List (Cmd π)) {name : String}
    (hname : isBlank name = false) :
    ((∀ std (ms : Methods π κ), Honours std fs ms cmds name) ↔
      (∀ l ∈ inserted cmds, fs.enabled l = true) ∧ Close fs (inserted cmds)) ∧
    (Close fs (inserted cmds) → ∀ std (ms : Methods π κ), Honours std fs ms cmds name ↔
      DisabledBehind fs (ms.loadClass · name) (inOrder fs (inserted cmds))) := by
  refine ⟨⟨fun h => ⟨enabled_of_honours hname h, close_of_honours hname h⟩, ?_⟩,
    honours_iff_of_close hname⟩
  rintro ⟨henabled, hclose⟩ std ms
  rw [honours_iff_of_close hname hclose]
  intro pre l post heq hdisabled
  have hl : l ∈ inOrder fs (inserted cmds) := by
    rw [heq]
    simp
  rw [henabled l (mem_inOrder.mp hl)] at hdisabled
  cases hdisabled

/-! ### Delegation -/

section Delegation

open Zinzhi.Delegation (System State proxyLoadClass askLoaders idle)

variable {ℓ : Type} [DecidableEq ℓ] [DecidableEq π] {sys : System ℓ π κ} {ms : Methods π κ}
  (hsource : ∀ p, sys.source p = .classes (ms.loadClass p))

include hsource

omit [DecidableEq ℓ] in
lemma askLoaders_classes (name : String) (call) (loaders : List π) {s : State ℓ π}
    (hs : ∀ p, s.currentLoadAttempts p = ∅) :
    ∃ s', askLoaders sys name call loaders s =
      some (loaders.findSome? (ms.loadClass · name), s') := by
  induction loaders generalizing s with
  | nil => exact ⟨s, rfl⟩
  | cons p loaders ih =>
    have hp : Delegation.isAlreadyAttempted sys s p name = false := by
      simp [Delegation.isAlreadyAttempted, hs p]
    have hask : proxyLoadClass sys name call p s = some (ms.loadClass p name,
        Delegation.dismiss sys (Delegation.attempt sys s p name) p name) := by
      rw [proxyLoadClass, hp, hsource p]
      rfl
    have hdismiss := (Delegation.restored_dismiss hp (.refl _)).attempts
    rw [askLoaders, hask, List.findSome?_cons]
    cases hanswer : ms.loadClass p name with
    | some c => exact ⟨_, rfl⟩
    | none => exact ih fun q => by rw [hdismiss, hs q]

/-- **The two models of `loadClass` agree** on proxies with classes of their own. -/
theorem loadClass_delegation (std : SortMethod π) {fs : Fields π} {name : String}
    (horder : ∀ p, sys.order p = (fs.order p).toInt) (hname : isBlank name = false)
    (loaders : ℓ → List π) (l : ℓ) (hclose : Close fs (loaders l)) (fuel : ℕ) :
    ∃ clazz s', Delegation.loadClass sys name (fuel + 1) l (idle loaders) =
        some (Delegation.orNotFound name clazz, s') ∧
      (loadClass std fs ms name (loaders l)).result = orNotFound name clazz := by
  refine ⟨(inOrder fs (loaders l)).findSome? (ms.loadClass · name), ?_⟩
  have hsorted : (Delegation.sort sys (idle loaders) l).loaders l = inOrder fs (loaders l) := by
    simp [Delegation.sort, idle, inOrder, horder]
  obtain ⟨s', hask⟩ := askLoaders_classes hsource name (Delegation.loadClass sys name fuel)
    (inOrder fs (loaders l)) (s := Delegation.sort sys (idle loaders) l) fun p => rfl
  refine ⟨s', ?_, ?_⟩
  · rw [Delegation.loadClass, hname]
    simp only [Bool.false_eq_true, if_false, hsorted, hask]
    rfl
  · rw [loadClass_eq hname (sort_of_close std hclose)]

end Delegation

/-- The proxies of every loader, and one that is added to them. -/
inductive Proxy
  | system
  | parent
  | current
  | thread
  | added
  deriving DecidableEq, Repr

/-- With the order and the flag of the added one; those of the others are what their
constructors set. -/
def proxies (order : Int32) (enabled : Bool) : Fields Proxy where
  order
    | .system => 5
    | .parent => 3
    | .current => 2
    | .thread => 4
    | .added => order
  enabled l := l ≠ .added || enabled

/-- The constructor of `AbstractClassLoader` -/
def constructed : List (Cmd Proxy) :=
  [.addLoader .system, .addLoader .parent, .addLoader .current, .addLoader .thread]

lemma close_proxies (enabled : Bool) (loaders : List Proxy) :
    Close (proxies 5 enabled) loaders := by
  intro l _ o _
  cases enabled <;> cases l <;> cases o <;> decide

/-- One more proxy is added after a lookup. -/
theorem honours_addedLater :
    isBlank "a.B" = false ∧ ∀ std (ms : Methods Proxy ℕ), Honours std (proxies 5 true) ms
      (constructed ++ [.loadClass "a.B", .addLoader .added]) "a.B" := by
  have hname : isBlank "a.B" = false := by simp [isBlank]
  refine ⟨hname, (honours_iff (proxies 5 true) _ hname).1.mpr ⟨fun l _ => ?_, ?_⟩⟩
  · exact Bool.or_true _
  · exact close_proxies true _

def addedLast : List (Cmd Proxy) := constructed ++ [.addLoader .added]

def url : Proxy → String
  | .system => "file:system"
  | .parent => "file:parent"
  | .current => "file:current"
  | .thread => "file:thread"
  | .added => "file:added"

/-- Those of `has` have the class and the resources. -/
def having (has : Proxy → Bool) : Methods Proxy ℕ where
  loadClass l _ := if has l then some 7 else none
  getResource l _ := if has l then some (url l) else none
  loadResource l _ := if has l then some [7] else none
  findResource l _ := if has l then some (url l) else none
  getResources l _ := if has l then some [url l] else none
  findResources l _ := if has l then some [url l] else none

/-- Each difference from the smallest order overflows, so it counts as the largest. -/
lemma comparison_min :
    comparison (proxies (-2147483648) true) = fun l o =>
      (if l = .added then 2147483648 else ((proxies 0 true).order l).toInt) -
        if o = .added then 2147483648 else ((proxies 0 true).order o).toInt := by
  funext l o
  cases l <;> cases o <;> decide

lemma sort_min (std : SortMethod Proxy) :
    std.sort (comparison (proxies (-2147483648) true)) (inserted addedLast) =
      .ok [.current, .parent, .thread, .system, .added] := by
  rw [comparison_min]
  exact std.sort_eq ⟨fun l _ o _ => by omega, fun l _ o _ p _ => by omega⟩
    ⟨by decide, by decide, by decide⟩

/-- The disabled proxy gives the class, though no enabled one has it; and the proxy with the
smallest order is asked last for the resource. -/
theorem not_honours :
    (∀ std, (loadClass std (proxies 5 false) (having (· = .added)) "a.B"
          (inserted addedLast)).result = .ok (some 7) ∧
      ¬Honours std (proxies 5 false) (having (· = .added)) addedLast "a.B") ∧
    ∀ std, (getResource std (proxies (-2147483648) true) (having fun _ => true) "a.B"
          (inserted addedLast)).result = .ok (some "file:current") ∧
      ¬Honours std (proxies (-2147483648) true) (having fun _ => true) addedLast "a.B" := by
  have hname : isBlank "a.B" = false := by simp [isBlank]
  constructor
  · intro std
    have horder : inOrder (proxies 5 false) (inserted addedLast) =
        [.current, .parent, .thread, .system, .added] :=
      inOrder_of_stablySorted ⟨by decide, by decide, by decide⟩
    have hresult : (loadClass std (proxies 5 false) (having (· = .added)) "a.B"
        (inserted addedLast)).result = .ok (some 7) := by
      rw [loadClass_eq hname (sort_of_close std (close_proxies false _)), horder]
      rfl
    refine ⟨hresult, fun h => ?_⟩
    have hthrows := h.throws.mpr fun l _ henabled => by
      cases l with
      | added => cases henabled
      | _ => rfl
    exact absurd (hresult.symm.trans hthrows) (by simp)
  · intro std
    have hresult : (getResource std (proxies (-2147483648) true) (having fun _ => true) "a.B"
        (inserted addedLast)).result = .ok (some "file:current") := by
      rw [getResource, lookupEnabled, lookup_ok hname (sort_min std)]
      rfl
    refine ⟨hresult, fun h => ?_⟩
    have horder : inOrder (proxies (-2147483648) true) (inserted addedLast) =
        [.added, .current, .parent, .thread, .system] :=
      inOrder_of_stablySorted ⟨by decide, by decide, by decide⟩
    have hwanted : first (proxies (-2147483648) true) (inserted addedLast)
        ((having fun _ => true).getResource · "a.B") = some "file:added" := by
      rw [first, horder]
      rfl
    have heq := hresult.symm.trans (h.getResource.result.trans (congrArg Except.ok hwanted))
    exact absurd heq (by decide)

end Zinzhi.LoaderOrder
