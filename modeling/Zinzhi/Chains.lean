import Mathlib.Data.List.Nodup
import Mathlib.Logic.Function.Basic

/-!
Chains of cells, each of which holds the address of the next.

A chain is told by the cell that points to its first member, which need not be a member itself, and
by the list of its members. Taking a member out changes the cell in front of it only.
-/

namespace Zinzhi.Chains

variable {α : Type*} {null a o p : α} {next next' : α → Option α} {l r os : List α}

/-- The chain that the cell `a` points to. -/
def Chain (null : α) (next : α → Option α) : α → List α → Prop
  | a, [] => next a = some null
  | a, o :: os => next a = some o ∧ o ≠ null ∧ Chain null next o os

/-- The cell that points behind these members. -/
def lastCell (a : α) (l : List α) : α := l.getLastD a

@[simp] lemma lastCell_nil (a : α) : lastCell a [] = a := rfl

@[simp] lemma lastCell_cons (a o : α) (l : List α) : lastCell a (o :: l) = lastCell o l := by
  rw [lastCell, lastCell, List.getLastD_cons]

lemma lastCell_mem (a : α) (l : List α) : lastCell a l ∈ a :: l := by
  induction l generalizing a with
  | nil => simp
  | cons o l ih =>
    rw [lastCell_cons]
    exact List.mem_cons_of_mem a (ih o)

lemma Chain.congr (h : Chain null next a os) (hsame : ∀ x ∈ a :: os, next' x = next x) :
    Chain null next' a os := by
  induction os generalizing a with
  | nil => exact (hsame a (by simp)).trans h
  | cons o os ih =>
    obtain ⟨hnext, hne, hrest⟩ := h
    exact ⟨(hsame a (by simp)).trans hnext, hne, ih hrest fun x hx => hsame x (by simp_all)⟩

lemma Chain.split (h : Chain null next a (l ++ o :: r)) :
    next (lastCell a l) = some o ∧ Chain null next o r := by
  induction l generalizing a with
  | nil => exact ⟨h.1, h.2.2⟩
  | cons x l ih =>
    rw [lastCell_cons]
    exact ih h.2.2

/-- The members of a chain are what follows from its first cell, so no member comes twice. -/
lemma Chain.unique {os' : List α} (h : Chain null next a os) (h' : Chain null next a os') :
    os = os' := by
  induction os generalizing a os' with
  | nil =>
    cases os' with
    | nil => rfl
    | cons o os' =>
      obtain ⟨hnext, hne, -⟩ := h'
      have heq : some null = some o := h.symm.trans hnext
      exact absurd (Option.some.inj heq).symm hne
  | cons o os ih =>
    obtain ⟨hnext, hne, hrest⟩ := h
    cases os' with
    | nil =>
      have heq : some o = some null := hnext.symm.trans h'
      exact absurd (Option.some.inj heq) hne
    | cons o' os' =>
      obtain ⟨hnext', -, hrest'⟩ := h'
      obtain rfl : o = o' := Option.some.inj (hnext.symm.trans hnext')
      rw [ih hrest hrest']

lemma Chain.nodup (h : Chain null next a os) : os.Nodup := by
  induction os generalizing a with
  | nil => exact List.nodup_nil
  | cons o os ih =>
    obtain ⟨-, -, hrest⟩ := h
    refine List.nodup_cons.mpr ⟨fun hmem => ?_, ih hrest⟩
    -- a member that comes again has the same chain behind it twice
    obtain ⟨l, r, rfl⟩ := List.append_of_mem hmem
    have heq := hrest.unique hrest.split.2
    have := congrArg List.length heq
    simp at this
    omega

/-! Walks along a chain, up to a member. -/

lemma Chain.next_mem_or_null {x y : α} (h : Chain null next a os) (hx : x ∈ a :: os)
    (hnext : next x = some y) : y = null ∨ y ∈ os := by
  induction os generalizing a with
  | nil =>
    obtain rfl : x = a := by simpa using hx
    exact .inl (Option.some.inj (hnext.symm.trans h))
  | cons o os ih =>
    obtain ⟨ho, -, hrest⟩ := h
    rcases List.mem_cons.mp hx with rfl | hx
    · obtain rfl : y = o := Option.some.inj (hnext.symm.trans ho)
      exact .inr (List.mem_cons_self ..)
    · exact (ih hrest hx).imp_right (List.mem_cons_of_mem o)

lemma Chain.next_mem {x y : α} (h : Chain null next a (l ++ o :: r)) (hx : x ∈ a :: l)
    (hnext : next x = some y) (hy : y ≠ o) : y ∈ l := by
  induction l generalizing a with
  | nil =>
    obtain rfl : x = a := by simpa using hx
    exact absurd (Option.some.inj (hnext.symm.trans h.1)) hy
  | cons z l ih =>
    obtain ⟨hz, -, hrest⟩ := h
    rcases List.mem_cons.mp hx with rfl | hx
    · obtain rfl : y = z := Option.some.inj (hnext.symm.trans hz)
      exact List.mem_cons_self ..
    · exact List.mem_cons_of_mem z (ih hrest hx)

lemma Chain.lastCell_eq {x : α} (h : Chain null next a (l ++ o :: r)) (hx : x ∈ a :: l)
    (hnext : next x = some o) : lastCell a l = x := by
  induction l generalizing a with
  | nil => exact (List.mem_singleton.mp hx).symm
  | cons z l ih =>
    have hnodup := h.nodup
    obtain ⟨hz, -, hrest⟩ := h
    rw [lastCell_cons]
    rcases List.mem_cons.mp hx with rfl | hx
    · obtain rfl : o = z := Option.some.inj (hnext.symm.trans hz)
      simp at hnodup
    · exact ih hrest hx

/-- **A new member** behind the cell of another one. -/
lemma Chain.insert (h : Chain null next a (l ++ r)) (ha : a ∉ l) (ho : o ≠ null)
    (hlast : next' (lastCell a l) = some o) (hnext : next' o = next (lastCell a l))
    (hsame : ∀ x ∈ a :: (l ++ r), x ≠ lastCell a l → next' x = next x) (hr : lastCell a l ∉ r) :
    Chain null next' a (l ++ o :: r) := by
  induction l generalizing a with
  | nil =>
    rw [lastCell_nil] at hlast hnext hsame hr
    refine ⟨hlast, ho, ?_⟩
    cases r with
    | nil => exact hnext.trans h
    | cons x r =>
      obtain ⟨hx, hne, hrest⟩ := h
      refine ⟨hnext.trans hx, hne, hrest.congr fun y hy => hsame y (List.mem_cons_of_mem a hy) ?_⟩
      rintro rfl
      exact hr hy
  | cons x l ih =>
    have hnodup := h.nodup
    obtain ⟨hx, hne, hrest⟩ := h
    rw [lastCell_cons] at hlast hnext hsame hr
    have hne' : a ≠ lastCell x l := fun heq => ha (heq ▸ lastCell_mem x l)
    refine ⟨(hsame a (by simp) hne').trans hx, hne, ih hrest (fun hmem => ?_) hlast hnext
      (fun y hy => hsame y (List.mem_cons_of_mem a hy)) hr⟩
    exact (List.nodup_cons.mp hnodup).1 (List.mem_append_left r hmem)

lemma Chain.push (h : Chain null next a os) (ha : a ∉ os) (ho : o ≠ null) (hnext : next' a = some o)
    (hback : next' o = next a) (hsame : ∀ x ∈ os, next' x = next x) :
    Chain null next' a (o :: os) := by
  refine Chain.insert (l := []) h (by simp) ho hnext hback (fun x hx hne => ?_) ha
  exact hsame x ((List.mem_cons.mp hx).resolve_left hne)

lemma Chain.remove (h : Chain null next a (l ++ o :: r)) (ha : a ∉ l ++ o :: r)
    (hlast : next' (lastCell a l) = next o)
    (hsame : ∀ x ∈ a :: (l ++ r), x ≠ lastCell a l → next' x = next x) :
    Chain null next' a (l ++ r) := by
  induction l generalizing a with
  | nil =>
    obtain ⟨-, -, hrest⟩ := h
    rw [List.nil_append] at ha ⊢
    rw [lastCell_nil] at hlast hsame
    have hr : ∀ x ∈ r, next' x = next x := fun x hx =>
      hsame x (by simp [hx]) (by rintro rfl; exact ha (by simp [hx]))
    cases r with
    | nil => exact hlast.trans hrest
    | cons x r => exact ⟨hlast.trans hrest.1, hrest.2.1, hrest.2.2.congr hr⟩
  | cons x l ih =>
    have hnodup := h.nodup
    obtain ⟨hx, hne, hrest⟩ := h
    rw [lastCell_cons] at hlast hsame
    have hne' : a ≠ lastCell x l := by
      rintro rfl
      have := lastCell_mem x l
      simp only [List.cons_append, List.mem_cons, List.mem_append] at ha this
      tauto
    refine ⟨(hsame a (by simp) hne').trans hx, hne, ih hrest ?_ hlast fun y hy => hsame y ?_⟩
    · exact (List.nodup_cons.mp hnodup).1
    · simp only [List.cons_append, List.mem_cons] at hy ⊢
      tauto

/-- **The first member of a chain goes to another one.** -/
theorem Chain.transfer (next' : α → Option α) {b : α} (ha : Chain null next a (l ++ r))
    (hb : Chain null next b (o :: os)) (hnodup : (l ++ r ++ o :: os).Nodup)
    (hout : ∀ x ∈ l ++ r ++ o :: os, x ≠ a ∧ x ≠ b)
    (hab : a ≠ b) (hcut : next' b = next o) (hlast : next' (lastCell a l) = some o)
    (hnext : next' o = next (lastCell a l))
    (hsame : ∀ x, x ≠ b → x ≠ lastCell a l → x ≠ o → next' x = next x) :
    Chain null next' a (l ++ o :: r) ∧ Chain null next' b os := by
  obtain ⟨hlr, hoos, hdisjoint⟩ := List.nodup_append.mp hnodup
  obtain ⟨-, -, hlr'⟩ := List.nodup_append.mp hlr
  have hmem := lastCell_mem a l
  have hlastb : lastCell a l ≠ b := by
    rcases List.mem_cons.mp hmem with heq | hmem
    · rwa [heq]
    · exact (hout _ (by simp [hmem])).2
  refine ⟨ha.insert (fun hc => (hout a (by simp [hc])).1 rfl) hb.2.1 hlast hnext
    (fun x hx hne => ?_) fun hr => ?_, ?_⟩
  · -- the first chain, with the new member
    rcases List.mem_cons.mp hx with rfl | hx
    · exact hsame x hab hne (hout o (by simp)).1.symm
    · exact hsame x (hout x (List.mem_append_left _ hx)).2 hne (hdisjoint x hx o (by simp))
  · rcases List.mem_cons.mp hmem with heq | hmem
    · rw [heq] at hr
      exact (hout a (by simp [hr])).1 rfl
    · exact hlr' _ hmem _ hr rfl
  · -- the second one, without its head
    refine Chain.remove (l := []) hb (fun hc => (hout b (List.mem_append_right _ hc)).2 rfl) hcut
      fun x hx hne => ?_
    have hx : x ∈ os := (List.mem_cons.mp hx).resolve_left hne
    refine hsame x hne ?_ ?_
    · rintro rfl
      rcases List.mem_cons.mp hmem with heq | hmem
      · exact (hout _ (by simp [hx])).1 heq
      · exact hdisjoint _ (List.mem_append_left r hmem) _ (List.mem_cons_of_mem o hx) rfl
    · rintro rfl
      exact (List.nodup_cons.mp hoos).1 hx

/-! ### Families of chains -/

/-- The addresses in `P` are the members of chains, one for each index, that start from cells of
their own: `o` is a member of the chain `home o`. -/
structure Family {ι : Type*} (null : α) (next : α → Option α) (cell : ι → α) (P : α → Prop)
    (home : α → ι) : Prop where
  inj : Function.Injective cell
  apart : ∀ i, ¬P (cell i)
  chain : ∀ i, ∃ os, Chain null next (cell i) os ∧ ∀ o, o ∈ os ↔ P o ∧ home o = i

namespace Family

variable {ι : Type*} {cell : ι → α} {P : α → Prop} {home : α → ι} {i j : ι}

lemma of_iff {P' : α → Prop} (h : Family null next cell P home) (hP : ∀ x, P' x ↔ P x) :
    Family null next cell P' home := by
  obtain rfl : P' = P := funext fun x => propext (hP x)
  exact h

/-- Only the members and the cells that the chains start from matter. -/
lemma congr {home' : α → ι} (h : Family null next cell P home)
    (hcell : ∀ i, next' (cell i) = next (cell i)) (hnext : ∀ x, P x → next' x = next x)
    (hhome : ∀ x, P x → home' x = home x) : Family null next' cell P home' := by
  refine ⟨h.inj, h.apart, fun i => ?_⟩
  obtain ⟨os, hos, hmem⟩ := h.chain i
  refine ⟨os, hos.congr fun x hx => ?_, fun x => ?_⟩
  · rcases List.mem_cons.mp hx with rfl | hx
    · exact hcell i
    · exact hnext x ((hmem x).mp hx).1
  · rw [hmem]
    exact and_congr_right fun hx => by rw [hhome x hx]

lemma of_mem (h : Family null next cell P home) (hch : Chain null next (cell i) os) (ho : o ∈ os) :
    P o ∧ home o = i := by
  obtain ⟨os', hos', hmem⟩ := h.chain i
  rw [hch.unique hos'] at ho
  exact (hmem o).mp ho

lemma exists_split (h : Family null next cell P home) (ho : P o) :
    ∃ l r, Chain null next (cell (home o)) (l ++ o :: r) ∧
      ∀ x, x ∈ l ++ o :: r ↔ P x ∧ home x = home o := by
  obtain ⟨os, hos, hmem⟩ := h.chain (home o)
  obtain ⟨l, r, rfl⟩ := List.append_of_mem ((hmem o).mpr ⟨ho, rfl⟩)
  exact ⟨l, r, hos, hmem⟩

/-- **A member is taken out of its chain**: the cell in front of it points behind it. -/
theorem unlink (h : Family null next cell P home) (hch : Chain null next (cell i) (l ++ o :: r))
    (hmem : ∀ x, x ∈ l ++ o :: r ↔ P x ∧ home x = i)
    (hlast : next' (lastCell (cell i) l) = next o)
    (hsame : ∀ x, x ≠ o → x ≠ lastCell (cell i) l → next' x = next x) :
    Family null next' cell (fun x => P x ∧ x ≠ o) home := by
  have hnodup := hch.nodup
  refine ⟨h.inj, fun k hk => h.apart k hk.1, fun k => ?_⟩
  have hlastmem := lastCell_mem (cell i) l
  by_cases hk : k = i
  · -- the chain that `o` was in
    subst hk
    have ha : cell k ∉ l ++ o :: r := fun hc => h.apart k ((hmem _).mp hc).1
    have hol : o ∉ l ++ r := (List.nodup_middle.mp hnodup).notMem
    refine ⟨l ++ r, hch.remove ha hlast fun x hx hne => hsame x ?_ hne, fun x => ?_⟩
    · rintro rfl
      rcases List.mem_cons.mp hx with rfl | hx
      · exact ha (by simp)
      · exact hol hx
    · have hx := hmem x
      simp only [List.mem_append, List.mem_cons] at hx hol ⊢
      refine ⟨fun hxm => ?_, fun ⟨⟨hP, hne⟩, hhome⟩ => ?_⟩
      · have := hx.mp (by tauto)
        refine ⟨⟨this.1, ?_⟩, this.2⟩
        rintro rfl
        exact hol hxm
      · have := hx.mpr ⟨hP, hhome⟩
        tauto
  · -- another chain has neither `o` nor the cell in front of it
    obtain ⟨os, hos, hmemk⟩ := h.chain k
    have hno : ∀ x ∈ cell k :: os, x ∉ cell i :: (l ++ o :: r) := by
      intro x hx hx'
      rcases List.mem_cons.mp hx with rfl | hx
      · rcases List.mem_cons.mp hx' with hc | hx'
        · exact hk (h.inj hc)
        · exact h.apart k ((hmem _).mp hx').1
      · rcases List.mem_cons.mp hx' with rfl | hx'
        · exact h.apart i ((hmemk _).mp hx).1
        · exact hk (((hmemk x).mp hx).2.symm.trans ((hmem x).mp hx').2)
    refine ⟨os, hos.congr fun x hx => hsame x ?_ ?_, fun x => ?_⟩
    · rintro rfl
      exact hno x hx (by simp)
    · rintro rfl
      refine hno _ hx ?_
      rcases List.mem_cons.mp hlastmem with hc | hc
      · simp [hc]
      · simp [hc]
    · rw [hmemk]
      refine ⟨fun ⟨hP, hhome⟩ => ⟨⟨hP, ?_⟩, hhome⟩, fun ⟨⟨hP, _⟩, hhome⟩ => ⟨hP, hhome⟩⟩
      rintro rfl
      exact hk (hhome.symm.trans ((hmem x).mp (by simp)).2)

theorem push [DecidableEq α] (h : Family null next cell P home) (ho : ¬P o) (hnull : o ≠ null)
    (hcell : ∀ k, o ≠ cell k) (hj : next' (cell j) = some o) (hnext : next' o = next (cell j))
    (hsame : ∀ x, x ≠ o → x ≠ cell j → next' x = next x) :
    Family null next' cell (fun x => P x ∨ x = o) (Function.update home o j) := by
  refine ⟨h.inj, fun k hk => ?_, fun k => ?_⟩
  · rcases hk with hk | hk
    · exact h.apart k hk
    · exact hcell k hk.symm
  obtain ⟨os, hos, hmem⟩ := h.chain k
  have hno : o ∉ os := fun hc => ho ((hmem o).mp hc).1
  by_cases hk : k = j
  · -- the chain that gets the new member
    subst hk
    have hcellk : cell k ∉ os := fun hc => h.apart k ((hmem _).mp hc).1
    refine ⟨o :: os, hos.push hcellk hnull hj hnext fun x hx => hsame x ?_ ?_, fun x => ?_⟩
    · rintro rfl
      exact hno hx
    · rintro rfl
      exact hcellk hx
    · rw [List.mem_cons, hmem]
      by_cases hx : x = o
      · simp [hx]
      · simp [hx]
  · -- the others do not change
    refine ⟨os, hos.congr fun x hx => hsame x ?_ ?_, fun x => ?_⟩
    · rintro rfl
      rcases List.mem_cons.mp hx with hx | hx
      · exact hcell k hx
      · exact hno hx
    · rintro rfl
      rcases List.mem_cons.mp hx with hx | hx
      · exact hk (h.inj hx).symm
      · exact h.apart j ((hmem _).mp hx).1
    · rw [hmem]
      by_cases hx : x = o
      · simp [hx, ho, Ne.symm hk]
      · simp [hx]

end Family

end Zinzhi.Chains
