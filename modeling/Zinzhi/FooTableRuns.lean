import Zinzhi.Counting
import Zinzhi.FooTable

/-!
What holds on every run of the table: an object is allocated as long as somebody has a reference
to it, and not longer.
-/

namespace Zinzhi.FooTable

open Zinzhi.Chains Zinzhi.Counting Zinzhi.Threads

/-! ### What a thread knows where it is -/

def Is (Q : Foo → Prop) (heap : Heap) (p : ℕ) : Prop := ∃ foo, heap p = some foo ∧ Q foo

def Counts (P : ℕ → Prop) : Heap → ℕ → Prop := Is fun foo => P foo.count

/-- `tfp` comes before `fp` in its list. -/
def Before (heap : Heap) (fh : Fin NHASH → ℕ) (tfp fp : ℕ) : Prop :=
  ∃ l r, Chain (.inr 0) (nextCell heap fh) (.inl (bucket heap (.inr fp))) (l ++ .inr fp :: r) ∧
    .inr tfp ∈ l

/-- Nobody else can know the object. -/
def Private (idx : Fin NHASH) (foo : Foo) : Prop :=
  foo.count = 1 ∧ foo.locked = false ∧ HASH foo.id = idx

def Ok (heap : Heap) (fh : Fin NHASH → ℕ) (linked : ℕ → Prop) (l : Local) : Prop :=
  match l.point with
  | .out _ | .alloc _ | .findLock _ | .findHead _ | .findUnlock _ | .releBackHash => True
  | .allocLock p idx | .allocNext p idx => p ∈ l.held ∧ Is (Private idx) heap p
  | .allocHead p idx => p ∈ l.held ∧ Is (fun foo => Private idx foo ∧ foo.next = fh idx) heap p
  | .allocHold p | .allocUnlock p | .allocDone p | .holdLock p | .holdAdd p | .holdUnlock p
  | .findDone p | .releLock p | .releTest p | .releLast p | .releHash p | .releRelock p
  | .releRetest p => p ∈ l.held
  | .findWalk _ p => p = 0 ∨ linked p
  | .findHold p | .findAdd p => linked p
  | .releSub p | .releBackSub p => p ∈ l.held ∧ Counts (· ≠ 1) heap p
  | .releUnlock p | .releBack p => Counts (fun _ => True) heap p
  | .releHead p | .releUnhash p | .releUnhold p => p ∈ l.held ∧ Counts (· = 1) heap p
  | .releWalk p q => p ∈ l.held ∧ Counts (· = 1) heap p ∧ Before heap fh q p
  | .releFree p => p ∈ l.held ∧ Is (fun foo => foo.count = 1 ∧ foo.locked = false) heap p

variable {τ : Type*} {heap heap' : Heap} {fh fh' : Fin NHASH → ℕ} {linked linked' : ℕ → Prop}
  {l l' : Local} {p q : ℕ} {Q : Foo → Prop}

lemma Is.mono {Q' : Foo → Prop} (h : Is Q heap p) (hQ : ∀ foo, Q foo → Q' foo) : Is Q' heap p :=
  h.imp fun _ => And.imp_right (hQ _)

lemma Is.congr (h : Is Q heap p) (hsame : ∀ foo, heap p = some foo → heap' p = some foo) :
    Is Q heap' p :=
  h.imp fun _ => And.imp_left (hsame _)

lemma Counts.congr {P : ℕ → Prop} (h : Counts P heap p)
    (hsame : ∀ foo, heap p = some foo → Counts (· = foo.count) heap' p) : Counts P heap' p := by
  obtain ⟨foo, hfoo, hP⟩ := h
  obtain ⟨foo', hfoo', hcount⟩ := hsame foo hfoo
  refine ⟨foo', hfoo', ?_⟩
  dsimp only at hcount hP ⊢
  rwa [hcount]

/-- **What a thread knows stays true** as long as others leave alone what it has a lock for. -/
lemma Ok.frame (h : Ok heap fh linked l)
    (hcount : ∀ p, HasLock p l = true → ∀ foo, heap p = some foo →
      Counts (· = foo.count) heap' p)
    (hapart : ∀ p, Apart p l = true → ∀ foo, heap p = some foo → heap' p = some foo)
    (hhash : HasHash l = true → fh' = fh ∧ (∀ p, linked p → linked' p) ∧
      ∀ p q, Before heap fh q p → Before heap' fh' q p) :
    Ok heap' fh' linked' l := by
  obtain ⟨point, held⟩ := l
  cases point with
  | allocLock p idx => exact h.imp_right fun h => h.congr (hapart p (by simp [Apart]))
  | allocNext p idx => exact h.imp_right fun h => h.congr (hapart p (by simp [Apart]))
  | allocHead p idx =>
    obtain ⟨rfl, -⟩ := hhash rfl
    exact h.imp_right fun h => h.congr (hapart p (by simp [Apart]))
  | findWalk id p => exact h.imp_right ((hhash rfl).2.1 p)
  | findHold p => exact (hhash rfl).2.1 p h
  | findAdd p => exact (hhash rfl).2.1 p h
  | releSub p => exact h.imp_right fun h => h.congr (hcount p (by simp [HasLock]))
  | releBackSub p => exact h.imp_right fun h => h.congr (hcount p (by simp [HasLock]))
  | releUnlock p => exact Counts.congr (P := fun _ => True) h (hcount p (by simp [HasLock]))
  | releBack p => exact Counts.congr (P := fun _ => True) h (hcount p (by simp [HasLock]))
  | releHead p => exact h.imp_right fun h => h.congr (hcount p (by simp [HasLock]))
  | releUnhash p => exact h.imp_right fun h => h.congr (hcount p (by simp [HasLock]))
  | releUnhold p => exact h.imp_right fun h => h.congr (hcount p (by simp [HasLock]))
  | releWalk p q =>
    exact ⟨h.1, h.2.1.congr (hcount p (by simp [HasLock])), (hhash rfl).2.2 p q h.2.2⟩
  | releFree p => exact h.imp_right fun h => h.congr (hapart p (by simp [Apart]))
  | _ => exact h

lemma Ok.of_hasLock (h : Ok heap fh linked l) (hl : HasLock p l = true) :
    p ∈ l.held ∨ linked p ∨ Counts (fun _ => True) heap p := by
  obtain ⟨point, held⟩ := l
  cases point <;> simp only [HasLock, decide_eq_true_eq, reduceCtorEq] at hl <;> subst hl
  case findAdd => exact .inr (.inl h)
  case releUnlock => exact .inr (.inr h)
  case releBack => exact .inr (.inr h)
  case releSub | releBackSub | releHead | releUnhash | releUnhold | releWalk => exact .inl h.1
  all_goals exact .inl h

lemma Ok.of_apart (h : Ok heap fh linked l) (hl : Apart p l = true) :
    p ∈ l.held ∧ Counts (· = 1) heap p ∧
      (HasLock p l = true ∨ Is (fun foo => foo.locked = false) heap p) := by
  obtain ⟨point, held⟩ := l
  cases point <;> simp only [Apart, decide_eq_true_eq, reduceCtorEq] at hl <;> subst hl
  case releUnhash => exact ⟨h.1, h.2, .inl (by simp [HasLock])⟩
  case releUnhold => exact ⟨h.1, h.2, .inl (by simp [HasLock])⟩
  case releFree => exact ⟨h.1, h.2.mono fun _ => And.left, .inr (h.2.mono fun _ => And.right)⟩
  case allocHead =>
    exact ⟨h.1, h.2.mono fun _ h => h.1.1, .inr (h.2.mono fun _ h => h.1.2.1)⟩
  all_goals exact ⟨h.1, h.2.mono fun _ h => h.1, .inr (h.2.mono fun _ h => h.2.1)⟩

/-! ### The invariant -/

def refs (heap : Heap) (p : ℕ) : ℕ := (heap p).elim 0 Foo.count

lemma refs_some {foo : Foo} (h : heap p = some foo) : refs heap p = foo.count := by
  rw [refs, h]
  rfl

lemma refs_none (h : heap p = none) : refs heap p = 0 := by
  rw [refs, h]
  rfl

lemma refs_update_of_ne {x : Option Foo} (h : q ≠ p) :
    refs (Function.update heap p x) q = refs heap q := by
  rw [refs, Function.update_of_ne h]
  rfl

variable [Fintype τ]

/-- A count tells how many references the threads have, a lock whether one of them has it, and the
lists who is in the table. -/
structure Inv (c : Conf τ Table Local) : Prop where
  null : c.state.heap 0 = none
  hash : c.state.hashlock.toNat = count HasHash c.point
  lock : ∀ p foo, c.state.heap p = some foo → foo.locked.toNat = count (HasLock p) c.point
  refs : ∀ p, refs c.state.heap p = total (fun l => l.held.count p) c.point
  pos : ∀ p foo, c.state.heap p = some foo → 0 < foo.count
  ok : ∀ t, Ok c.state.heap c.state.fh (Linked c.state.heap c.point) (c.point t)
  table : Family (.inr 0) (nextCell c.state.heap c.state.fh) .inl
    (Member (Linked c.state.heap c.point)) (bucket c.state.heap)

variable {c : Conf τ Table Local} {t u : τ} {foo foo' : Foo}

lemma inv_start : Inv (start : Conf τ Table Local) where
  null := rfl
  hash := (count_const _ rfl).symm
  lock _ _ h := nomatch h
  refs _ := (total_const _ rfl).symm
  pos _ _ h := nomatch h
  ok _ := trivial
  table := by
    refine ⟨Sum.inl_injective, fun _ h => h, fun i => ⟨[], rfl, fun o => ?_⟩⟩
    cases o with
    | inl j => simp [Member]
    | inr p => simp [Member, Linked, start]

lemma Inv.exists_of_held (h : Inv c) (hp : p ∈ (c.point t).held) :
    ∃ foo, c.state.heap p = some foo := by
  cases hfoo : c.state.heap p with
  | some foo => exact ⟨foo, rfl⟩
  | none =>
    have hzero := h.refs p
    have hle : (c.point t).held.count p ≤ total (fun l => l.held.count p) c.point :=
      self_le_total (f := fun l : Local => l.held.count p) t
    have hpos := List.count_pos_iff.mpr hp
    rw [refs_none hfoo] at hzero
    omega

lemma Inv.locked_of_hasLock (h : Inv c) (hfoo : c.state.heap p = some foo)
    (ht : HasLock p (c.point t) = true) : foo.locked = true := by
  have hlock := h.lock p foo hfoo
  have hpos := count_pos ht
  cases hl : foo.locked with
  | true => rfl
  | false =>
    rw [hl, Bool.toNat_false] at hlock
    omega

lemma Inv.hashlock_of_hasHash (h : Inv c) (ht : HasHash (c.point t) = true) :
    c.state.hashlock = true := by
  have hhash := h.hash
  have hpos := count_pos ht
  cases hl : c.state.hashlock with
  | true => rfl
  | false =>
    rw [hl, Bool.toNat_false] at hhash
    omega

lemma Inv.exists_of_hasLock (h : Inv c) (ht : HasLock p (c.point t) = true) :
    ∃ foo, c.state.heap p = some foo := by
  rcases (h.ok t).of_hasLock ht with hp | hp | ⟨foo, hfoo, -⟩
  · exact h.exists_of_held hp
  · exact Option.isSome_iff_exists.mp hp.1
  · exact ⟨foo, hfoo⟩

variable [DecidableEq τ]

lemma Inv.hash_excl (h : Inv c) (ht : HasHash (c.point t) = true)
    (hu : HasHash (c.point u) = true) : t = u :=
  eq_of_count_le_one (h.hash ▸ Bool.toNat_le _) ht hu

lemma Inv.lock_excl (h : Inv c) (ht : HasLock p (c.point t) = true)
    (hu : HasLock p (c.point u) = true) : t = u := by
  obtain ⟨foo, hfoo⟩ := h.exists_of_hasLock ht
  exact eq_of_count_le_one (h.lock p foo hfoo ▸ Bool.toNat_le _) ht hu

lemma Inv.sole (h : Inv c) (hcount : Counts (· = 1) c.state.heap p) (hu : p ∈ (c.point u).held)
    (ht : p ∈ (c.point t).held) : t = u := by
  obtain ⟨foo, hfoo, hone⟩ := hcount
  by_contra hne
  have hle : (c.point t).held.count p + (c.point u).held.count p ≤
      total (fun l => l.held.count p) c.point :=
    add_le_total (f := fun l : Local => l.held.count p) hne
  have hrefs := h.refs p
  rw [refs_some hfoo] at hrefs
  have ht' := List.count_pos_iff.mpr ht
  have hu' := List.count_pos_iff.mpr hu
  dsimp only at hone
  omega

def Touches (c : Conf τ Table Local) (t : τ) (p : ℕ) : Prop :=
  p ∈ (c.point t).held ∨ Linked c.state.heap c.point p ∨ HasLock p (c.point t) = true

/-- Nobody else can use what is apart. -/
lemma Inv.eq_of_apart (h : Inv c) (hu : Apart p (c.point u) = true) (ht : Touches c t p) :
    t = u := by
  obtain ⟨hheld, hcount, hlock⟩ := (h.ok u).of_apart hu
  rcases ht with ht | ht | ht
  · exact h.sole hcount hheld ht
  · have := ht.2 u
    rw [hu] at this
    cases this
  · rcases hlock with hlock | ⟨foo, hfoo, hfree⟩
    · exact h.lock_excl ht hlock
    · rw [h.locked_of_hasLock hfoo ht] at hfree
      cases hfree

omit [DecidableEq τ] in
lemma Inv.ne_null (h : Inv c) (hfoo : c.state.heap p = some foo) : p ≠ 0 := by
  rintro rfl
  rw [h.null] at hfoo
  cases hfoo

omit [Fintype τ] [DecidableEq τ] in
lemma not_linked_of_apart {ls : τ → Local} (ht : Apart p (ls t) = true) : ¬Linked heap ls p := by
  intro hlinked
  have := hlinked.2 t
  rw [ht] at this
  cases this

lemma Inv.alone_of_apart (h : Inv c) (ht : Apart p (c.point t) = true) (hu : u ≠ t) :
    HasLock p (c.point u) = false ∧ Apart p (c.point u) = false := by
  constructor <;> by_contra hne
  · exact hu (h.eq_of_apart ht (.inr (.inr (Bool.eq_true_of_not_eq_false hne))))
  · exact hu (h.eq_of_apart (Bool.eq_true_of_not_eq_false hne) (.inl ((h.ok t).of_apart ht).1)).symm

/-! ### Steps that leave the lists as they are -/

omit [Fintype τ] in
lemma apart_update_iff (hapart : Apart q l' = Apart q (c.point t)) :
    (∀ u, Apart q (Function.update c.point t l' u) = false) ↔
      ∀ u, Apart q (c.point u) = false := by
  refine forall_congr' fun u => ?_
  by_cases hu : u = t
  · subst hu
    rw [Function.update_self, hapart]
  · rw [Function.update_of_ne hu]

omit [Fintype τ] in
lemma linked_update (hapart : ∀ q, Apart q l' = Apart q (c.point t)) :
    Linked heap (Function.update c.point t l') = Linked heap c.point :=
  funext fun q => propext (and_congr_right fun _ => apart_update_iff (hapart q))

/-- A thread goes on and changes `hashlock` at most. -/
lemma Inv.quiet (h : Inv c) {b : Bool} (hheld : l'.held = (c.point t).held)
    (hhash : b.toNat + (HasHash (c.point t)).toNat =
      c.state.hashlock.toNat + (HasHash l').toNat)
    (hlock : ∀ p, HasLock p l' = HasLock p (c.point t))
    (hapart : ∀ p, Apart p l' = Apart p (c.point t))
    (hok : Ok c.state.heap c.state.fh (Linked c.state.heap c.point) l') :
    Inv ⟨{ c.state with hashlock := b }, Function.update c.point t l'⟩ := by
  have hlinked : Linked c.state.heap (Function.update c.point t l') = Linked c.state.heap c.point :=
    linked_update hapart
  refine ⟨h.null, ?_, fun p foo hfoo => ?_, fun p => ?_, h.pos, ?_, ?_⟩ <;> dsimp only
  · have := count_update (P := HasHash) c.point t l'
    have := h.hash
    omega
  · rw [count_update_of_eq (hlock p)]
    exact h.lock p foo hfoo
  · rw [total_update_of_eq (by rw [hheld])]
    exact h.refs p
  · rw [hlinked]
    exact (Function.forall_update_iff c.point fun _ l => Ok _ _ _ l).mpr ⟨hok, fun u _ => h.ok u⟩
  · rw [hlinked]
    exact h.table

/-- What an update of an object leaves alone. -/
lemma nextCell_update (hfoo : heap p = some foo) (hnext : foo'.next = foo.next) :
    nextCell (Function.update heap p (some foo')) fh = nextCell heap fh := by
  funext x
  cases x with
  | inl i => rfl
  | inr q =>
    by_cases hq : q = p
    · subst hq
      simp [nextCell, hfoo, hnext]
    · simp [nextCell, Function.update_of_ne hq]

lemma bucket_update (hfoo : heap p = some foo) (hid : foo'.id = foo.id) :
    bucket (Function.update heap p (some foo')) = bucket heap := by
  funext x
  cases x with
  | inl i => rfl
  | inr q =>
    by_cases hq : q = p
    · subst hq
      simp [bucket, hfoo, hid]
    · simp [bucket, Function.update_of_ne hq]

omit [Fintype τ] [DecidableEq τ] in
lemma linked_heap (hfoo : heap p = some foo) (ls : τ → Local) :
    Linked (Function.update heap p (some foo')) ls = Linked heap ls := by
  funext q
  refine propext (and_congr_left fun _ => ?_)
  by_cases hq : q = p
  · subst hq
    simp [hfoo]
  · rw [Function.update_of_ne hq]

lemma forall_object_update {x : Option Foo} (P : ℕ → Foo → Prop) :
    (∀ q bar, Function.update heap p x q = some bar → P q bar) ↔
      (∀ bar, x = some bar → P p bar) ∧ ∀ q ≠ p, ∀ bar, heap q = some bar → P q bar :=
  Function.forall_update_iff heap fun q y => ∀ bar, y = some bar → P q bar

/-- **A thread changes the lock or the count of an object.** -/
lemma Inv.modify (h : Inv c) (hfoo : c.state.heap p = some foo) (hid : foo'.id = foo.id)
    (hnext : foo'.next = foo.next) (htouch : Touches c t p)
    (hcount : foo'.count = foo.count ∨ HasLock p (c.point t) = true)
    (hhash : HasHash l' = HasHash (c.point t))
    (hlock : foo'.locked.toNat + (HasLock p (c.point t)).toNat =
      foo.locked.toNat + (HasLock p l').toNat)
    (hlock' : ∀ q ≠ p, HasLock q l' = HasLock q (c.point t))
    (hapart : ∀ q, Apart q l' = Apart q (c.point t))
    (hrefs : foo'.count + (c.point t).held.count p = foo.count + l'.held.count p)
    (hrefs' : ∀ q ≠ p, l'.held.count q = (c.point t).held.count q) (hpos : 0 < foo'.count)
    (hok : Ok (Function.update c.state.heap p (some foo')) c.state.fh
      (Linked c.state.heap c.point) l') :
    Inv ⟨c.state.set p foo', Function.update c.point t l'⟩ := by
  have hlinked :
      Linked (Function.update c.state.heap p (some foo')) (Function.update c.point t l') =
        Linked c.state.heap c.point := (linked_heap hfoo _).trans (linked_update hapart)
  refine ⟨?_, ?_, ?_, fun q => ?_, ?_, ?_, ?_⟩ <;> dsimp only [Table.set] at *
  · rw [Function.update_of_ne (h.ne_null hfoo).symm, h.null]
  · rw [count_update_of_eq hhash]
    exact h.hash
  · -- its lock, and those of the others
    refine (forall_object_update _).mpr ⟨?_, fun q hq bar hbar => ?_⟩
    · rintro _ ⟨⟩
      have := count_update (P := HasLock p) c.point t l'
      have := h.lock p foo hfoo
      omega
    · rw [count_update_of_eq (hlock' q hq)]
      exact h.lock q bar hbar
  · -- the references to it, and to the others
    have hupd := total_update (f := fun l : Local => l.held.count q) c.point t l'
    have hrefs₀ := h.refs q
    by_cases hq : q = p
    · subst hq
      rw [refs_some hfoo] at hrefs₀
      rw [refs_some (Function.update_self ..)]
      omega
    · rw [refs_update_of_ne hq]
      exact hrefs₀.trans (Eq.symm (total_update_of_eq (hrefs' q hq)))
  · refine (forall_object_update _).mpr ⟨?_, fun q _ => h.pos q⟩
    rintro _ ⟨⟩
    exact hpos
  · -- what the other threads know
    rw [hlinked]
    refine (Function.forall_update_iff c.point fun _ l => Ok _ _ _ l).mpr ⟨hok, fun u hu => ?_⟩
    refine (h.ok u).frame (fun q hq bar hbar => ?_) (fun q hq bar hbar => ?_) fun _ =>
      ⟨rfl, fun _ => id, fun q r hbefore => ?_⟩
    · by_cases hqp : q = p
      · subst hqp
        have heq : foo'.count = foo.count :=
          hcount.resolve_right fun ht => hu (h.lock_excl hq ht)
        rw [hfoo] at hbar
        cases hbar
        exact ⟨foo', Function.update_self .., heq⟩
      · exact ⟨bar, (Function.update_of_ne hqp ..).trans hbar, rfl⟩
    · have hqp : q ≠ p := by
        rintro rfl
        exact hu (h.eq_of_apart hq htouch).symm
      exact (Function.update_of_ne hqp ..).trans hbar
    · unfold Before at hbefore ⊢
      rwa [nextCell_update hfoo hnext, bucket_update hfoo hid]
  · rw [hlinked, nextCell_update hfoo hnext, bucket_update hfoo hid]
    exact h.table

/-- What happens to an object outside of the table does not matter to its lists. -/
lemma nextCell_of_ne {x : Option Foo} (h : q ≠ p) :
    nextCell (Function.update heap p x) fh (.inr q) = nextCell heap fh (.inr q) := by
  simp [nextCell, Function.update_of_ne h]

lemma bucket_of_ne {x : Option Foo} (h : q ≠ p) :
    bucket (Function.update heap p x) (.inr q) = bucket heap (.inr q) := by
  simp [bucket, Function.update_of_ne h]

omit [DecidableEq τ] in
lemma Inv.ne_of_member (h : Inv c) (hp : ¬Linked c.state.heap c.point p) {i : Fin NHASH}
    {os : List Cell} (hos : Chain (.inr 0) (nextCell c.state.heap c.state.fh) (.inl i) os) :
    .inr p ∉ os :=
  fun hmem => hp (h.table.of_mem hos hmem).1

omit [DecidableEq τ] in
lemma Inv.before_update (h : Inv c) (hp : ¬Linked c.state.heap c.point p) {x : Option Foo} {fp : ℕ}
    (hbefore : Before c.state.heap c.state.fh q fp) :
    Before (Function.update c.state.heap p x) c.state.fh q fp := by
  obtain ⟨l, r, hos, hq⟩ := hbefore
  have hno := h.ne_of_member hp hos
  have hfp : fp ≠ p := by
    rintro rfl
    exact hno (by simp)
  refine ⟨l, r, ?_, hq⟩
  rw [bucket_of_ne hfp]
  refine hos.congr fun y hy => ?_
  cases y with
  | inl i => rfl
  | inr y =>
    refine nextCell_of_ne ?_
    rintro rfl
    exact hno (by simpa using hy)

omit [Fintype τ] in
lemma linked_replace {x : Option Foo} (hnot : ¬Linked heap c.point p)
    (hnot' : ¬Linked (Function.update heap p x) (Function.update c.point t l') p)
    (hapart : ∀ q ≠ p, Apart q l' = Apart q (c.point t)) :
    Linked (Function.update heap p x) (Function.update c.point t l') = Linked heap c.point := by
  funext q
  refine propext ?_
  by_cases hq : q = p
  · subst hq
    exact iff_of_false hnot' hnot
  · exact and_congr (by rw [Function.update_of_ne hq]) (apart_update_iff (hapart q hq))

/-- **A thread changes an object that only it can use**, and that stays out of the table. -/
lemma Inv.replace (h : Inv c) {x : Option Foo} (hnull : p ≠ 0)
    (hnot : ¬Linked c.state.heap c.point p)
    (hnot' : ¬Linked (Function.update c.state.heap p x) (Function.update c.point t l') p)
    (hapart : ∀ q ≠ p, Apart q l' = Apart q (c.point t))
    (hothers : ∀ u ≠ t, HasLock p (c.point u) = false ∧ Apart p (c.point u) = false)
    (hhash : HasHash l' = HasHash (c.point t))
    (hlock : ∀ q, HasLock q l' = HasLock q (c.point t))
    (hfree : ∀ foo', x = some foo' → foo'.locked.toNat = count (HasLock p) c.point)
    (hrefs : x.elim 0 Foo.count + (c.point t).held.count p =
      FooTable.refs c.state.heap p + l'.held.count p)
    (hrefs' : ∀ q ≠ p, l'.held.count q = (c.point t).held.count q)
    (hpos : ∀ foo', x = some foo' → 0 < foo'.count)
    (hok : Ok (Function.update c.state.heap p x) c.state.fh (Linked c.state.heap c.point) l') :
    Inv ⟨{ c.state with heap := Function.update c.state.heap p x },
      Function.update c.point t l'⟩ := by
  have hlinked := linked_replace hnot hnot' hapart
  refine ⟨?_, ?_, ?_, fun q => ?_, ?_, ?_, ?_⟩ <;> dsimp only at *
  · rw [Function.update_of_ne hnull.symm, h.null]
  · rw [count_update_of_eq hhash]
    exact h.hash
  · simp only [count_update_of_eq (hlock _)]
    exact (forall_object_update _).mpr ⟨hfree, fun q _ => h.lock q⟩
  · have hupd := total_update (f := fun l : Local => l.held.count q) c.point t l'
    have hrefs₀ := h.refs q
    by_cases hq : q = p
    · subst hq
      have hx : FooTable.refs (Function.update c.state.heap q x) q = x.elim 0 Foo.count := by
        rw [FooTable.refs, Function.update_self]
      omega
    · rw [refs_update_of_ne hq]
      exact hrefs₀.trans (Eq.symm (total_update_of_eq (hrefs' q hq)))
  · exact (forall_object_update _).mpr ⟨hpos, fun q _ => h.pos q⟩
  · -- what the others know is about other objects
    rw [hlinked]
    refine (Function.forall_update_iff c.point fun _ l => Ok _ _ _ l).mpr ⟨hok, fun u hu => ?_⟩
    obtain ⟨hul, hua⟩ := hothers u hu
    refine (h.ok u).frame (fun q hq bar hbar => ?_) (fun q hq bar hbar => ?_) fun _ =>
      ⟨rfl, fun _ => id, fun q r hbefore => h.before_update hnot hbefore⟩
    · have hqp : q ≠ p := by
        rintro rfl
        rw [hul] at hq
        cases hq
      exact ⟨bar, (Function.update_of_ne hqp ..).trans hbar, rfl⟩
    · have hqp : q ≠ p := by
        rintro rfl
        rw [hua] at hq
        cases hq
      exact (Function.update_of_ne hqp ..).trans hbar
  · -- the lists do not lead to the object
    rw [hlinked]
    have hne : ∀ q, Member (Linked c.state.heap c.point) (.inr q) → q ≠ p := by
      rintro q hq rfl
      exact hnot hq
    refine h.table.congr (fun i => rfl) (fun y hy => ?_) fun y hy => ?_ <;> cases y with
    | inl i => rfl
    | inr q => first | exact nextCell_of_ne (hne q hy) | exact bucket_of_ne (hne q hy)

/-! ### Steps that change the lists -/

/-- **A thread with `hashlock` changes the lists.** -/
lemma Inv.relink (h : Inv c) (hheld : l'.held = (c.point t).held)
    (hsame : ∀ q, heap' q = c.state.heap q ∨ Linked c.state.heap c.point q ∧
      ∃ foo foo', c.state.heap q = some foo ∧ heap' q = some foo' ∧ foo'.count = foo.count ∧
        foo'.locked = foo.locked)
    (hhash : HasHash (c.point t) = true) (hhash' : HasHash l' = true)
    (hlock : ∀ q, HasLock q l' = HasLock q (c.point t))
    (htable : Family (.inr 0) (nextCell heap' fh') .inl
      (Member (Linked heap' (Function.update c.point t l'))) (bucket heap'))
    (hok : Ok heap' fh' (Linked heap' (Function.update c.point t l')) l') :
    Inv ⟨⟨heap', fh', c.state.hashlock⟩, Function.update c.point t l'⟩ := by
  have hfoo : ∀ q bar, heap' q = some bar →
      ∃ foo, c.state.heap q = some foo ∧ bar.count = foo.count ∧ bar.locked = foo.locked := by
    intro q bar hbar
    rcases hsame q with hq | ⟨-, foo, foo', hq, hq', hcount, hlocked⟩
    · exact ⟨bar, hq.symm.trans hbar, rfl, rfl⟩
    · obtain rfl : foo' = bar := Option.some.inj (hq'.symm.trans hbar)
      exact ⟨foo, hq, hcount, hlocked⟩
  have hnone : ∀ q, c.state.heap q = none → heap' q = none := by
    intro q hq
    cases hq' : heap' q with
    | none => rfl
    | some bar =>
      obtain ⟨foo, hfoo, -⟩ := hfoo q bar hq'
      rw [hq] at hfoo
      cases hfoo
  refine ⟨hnone 0 h.null, ?_, fun q bar hbar => ?_, fun q => ?_, fun q bar hbar => ?_,
    ?_, htable⟩ <;> dsimp only at *
  · rw [count_update_of_eq (hhash'.trans hhash.symm)]
    exact h.hash
  · obtain ⟨foo, hfoo, -, hlocked⟩ := hfoo q bar hbar
    rw [hlocked, h.lock q foo hfoo, count_update_of_eq (hlock q)]
  · have hrefs : FooTable.refs heap' q = FooTable.refs c.state.heap q := by
      rcases hsame q with hq | ⟨-, foo, foo', hq, hq', hcount, -⟩
      · rw [FooTable.refs, hq]
        rfl
      · rw [refs_some hq, refs_some hq', hcount]
    rw [hrefs, h.refs, total_update_of_eq (by rw [hheld])]
  · obtain ⟨foo, hfoo, hcount, -⟩ := hfoo q bar hbar
    rw [hcount]
    exact h.pos q foo hfoo
  · -- no other thread has `hashlock`
    refine (Function.forall_update_iff c.point fun _ l => Ok _ _ _ l).mpr ⟨hok, fun u hu => ?_⟩
    refine (h.ok u).frame (fun q hq bar hbar => ?_) (fun q hq bar hbar => ?_) fun hu' =>
      absurd (h.hash_excl hu' hhash) hu
    · rcases hsame q with hq | ⟨-, foo, foo', hq, hq', hcount, -⟩
      · exact ⟨bar, hq.trans hbar, rfl⟩
      · obtain rfl : foo = bar := Option.some.inj (hq.symm.trans hbar)
        exact ⟨foo', hq', hcount⟩
    · rcases hsame q with hq | ⟨hlinked, -⟩
      · exact hq.trans hbar
      · have := hlinked.2 u
        rw [hq] at this
        cases this

/-! ### Statements -/

/-- The thread is about to count one more reference to an object than an `int` can hold. -/
def Overflows (c : Conf τ Table Local) (t : τ) : Prop :=
  ∃ p, ((c.point t).point = .holdAdd p ∨ (c.point t).point = .findAdd p) ∧
    INT_MAX ≤ total (fun l => l.held.count p) c.point

/-- A statement does nothing forbidden and keeps the invariant. -/
def Fine (c : Conf τ Table Local) (t : τ) : FooMove → Prop
  | .blocked => True
  | .fault => Overflows c t
  | .goes s l _ => Inv ⟨s, Function.update c.point t l⟩

omit [DecidableEq τ] in
lemma Inv.exists_of_touches (h : Inv c) (ht : Touches c t p) :
    ∃ foo, c.state.heap p = some foo := by
  rcases ht with ht | ht | ht
  · exact h.exists_of_held ht
  · exact Option.isSome_iff_exists.mp ht.1
  · exact h.exists_of_hasLock ht

section Statements

variable {point : Point} (h : Inv c) (hl : c.point t = l)
include h hl

lemma Inv.fine_goTo (hhash : HasHash { l with point := point } = HasHash l)
    (hlock : ∀ p, HasLock p { l with point := point } = HasLock p l)
    (hapart : ∀ p, Apart p { l with point := point } = Apart p l)
    (hok : Ok c.state.heap c.state.fh (Linked c.state.heap c.point) { l with point := point }) :
    Fine c t (goTo c.state l point) := by
  subst hl
  exact h.quiet rfl (by rw [hhash]) hlock hapart hok

lemma Inv.fine_lockHash (hhash : HasHash l = false)
    (hhash' : HasHash { l with point := point } = true)
    (hlock : ∀ p, HasLock p { l with point := point } = HasLock p l)
    (hapart : ∀ p, Apart p { l with point := point } = Apart p l)
    (hok : Ok c.state.heap c.state.fh (Linked c.state.heap c.point) { l with point := point }) :
    Fine c t (lockHash c.state l point) := by
  subst hl
  unfold lockHash
  split_ifs with hfree
  · trivial
  · refine h.quiet rfl ?_ hlock hapart hok
    rw [hhash, hhash', Bool.eq_false_of_not_eq_true hfree]
    rfl

lemma Inv.fine_unlockHash (hhash : HasHash l = true)
    (hhash' : HasHash { l with point := point } = false)
    (hlock : ∀ p, HasLock p { l with point := point } = HasLock p l)
    (hapart : ∀ p, Apart p { l with point := point } = Apart p l)
    (hok : Ok c.state.heap c.state.fh (Linked c.state.heap c.point) { l with point := point }) :
    Fine c t (unlockHash c.state l point) := by
  subst hl
  have hhas := h.hashlock_of_hasHash hhash
  rw [unlockHash, if_pos hhas]
  refine h.quiet rfl ?_ hlock hapart hok
  rw [hhash, hhash', hhas]
  rfl

lemma Inv.fine_lockFoo (htouch : Touches c t p)
    (hhash : HasHash { l with point := point } = HasHash l) (hlock : ∀ q, HasLock q l = false)
    (hlock' : ∀ q, HasLock q { l with point := point } = decide (p = q))
    (hapart : ∀ q, Apart q { l with point := point } = Apart q l)
    (hok : ∀ heap, Ok heap c.state.fh (Linked c.state.heap c.point) { l with point := point }) :
    Fine c t (lockFoo c.state l p point) := by
  subst hl
  obtain ⟨foo, hfoo⟩ := h.exists_of_touches htouch
  simp only [lockFoo, onFoo, hfoo]
  split_ifs with hfree
  · trivial
  · refine h.modify hfoo rfl rfl htouch (.inl rfl) hhash ?_ (fun q hq => ?_) hapart rfl
      (fun _ _ => rfl) (h.pos p foo hfoo) (hok _)
    · rw [hlock, hlock', Bool.eq_false_of_not_eq_true hfree, decide_eq_true rfl]
      rfl
    · rw [hlock, hlock', decide_eq_false hq.symm]

lemma Inv.fine_unlockFoo (hhash : HasHash { l with point := point } = HasHash l)
    (hlock : ∀ q, HasLock q l = decide (p = q))
    (hlock' : ∀ q, HasLock q { l with point := point } = false)
    (hapart : ∀ q, Apart q { l with point := point } = Apart q l)
    (hok : ∀ foo, c.state.heap p = some foo →
      Ok (Function.update c.state.heap p (some { foo with locked := false })) c.state.fh
        (Linked c.state.heap c.point) { l with point := point }) :
    Fine c t (unlockFoo c.state l p point) := by
  subst hl
  have hhas : HasLock p (c.point t) = true := by rw [hlock, decide_eq_true rfl]
  obtain ⟨foo, hfoo⟩ := h.exists_of_hasLock hhas
  have hlocked := h.locked_of_hasLock hfoo hhas
  simp only [unlockFoo, onFoo, hfoo, if_pos hlocked]
  refine h.modify hfoo rfl rfl (.inr (.inr hhas)) (.inl rfl) hhash ?_ (fun q hq => ?_) hapart rfl
    (fun _ _ => rfl) (h.pos p foo hfoo) (hok foo hfoo)
  · rw [hhas, hlock', hlocked]
    rfl
  · rw [hlock, hlock', decide_eq_false hq.symm]

lemma Inv.fine_addRef (hpoint : l.point = .holdAdd p ∨ l.point = .findAdd p)
    (hhas : HasLock p l = true)
    (hhash : HasHash ⟨point, p :: l.held⟩ = HasHash l)
    (hlock : ∀ q, HasLock q ⟨point, p :: l.held⟩ = HasLock q l)
    (hapart : ∀ q, Apart q ⟨point, p :: l.held⟩ = Apart q l)
    (hok : ∀ heap, Ok heap c.state.fh (Linked c.state.heap c.point) ⟨point, p :: l.held⟩) :
    Fine c t (addRef c.state l p point) := by
  subst hl
  obtain ⟨foo, hfoo⟩ := h.exists_of_hasLock hhas
  simp only [addRef, onFoo, hfoo]
  split_ifs with hmax
  · refine ⟨p, hpoint, ?_⟩
    rwa [← h.refs, refs_some hfoo]
  · refine h.modify hfoo rfl rfl (.inr (.inr hhas)) (.inr hhas) hhash (by rw [hlock])
      (fun q _ => hlock q) hapart ?_ (fun q hq => ?_) (Nat.succ_pos _) (hok _)
    · rw [List.count_cons_self]
      dsimp only
      omega
    · rw [List.count_cons_of_ne hq.symm]

lemma Inv.fine_subRef (hhas : HasLock p l = true) (hheld : p ∈ l.held)
    (hmore : Counts (· ≠ 1) c.state.heap p)
    (hhash : HasHash ⟨point, l.held.erase p⟩ = HasHash l)
    (hlock : ∀ q, HasLock q ⟨point, l.held.erase p⟩ = HasLock q l)
    (hapart : ∀ q, Apart q ⟨point, l.held.erase p⟩ = Apart q l)
    (hok : ∀ heap, Is (fun _ => True) heap p →
      Ok heap c.state.fh (Linked c.state.heap c.point) ⟨point, l.held.erase p⟩) :
    Fine c t (subRef c.state l p point) := by
  subst hl
  obtain ⟨foo, hfoo, hne⟩ := hmore
  have hpos := h.pos p foo hfoo
  have hcount := List.count_pos_iff.mpr hheld
  simp only [subRef, onFoo, hfoo]
  refine h.modify hfoo rfl rfl (.inl hheld) (.inr hhas) hhash (by rw [hlock])
    (fun q _ => hlock q) hapart ?_ (fun q hq => ?_) ?_ (hok _ ⟨_, Function.update_self .., trivial⟩)
  · rw [List.count_erase_self]
    dsimp only
    omega
  · rw [List.count_erase_of_ne hq]
  · dsimp only at hne ⊢
    omega

end Statements

/-! ### Objects come and go -/

lemma Inv.fine_alloc (h : Inv c) (hfresh : Fresh c.state.heap p) {id : ℤ} {held : List ℕ}
    (hl : c.point t = ⟨.alloc id, held⟩) : Fine c t (nextAlloc p c.state ⟨.alloc id, held⟩ id) := by
  unfold nextAlloc
  split_ifs with hnull
  · -- `malloc` has failed
    exact h.fine_goTo hl rfl (fun _ => rfl) (fun _ => rfl) trivial
  have hnone : c.state.heap p = none := hfresh.resolve_left hnull
  have hnot : ¬Linked c.state.heap c.point p := fun hlinked => by
    have := hlinked.1
    simp [hnone] at this
  have hlock : ∀ u, HasLock p (c.point u) = false := fun u => by
    by_contra hu
    obtain ⟨foo, hfoo⟩ := h.exists_of_hasLock (Bool.eq_true_of_not_eq_false hu)
    rw [hnone] at hfoo
    cases hfoo
  refine h.replace hnull hnot (not_linked_of_apart (t := t) ?_) (fun q hq => ?_)
    (fun u _ => ⟨hlock u, ?_⟩) (by rw [hl]; rfl) (fun q => by rw [hl]; rfl) ?_ ?_ ?_ ?_ ?_
  · rw [Function.update_self]
    exact decide_eq_true rfl
  · rw [hl]
    exact decide_eq_false hq.symm
  · by_contra hu
    obtain ⟨-, ⟨foo, hfoo, -⟩, -⟩ := (h.ok u).of_apart (Bool.eq_true_of_not_eq_false hu)
    rw [hnone] at hfoo
    cases hfoo
  · rintro foo' ⟨⟩
    symm
    by_contra hne
    obtain ⟨u, hu⟩ := count_pos_iff.mp (Nat.pos_of_ne_zero hne)
    rw [hlock u] at hu
    cases hu
  · rw [hl, refs_none hnone, List.count_cons_self]
    dsimp only [Option.elim]
    omega
  · intro q hq
    rw [hl, List.count_cons_of_ne hq.symm]
  · rintro foo' ⟨⟩
    exact Nat.one_pos
  · exact ⟨List.mem_cons_self .., _, Function.update_self .., rfl, rfl, rfl⟩

lemma Inv.fine_free (h : Inv c) {held : List ℕ} (hl : c.point t = ⟨.releFree p, held⟩) :
    Fine c t (nextFree c.state ⟨.releFree p, held⟩ p) := by
  have hok := h.ok t
  rw [hl] at hok
  obtain ⟨hheld, foo, hfoo, hone, hfree⟩ := hok
  have hapart : Apart p (c.point t) = true := by
    rw [hl]
    exact decide_eq_true rfl
  have hrefs := h.refs p
  rw [refs_some hfoo, hone] at hrefs
  have hsole : held.count p = 1 := by
    have hle : (c.point t).held.count p ≤ total (fun l => l.held.count p) c.point :=
      self_le_total (f := fun l : Local => l.held.count p) t
    have hpos := List.count_pos_iff.mpr hheld
    rw [hl] at hle
    dsimp only at hle hpos
    omega
  simp only [nextFree, onFoo, hfoo, hfree, Bool.false_eq_true, if_false]
  refine h.replace (h.ne_null hfoo) (not_linked_of_apart hapart) (fun hlinked => ?_)
    (fun q hq => ?_) (fun u hu => h.alone_of_apart hapart hu) (by rw [hl]; rfl)
    (fun q => by rw [hl]; rfl) (by rintro _ ⟨⟩) ?_ ?_ (by rintro _ ⟨⟩) trivial
  · have := hlinked.1
    simp at this
  · rw [hl]
    exact (decide_eq_false hq.symm).symm
  · rw [hl, refs_some hfoo, hone, List.count_erase_self, hsole]
    rfl
  · intro q hq
    rw [hl, List.count_erase_of_ne hq]

/-- `fp->f_next = fh[idx]` for an object that is not in the table. -/
lemma Inv.fine_setNext (h : Inv c) {idx : Fin NHASH} {held : List ℕ}
    (hl : c.point t = ⟨.allocNext p idx, held⟩) :
    Fine c t (onFoo c.state p fun foo =>
      goTo (c.state.set p { foo with next := c.state.fh idx }) ⟨.allocNext p idx, held⟩
        (.allocHead p idx)) := by
  have hok := h.ok t
  rw [hl] at hok
  obtain ⟨hheld, foo, hfoo, hprivate⟩ := hok
  have hapart : Apart p (c.point t) = true := by
    rw [hl]
    exact decide_eq_true rfl
  simp only [onFoo, hfoo]
  refine h.replace (h.ne_null hfoo) (not_linked_of_apart hapart)
    (not_linked_of_apart (t := t) ?_) (fun q _ => by rw [hl]; rfl)
    (fun u hu => h.alone_of_apart hapart hu) (by rw [hl]; rfl) (fun q => by rw [hl]; rfl) ?_ ?_
    (fun q _ => by rw [hl]) ?_ ?_
  · rw [Function.update_self]
    exact decide_eq_true rfl
  · rintro foo' ⟨⟩
    exact h.lock p foo hfoo
  · rw [hl, refs_some hfoo]
    rfl
  · rintro foo' ⟨⟩
    exact h.pos p foo hfoo
  · exact ⟨hheld, _, Function.update_self .., hprivate, rfl⟩

lemma Inv.fine_link (h : Inv c) {idx : Fin NHASH} {held : List ℕ}
    (hl : c.point t = ⟨.allocHead p idx, held⟩) :
    Fine c t (goTo { c.state with fh := Function.update c.state.fh idx p } ⟨.allocHead p idx, held⟩
      (.allocHold p)) := by
  have hok := h.ok t
  rw [hl] at hok
  obtain ⟨hheld, foo, hfoo, hprivate, hnext⟩ := hok
  have hapart : Apart p (c.point t) = true := by
    rw [hl]
    exact decide_eq_true rfl
  have hbucket : bucket c.state.heap (.inr p) = idx := by
    rw [bucket, hfoo]
    exact hprivate.2.2
  have hpush : Family (.inr 0) (nextCell c.state.heap (Function.update c.state.fh idx p)) .inl
      (fun x => Member (Linked c.state.heap c.point) x ∨ x = .inr p)
      (Function.update (bucket c.state.heap) (.inr p) idx) := by
    refine h.table.push (not_linked_of_apart hapart) ?_ (by simp) ?_ ?_ fun x hx hne => ?_
    · rintro ⟨⟩
      exact h.ne_null hfoo rfl
    · simp [nextCell]
    · simp [nextCell, hfoo, hnext]
    · cases x with
      | inl i =>
        have hi : i ≠ idx := fun hi => hne (by rw [hi])
        simp [nextCell, Function.update_of_ne hi]
      | inr q => rfl
  rw [← hbucket, Function.update_eq_self] at hpush
  rw [hbucket] at hpush
  refine h.relink (by rw [hl]) (fun _ => .inl rfl) (by rw [hl]; rfl) rfl (fun q => by rw [hl]; rfl)
    (hpush.of_iff fun x => ?_) hheld
  cases x with
  | inl i => simp [Member]
  | inr q =>
    by_cases hq : q = p
    · subst hq
      refine iff_of_true ⟨by rw [hfoo]; rfl, fun u => ?_⟩ (.inr rfl)
      by_cases hu : u = t
      · subst hu
        rw [Function.update_self]
        rfl
      · rw [Function.update_of_ne hu]
        exact (h.alone_of_apart hapart hu).2
    · have happ : Apart q ⟨.allocHold p, held⟩ = Apart q (c.point t) := by
        rw [hl]
        exact (decide_eq_false (Ne.symm hq)).symm
      have hlinked : Linked c.state.heap (Function.update c.point t ⟨.allocHold p, held⟩) q ↔
          Linked c.state.heap c.point q := and_congr_right fun _ => apart_update_iff happ
      simpa [Member, hq] using hlinked

omit [DecidableEq τ] in
/-- From a list head or an object in the table one gets to an object in the table. -/
lemma Inv.linked_next (h : Inv c) {x : Cell}
    (hx : ∀ p, x = .inr p → Linked c.state.heap c.point p)
    (hnext : nextCell c.state.heap c.state.fh x = some (.inr q)) :
    q = 0 ∨ Linked c.state.heap c.point q := by
  obtain ⟨os, hos, hmem⟩ := h.table.chain (bucket c.state.heap x)
  have hx' : x ∈ .inl (bucket c.state.heap x) :: os := by
    cases x with
    | inl i => exact List.mem_cons_self ..
    | inr p => exact List.mem_cons_of_mem _ ((hmem _).mpr ⟨hx p rfl, rfl⟩)
  rcases hos.next_mem_or_null hx' hnext with hq | hq
  · exact .inl (Sum.inr.inj hq)
  · exact .inr ((hmem _).mp hq).1

/-- An object whose last reference a thread has is in the table, unless the thread has taken it
out. -/
lemma Inv.linked_of_last (h : Inv c) (hheld : p ∈ (c.point t).held)
    (ht : Apart p (c.point t) = false) : Linked c.state.heap c.point p := by
  obtain ⟨foo, hfoo⟩ := h.exists_of_held hheld
  refine ⟨by rw [hfoo]; rfl, fun u => ?_⟩
  by_contra hu
  have hu := Bool.eq_true_of_not_eq_false hu
  rw [← h.eq_of_apart hu (.inl hheld), ht] at hu
  cases hu

lemma Inv.unlink (h : Inv c) {held : List ℕ} {os r : List Cell} {point : Point}
    (hl : c.point t = ⟨point, held⟩) (hheld : p ∈ held) (hone : Counts (· = 1) heap' p)
    (happ : ∀ q, Apart q ⟨point, held⟩ = false) (hhash : HasHash ⟨point, held⟩ = true)
    (hlock : ∀ q, HasLock q ⟨point, held⟩ = decide (p = q))
    (hsame : ∀ q, heap' q = c.state.heap q ∨ Linked c.state.heap c.point q ∧
      ∃ foo foo', c.state.heap q = some foo ∧ heap' q = some foo' ∧ foo'.count = foo.count ∧
        foo'.locked = foo.locked)
    (hbucket : bucket heap' = bucket c.state.heap)
    (hos : Chain (.inr 0) (nextCell c.state.heap c.state.fh)
      (.inl (bucket c.state.heap (.inr p))) (os ++ .inr p :: r))
    (hlast : nextCell heap' fh' (lastCell (.inl (bucket c.state.heap (.inr p))) os) =
      nextCell c.state.heap c.state.fh (.inr p))
    (hrest : ∀ x, x ≠ .inr p → x ≠ lastCell (.inl (bucket c.state.heap (.inr p))) os →
      nextCell heap' fh' x = nextCell c.state.heap c.state.fh x) :
    Inv ⟨⟨heap', fh', c.state.hashlock⟩, Function.update c.point t ⟨.releUnhash p, held⟩⟩ := by
  have hmem : ∀ x, x ∈ os ++ .inr p :: r ↔ Member (Linked c.state.heap c.point) x ∧
      bucket c.state.heap x = bucket c.state.heap (.inr p) := by
    obtain ⟨os', hos', hmem⟩ := h.table.chain (bucket c.state.heap (.inr p))
    rw [hos.unique hos']
    exact hmem
  have htable := h.table.unlink hos hmem hlast hrest
  rw [← hbucket] at htable
  refine h.relink (by rw [hl]) hsame (by rw [hl, hhash]) rfl (fun q => by rw [hl, hlock]; rfl)
    (htable.of_iff fun x => ?_) ⟨hheld, hone⟩
  cases x with
  | inl i => simp [Member]
  | inr q =>
    by_cases hq : q = p
    · subst hq
      refine iff_of_false (not_linked_of_apart (t := t) ?_) fun hx => hx.2 rfl
      rw [Function.update_self]
      exact decide_eq_true rfl
    · have happ' : Apart q ⟨.releUnhash p, held⟩ = Apart q (c.point t) := by
        rw [hl, happ]
        exact decide_eq_false (Ne.symm hq)
      have hsome : (heap' q).isSome ↔ (c.state.heap q).isSome := by
        rcases hsame q with hsame | ⟨-, foo, foo', hfoo, hfoo', -⟩
        · rw [hsame]
        · simp [hfoo, hfoo']
      have hlinked : Linked heap' (Function.update c.point t ⟨.releUnhash p, held⟩) q ↔
          Linked c.state.heap c.point q := and_congr hsome (apart_update_iff happ')
      simpa [Member, hq] using hlinked

lemma bucket_some (hfoo : heap p = some foo) : bucket heap (.inr p) = HASH foo.id := by
  rw [bucket, hfoo]
  rfl

lemma nextCell_some (hfoo : heap p = some foo) :
    nextCell heap fh (.inr p) = some (.inr foo.next) := by
  rw [nextCell, hfoo]
  rfl

lemma Inv.fine_releHead (block : ℕ) (h : Inv c) {held : List ℕ}
    (hl : c.point t = ⟨.releHead p, held⟩) :
    Fine c t (next block ⟨.releHead p, held⟩ c.state) := by
  have hok := h.ok t
  rw [hl] at hok
  obtain ⟨hheld, hone⟩ := hok
  obtain ⟨foo, hfoo, -⟩ := id hone
  have hlinked : Member (Linked c.state.heap c.point) (.inr p) :=
    h.linked_of_last (t := t) (by rw [hl]; exact hheld) (by rw [hl]; rfl)
  obtain ⟨os, r, hos, -⟩ := h.table.exists_split hlinked
  have hbucket := bucket_some hfoo
  simp only [next, onFoo, hfoo]
  split_ifs with hhead
  · -- the object is the first of its list
    have hlast := hos.lastCell_eq (List.mem_cons_self ..) (by rw [hbucket, nextCell, hhead])
    refine h.unlink hl hheld hone (fun _ => rfl) rfl (fun _ => rfl) (fun _ => .inl rfl) rfl hos ?_
      fun x _ hx => ?_
    · rw [hlast, hbucket, nextCell_some hfoo]
      simp [nextCell]
    · cases x with
      | inl i =>
        have hi : i ≠ HASH foo.id := by
          rintro rfl
          rw [hlast, hbucket] at hx
          exact hx rfl
        simp [nextCell, Function.update_of_ne hi]
      | inr q => rfl
  · refine h.fine_goTo hl rfl (fun _ => rfl) (fun _ => rfl) ⟨hheld, hone, os, r, hos, ?_⟩
    rw [← hbucket] at hhead ⊢
    exact hos.next_mem (List.mem_cons_self ..) rfl fun heq => hhead (Sum.inr.inj heq)

lemma Inv.fine_releWalk (block : ℕ) (h : Inv c) {held : List ℕ}
    (hl : c.point t = ⟨.releWalk p q, held⟩) :
    Fine c t (next block ⟨.releWalk p q, held⟩ c.state) := by
  have hok := h.ok t
  rw [hl] at hok
  obtain ⟨hheld, hone, os, r, hos, hq⟩ := hok
  have hqlinked : Linked c.state.heap c.point q :=
    (h.table.of_mem hos (List.mem_append_left _ hq)).1
  obtain ⟨bar, hbar⟩ := Option.isSome_iff_exists.mp hqlinked.1
  obtain ⟨foo, hfoo, hcount⟩ := hone
  simp only [next, onFoo, hbar, hfoo]
  split_ifs with hnext
  · refine h.fine_goTo hl rfl (fun _ => rfl) (fun _ => rfl)
      ⟨hheld, ⟨foo, hfoo, hcount⟩, os, r, hos, ?_⟩
    exact hos.next_mem (List.mem_cons_of_mem _ hq) (nextCell_some hbar)
      fun heq => hnext (Sum.inr.inj heq)
  · -- the object comes right after this one
    have hnext := not_not.mp hnext
    have hqp : p ≠ q := by
      rintro rfl
      have hnodup := hos.nodup
      exact (List.nodup_append.mp hnodup).2.2 _ hq _ (List.mem_cons_self ..) rfl
    have hlast := hos.lastCell_eq (List.mem_cons_of_mem _ hq) (by rw [nextCell_some hbar, hnext])
    refine h.unlink hl hheld ⟨foo, (Function.update_of_ne hqp ..).trans hfoo, hcount⟩ (fun _ => rfl)
      rfl (fun _ => rfl) (fun x => ?_) (bucket_update hbar rfl) hos ?_ fun x _ hx => ?_
    · by_cases hx : x = q
      · subst hx
        exact .inr ⟨hqlinked, bar, _, hbar, Function.update_self .., rfl, rfl⟩
      · exact .inl (Function.update_of_ne hx ..)
    · rw [hlast, nextCell_some hfoo, nextCell_some (Function.update_self ..)]
    · rw [hlast] at hx
      cases x with
      | inl i => rfl
      | inr x => exact nextCell_of_ne fun heq => hx (by rw [heq])

lemma Inv.fine_findWalk (block : ℕ) (h : Inv c) {id : ℤ} {held : List ℕ}
    (hl : c.point t = ⟨.findWalk id p, held⟩) :
    Fine c t (next block ⟨.findWalk id p, held⟩ c.state) := by
  have hok := h.ok t
  rw [hl] at hok
  simp only [next]
  split_ifs with hnull
  · exact h.fine_goTo hl rfl (fun _ => rfl) (fun _ => rfl) trivial
  have hlinked : Linked c.state.heap c.point p := hok.resolve_left hnull
  obtain ⟨foo, hfoo⟩ := Option.isSome_iff_exists.mp hlinked.1
  simp only [onFoo, hfoo]
  split_ifs
  · exact h.fine_goTo hl rfl (fun _ => rfl) (fun _ => rfl) hlinked
  · refine h.fine_goTo hl rfl (fun _ => rfl) (fun _ => rfl) ?_
    refine h.linked_next (x := .inr p) ?_ (nextCell_some hfoo)
    rintro _ ⟨⟩
    exact hlinked

/-- **Every statement is fine.** -/
lemma Inv.fine {block : ℕ} (h : Inv c) (hfresh : Fresh c.state.heap block) (t : τ) :
    Fine c t (next block (c.point t) c.state) := by
  have hok := h.ok t
  obtain ⟨l, hl⟩ : ∃ l, c.point t = l := ⟨_, rfl⟩
  rw [hl] at hok ⊢
  obtain ⟨point, held⟩ := l
  have hheld : ∀ {p}, p ∈ held → Touches c t p := fun hp => .inl (by rw [hl]; exact hp)
  cases point with
  | out => trivial
  | alloc id => exact h.fine_alloc hfresh hl
  | allocLock p idx => exact h.fine_lockHash hl rfl rfl (fun _ => rfl) (fun _ => rfl) hok
  | allocNext p idx => exact h.fine_setNext hl
  | allocHead p idx => exact h.fine_link hl
  | allocHold p =>
    exact h.fine_lockFoo hl (hheld hok) rfl (fun _ => rfl) (fun _ => rfl) (fun _ => rfl)
      fun _ => hok
  | allocUnlock p => exact h.fine_unlockHash hl rfl rfl (fun _ => rfl) (fun _ => rfl) hok
  | allocDone p =>
    exact h.fine_unlockFoo hl rfl (fun _ => rfl) (fun _ => rfl) (fun _ => rfl) fun _ _ => trivial
  | holdLock p =>
    exact h.fine_lockFoo hl (hheld hok) rfl (fun _ => rfl) (fun _ => rfl) (fun _ => rfl)
      fun _ => hok
  | holdAdd p =>
    exact h.fine_addRef hl (.inl rfl) (decide_eq_true rfl) rfl (fun _ => rfl) (fun _ => rfl)
      fun _ => List.mem_cons_self ..
  | holdUnlock p =>
    exact h.fine_unlockFoo hl rfl (fun _ => rfl) (fun _ => rfl) (fun _ => rfl) fun _ _ => trivial
  | findLock id => exact h.fine_lockHash hl rfl rfl (fun _ => rfl) (fun _ => rfl) trivial
  | findHead id =>
    refine h.fine_goTo hl rfl (fun _ => rfl) (fun _ => rfl) ?_
    exact h.linked_next (x := .inl (HASH id)) (by rintro _ ⟨⟩) rfl
  | findWalk id p => exact h.fine_findWalk block hl
  | findHold p =>
    exact h.fine_lockFoo hl (.inr (.inl hok)) rfl (fun _ => rfl) (fun _ => rfl) (fun _ => rfl)
      fun _ => hok
  | findAdd p =>
    exact h.fine_addRef hl (.inr rfl) (decide_eq_true rfl) rfl (fun _ => rfl) (fun _ => rfl)
      fun _ => List.mem_cons_self ..
  | findDone p =>
    exact h.fine_unlockFoo hl rfl (fun _ => rfl) (fun _ => rfl) (fun _ => rfl) fun _ _ => trivial
  | findUnlock p => exact h.fine_unlockHash hl rfl rfl (fun _ => rfl) (fun _ => rfl) trivial
  | releLock p =>
    exact h.fine_lockFoo hl (hheld hok) rfl (fun _ => rfl) (fun _ => rfl) (fun _ => rfl)
      fun _ => hok
  | releTest p =>
    obtain ⟨foo, hfoo⟩ := h.exists_of_touches (hheld hok)
    simp only [next, onFoo, hfoo]
    split_ifs with hone
    · exact h.fine_goTo hl rfl (fun _ => rfl) (fun _ => rfl) hok
    · exact h.fine_goTo hl rfl (fun _ => rfl) (fun _ => rfl) ⟨hok, foo, hfoo, hone⟩
  | releSub p =>
    exact h.fine_subRef hl (decide_eq_true rfl) hok.1 hok.2 rfl (fun _ => rfl) (fun _ => rfl)
      fun _ hp => hp
  | releUnlock p =>
    exact h.fine_unlockFoo hl rfl (fun _ => rfl) (fun _ => rfl) (fun _ => rfl) fun _ _ => trivial
  | releLast p =>
    exact h.fine_unlockFoo hl rfl (fun _ => rfl) (fun _ => rfl) (fun _ => rfl) fun _ _ => hok
  | releHash p => exact h.fine_lockHash hl rfl rfl (fun _ => rfl) (fun _ => rfl) hok
  | releRelock p =>
    exact h.fine_lockFoo hl (hheld hok) rfl (fun _ => rfl) (fun _ => rfl) (fun _ => rfl)
      fun _ => hok
  | releRetest p =>
    obtain ⟨foo, hfoo⟩ := h.exists_of_touches (hheld hok)
    simp only [next, onFoo, hfoo]
    split_ifs with hmore
    · exact h.fine_goTo hl rfl (fun _ => rfl) (fun _ => rfl) ⟨hok, foo, hfoo, hmore⟩
    · exact h.fine_goTo hl rfl (fun _ => rfl) (fun _ => rfl) ⟨hok, foo, hfoo, not_not.mp hmore⟩
  | releBackSub p =>
    exact h.fine_subRef hl (decide_eq_true rfl) hok.1 hok.2 rfl (fun _ => rfl) (fun _ => rfl)
      fun _ hp => hp
  | releBack p =>
    exact h.fine_unlockFoo hl rfl (fun _ => rfl) (fun _ => rfl) (fun _ => rfl) fun _ _ => trivial
  | releBackHash => exact h.fine_unlockHash hl rfl rfl (fun _ => rfl) (fun _ => rfl) trivial
  | releHead p => exact h.fine_releHead block hl
  | releWalk p q => exact h.fine_releWalk block hl
  | releUnhash p => exact h.fine_unlockHash hl rfl rfl (fun _ => rfl) (fun _ => rfl) hok
  | releUnhold p =>
    refine h.fine_unlockFoo hl rfl (fun _ => rfl) (fun _ => rfl) (fun _ => rfl) fun foo hfoo => ?_
    obtain ⟨hheld, foo', hfoo', hone⟩ := hok
    obtain rfl : foo = foo' := Option.some.inj (hfoo.symm.trans hfoo')
    exact ⟨hheld, _, Function.update_self .., hone, rfl⟩
  | releFree p => exact h.fine_free hl

/-! ### Runs -/

variable {es e : List (τ × Empty)} {c' : Conf τ Table Local}

lemma Inv.step (h : Inv c) (hstep : Step program c e c') : Inv c' := by
  cases hstep with
  | @call t l evs hcall =>
    obtain ⟨l₀, hl⟩ : ∃ l₀, c.point t = l₀ := ⟨_, rfl⟩
    have hcalls : Calls l₀ evs l := hl ▸ hcall
    cases hcalls with
    | alloc id => exact h.fine_goTo hl rfl (fun _ => rfl) (fun _ => rfl) trivial
    | find id => exact h.fine_goTo hl rfl (fun _ => rfl) (fun _ => rfl) trivial
    | hold hp => exact h.fine_goTo hl rfl (fun _ => rfl) (fun _ => rfl) hp
    | rele hp => exact h.fine_goTo hl rfl (fun _ => rfl) (fun _ => rfl) hp
  | @move t s l evs hmove =>
    obtain ⟨block, hfresh, hnext⟩ := hmove
    have hfine := h.fine hfresh t
    rw [hnext] at hfine
    exact hfine

lemma Inv.of_run (hrun : Run program start es c) : Inv c :=
  hrun.invariant (P := fun _ c => Inv c) inv_start fun _ _ _ _ _ h hstep => h.step hstep

omit [Fintype τ] in
lemma step_next {s : Table} {evs : List Empty}
    (h : next 0 (c.point t) c.state = .goes s l evs) :
    Step program c (evs.map (t, ·)) ⟨s, Function.update c.point t l⟩ :=
  .move ⟨0, .inl rfl, h⟩

/-- One thread allocates an object, another one finds it, and the first gives its reference up. -/
lemma exists_shared : ∃ (es : List (Bool × Empty)) (c : Conf Bool Table Local),
    Run program start es c ∧ c.point false = ⟨.out 0, []⟩ ∧ c.point true = ⟨.out 1, [1]⟩ := by
  refine ⟨_, _, .tail (.tail (.tail (.tail (.tail (.tail (.tail (.tail (.tail (.tail (.tail (
    .tail (.tail (.tail (.tail (.tail (.tail (.tail (.tail (.tail (.tail .refl
    -- `foo_alloc(5)`
    (.call (t := false) (Calls.alloc 5))) (.move (t := false) ⟨1, .inr rfl, rfl⟩))
    (step_next (t := false) rfl)) (step_next (t := false) rfl)) (step_next (t := false) rfl))
    (step_next (t := false) rfl)) (step_next (t := false) rfl)) (step_next (t := false) rfl))
    -- `foo_find(5)`
    (.call (t := true) (Calls.find 5))) (step_next (t := true) rfl)) (step_next (t := true) rfl))
    (step_next (t := true) rfl)) (step_next (t := true) rfl)) (step_next (t := true) rfl))
    (step_next (t := true) rfl)) (step_next (t := true) rfl))
    -- `foo_rele(fp)`
    (.call (t := false) (Calls.rele (p := 1) (List.mem_singleton_self 1))))
    (step_next (t := false) rfl)) (step_next (t := false) rfl)) (step_next (t := false) rfl))
    (step_next (t := false) rfl), ?_, ?_⟩ <;> rfl

/-- **The lists hold what is in the table**: list `i` is a chain of the objects with this hash, each
of them once, except those that a thread is about to put in or has just taken out. -/
theorem foo_lists_objects (hrun : Run program start es c) (i : Fin NHASH) :
    ∃ os : List Cell, Chain (.inr 0) (nextCell c.state.heap c.state.fh) (.inl i) os ∧ os.Nodup ∧
      ∀ x, x ∈ os ↔ ∃ p foo, x = .inr p ∧ c.state.heap p = some foo ∧ HASH foo.id = i ∧
        ∀ t, Apart p (c.point t) = false := by
  obtain ⟨os, hos, hmem⟩ := (Inv.of_run hrun).table.chain i
  refine ⟨os, hos, hos.nodup, fun x => (hmem x).trans ⟨fun ⟨hx, hi⟩ => ?_, ?_⟩⟩
  · cases x with
    | inl j => exact hx.elim
    | inr p =>
      obtain ⟨foo, hfoo⟩ := Option.isSome_iff_exists.mp hx.1
      exact ⟨p, foo, rfl, hfoo, (bucket_some hfoo).symm.trans hi, hx.2⟩
  · rintro ⟨p, foo, rfl, hfoo, hid, hapart⟩
    exact ⟨⟨by rw [hfoo]; rfl, hapart⟩, (bucket_some hfoo).trans hid⟩

theorem exists_shared_lists : ∃ (es : List (Bool × Empty)) (c : Conf Bool Table Local),
    Run program start es c ∧ (c.point true).held = [1] ∧
      ∃ os : List Cell, Chain (.inr 0) (nextCell c.state.heap c.state.fh) (.inl (HASH 5)) os ∧
        os.Nodup := by
  obtain ⟨es, c, hrun, -, ht⟩ := exists_shared
  obtain ⟨os, hos, hnodup, -⟩ := foo_lists_objects hrun (HASH 5)
  exact ⟨es, c, hrun, by rw [ht], os, hos, hnodup⟩

/-! ### Progress -/

section Blocked

variable {s : Table} {point : Point}

lemma hashlock_of_blocked (h : lockHash s l point = .blocked) : s.hashlock = true := by
  unfold lockHash goTo at h
  split_ifs at h with hfree
  exact hfree

lemma unlockHash_ne_blocked : unlockHash s l point ≠ .blocked := by
  unfold unlockHash goTo
  split_ifs <;> simp

lemma onFoo_ne_blocked {k : Foo → FooMove} (hk : ∀ foo, k foo ≠ .blocked) :
    onFoo s p k ≠ .blocked := by
  unfold onFoo
  split
  · simp
  · exact hk _

lemma locked_of_blocked (h : lockFoo s l p point = .blocked) :
    Is (·.locked = true) s.heap p := by
  cases hfoo : s.heap p with
  | none => simp [lockFoo, onFoo, hfoo] at h
  | some foo =>
    simp only [lockFoo, onFoo, hfoo, goTo] at h
    split_ifs at h with hlocked
    exact ⟨foo, hfoo, hlocked⟩

lemma unlockFoo_ne_blocked : unlockFoo s l p point ≠ .blocked := by
  refine onFoo_ne_blocked fun foo => ?_
  unfold goTo
  split_ifs <;> simp

lemma addRef_ne_blocked : addRef s l p point ≠ .blocked := by
  refine onFoo_ne_blocked fun foo => ?_
  split_ifs <;> simp

lemma subRef_ne_blocked : subRef s l p point ≠ .blocked := onFoo_ne_blocked fun _ => by simp

/-- A thread waits outside, or for `hashlock`, or for the lock of an object, and never while it has
such a lock. -/
lemma blocked_cases {block : ℕ} (h : next block l s = .blocked) :
    (∀ q, HasLock q l = false) ∧ ((∃ fp, l.point = .out fp) ∨
      HasHash l = false ∧ s.hashlock = true ∨ ∃ p, Is (·.locked = true) s.heap p) := by
  obtain ⟨point, held⟩ := l
  cases point with
  | out fp => exact ⟨fun _ => rfl, .inl ⟨fp, rfl⟩⟩
  | allocLock | findLock | releHash =>
    -- waits for `hashlock`
    exact ⟨fun _ => rfl, .inr (.inl ⟨rfl, hashlock_of_blocked h⟩)⟩
  | allocHold | holdLock | findHold | releLock | releRelock =>
    -- waits for the lock of an object
    exact ⟨fun _ => rfl, .inr (.inr ⟨_, locked_of_blocked h⟩)⟩
  | allocUnlock | findUnlock | releBackHash | releUnhash =>
    -- never waits
    exact absurd h unlockHash_ne_blocked
  | allocDone | holdUnlock | findDone | releUnlock | releLast | releBack | releUnhold =>
    exact absurd h unlockFoo_ne_blocked
  | holdAdd | findAdd => exact absurd h addRef_ne_blocked
  | releSub | releBackSub => exact absurd h subRef_ne_blocked
  | alloc id =>
    refine absurd h ?_
    dsimp only [next, nextAlloc, goTo]
    split_ifs <;> simp
  | allocHead | findHead => cases h
  | findWalk id fp =>
    refine absurd h ?_
    dsimp only [next, goTo]
    split_ifs
    · simp
    · refine onFoo_ne_blocked fun foo => ?_
      split_ifs <;> simp
  | releHead | releFree =>
    refine absurd h (onFoo_ne_blocked fun foo => ?_)
    dsimp only [goTo]
    split_ifs <;> simp
  | releWalk fp tfp =>
    refine absurd h (onFoo_ne_blocked fun foo => ?_)
    split_ifs
    · simp [goTo]
    · exact onFoo_ne_blocked fun _ => by simp [goTo]
  | allocNext | releTest | releRetest =>
    exact absurd h (onFoo_ne_blocked fun _ => by simp [goTo])

end Blocked

/-- **There is no deadlock**: when no thread can go on, all of them are outside. -/
theorem foo_never_deadlocks (hrun : Run program start es c) (hstuck : Stuck program c)
    (t : τ) : ∃ fp, (c.point t).point = .out fp := by
  have h := Inv.of_run hrun
  have hblocked : ∀ u, next 0 (c.point u) c.state = .blocked :=
    fun u => hstuck u _ ⟨0, .inl rfl, rfl⟩
  -- a thread that has the lock of an object does not wait
  have hfree : ∀ p, ¬Is (·.locked = true) c.state.heap p := by
    rintro p ⟨foo, hfoo, hlocked⟩
    have hlock := h.lock p foo hfoo
    rw [hlocked, Bool.toNat_true] at hlock
    have hpos : 0 < count (HasLock p) c.point := by omega
    obtain ⟨u, hu⟩ := count_pos_iff.mp hpos
    rw [(blocked_cases (hblocked u)).1 p] at hu
    cases hu
  -- a thread that has `hashlock` waits for an object only
  have hhash : c.state.hashlock ≠ true := by
    intro hlocked
    have hhash := h.hash
    rw [hlocked, Bool.toNat_true] at hhash
    have hpos : 0 < count HasHash c.point := by omega
    obtain ⟨u, hu⟩ := count_pos_iff.mp hpos
    rcases (blocked_cases (hblocked u)).2 with ⟨fp, hout⟩ | ⟨hno, -⟩ | ⟨p, hp⟩
    · simp [HasHash, hout] at hu
    · rw [hno] at hu
      cases hu
    · exact hfree p hp
  rcases (blocked_cases (hblocked t)).2 with hout | ⟨-, hlocked⟩ | ⟨p, hp⟩
  · exact hout
  · exact absurd hlocked hhash
  · exact absurd hp (hfree p)

theorem exists_shared_not_deadlocked : ∃ (es : List (Bool × Empty)) (c : Conf Bool Table Local),
    Run program start es c ∧ Stuck program c ∧ (c.point true).held = [1] ∧
      ∀ t, ∃ fp, (c.point t).point = .out fp := by
  obtain ⟨es, c, hrun, hf, ht⟩ := exists_shared
  have hstuck : Stuck program c := by
    rintro t m ⟨block, -, rfl⟩
    cases t
    · rw [hf]
      rfl
    · rw [ht]
      rfl
  exact ⟨es, c, hrun, hstuck, by rw [ht], foo_never_deadlocks hrun hstuck⟩

end Zinzhi.FooTable
