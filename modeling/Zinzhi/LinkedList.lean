import Zinzhi.LinkRing
import Mathlib.Data.Int.Notation

/-!
`List<T>`, a circular doubly linked list with a dummy node, on an explicit heap.

A heap has finitely many nodes, and `new` may return any address without one. Following a
pointer to no node, and deleting one, have no result. The chained assignments are taken apart in
the order in which they happen, the inner one first. `insert` has no `return` statement; what it
does to the list and to its iterator does not depend on that.
-/

namespace Zinzhi.LinkedList

open Zinzhi.LinkRing

variable {T ι : Type}

/-! ### The heap -/

structure Node (T : Type) where
  data : T
  prev : ℕ
  next : ℕ

structure Heap (T : Type) where
  cell : ℕ → Option (Node T)
  bound : ℕ
  free : ∀ p, bound ≤ p → cell p = none

def Heap.empty : Heap T := ⟨fun _ => none, 0, fun _ _ => rfl⟩

def Heap.set (h : Heap T) (p : ℕ) (c : Option (Node T)) : Heap T where
  cell := Function.update h.cell p c
  bound := max h.bound (p + 1)
  free q hq := by
    rw [Function.update_of_ne (by omega), h.free q (by omega)]

def Heap.data (h : Heap T) (p : ℕ) : Option T := (h.cell p).map Node.data

def Heap.links (h : Heap T) : Links ℕ where
  next p := (h.cell p).map Node.next
  prev p := (h.cell p).map Node.prev

/-- Where `new` finds room. -/
structure Allocator (T : Type) where
  fresh : Heap T → ℕ
  free : ∀ h : Heap T, h.cell (fresh h) = none

def Allocator.bump : Allocator T := ⟨Heap.bound, fun h => h.free _ (Nat.le_refl _)⟩

/-- `new Node(data, prev, next)`. A pointer left out or null becomes the node's own. -/
def new (A : Allocator T) (h : Heap T) (data : T) (prev next : Option ℕ) : Heap T × ℕ :=
  (h.set (A.fresh h) (some ⟨data, prev.getD (A.fresh h), next.getD (A.fresh h)⟩), A.fresh h)

/-- `p->_next = q` -/
def setNext (h : Heap T) (p q : ℕ) : Option (Heap T) :=
  (h.cell p).map fun n => h.set p (some { n with next := q })

/-- `p->_prev = q` -/
def setPrev (h : Heap T) (p q : ℕ) : Option (Heap T) :=
  (h.cell p).map fun n => h.set p (some { n with prev := q })

def delete (h : Heap T) (p : ℕ) : Option (Heap T) := (h.cell p).map fun _ => h.set p none

/-! ### Member functions -/

structure Lst where
  /-- The member `_`. -/
  dummy : ℕ
  size : ℤ

/-- `a->_next = a->_next->_prev = new Node(x, a, b)` -/
def linkAfter (A : Allocator T) (h : Heap T) (a b : ℕ) (x : T) : Option (Heap T) := do
  let (h, n) := new A h x (some a) (some b)
  let h ← setPrev h (← h.links.next a) n
  setNext h a n

/-- `b->_prev = b->_prev->_next = new Node(x, b->_prev, b)` -/
def linkBefore (A : Allocator T) (h : Heap T) (b : ℕ) (x : T) : Option (Heap T) := do
  let a ← h.links.prev b
  let (h, n) := new A h x (some a) (some b)
  let h ← setNext h (← h.links.prev b) n
  setPrev h b n

def pushFront (A : Allocator T) (h : Heap T) (l : Lst) (x : T) : Option (Heap T × Lst) := do
  let h ← linkAfter A h l.dummy (← h.links.next l.dummy) x
  return (h, { l with size := l.size + 1 })

def pushBack (A : Allocator T) (h : Heap T) (l : Lst) (x : T) : Option (Heap T × Lst) := do
  let h ← linkBefore A h l.dummy x
  return (h, { l with size := l.size + 1 })

def popFront (h : Heap T) (l : Lst) : Option (Heap T × Lst) := do
  let p ← h.links.next l.dummy
  let h ← setPrev h (← h.links.next p) l.dummy
  let h ← setNext h l.dummy (← h.links.next p)
  let h ← delete h p
  return (h, { l with size := l.size - 1 })

def popBack (h : Heap T) (l : Lst) : Option (Heap T × Lst) := do
  let p ← h.links.prev l.dummy
  let h ← setPrev h l.dummy (← h.links.prev p)
  let h ← setNext h (← h.links.prev p) l.dummy
  let h ← delete h p
  return (h, { l with size := l.size - 1 })

/-- The iterator `k` steps on from `begin()`. -/
def iterator (h : Heap T) (l : Lst) (k : ℕ) : Option ℕ := do
  advance h.links.next k (← h.links.next l.dummy)

/-- `insert(it, x)`, which also moves `it` to the new element -/
def insert (A : Allocator T) (h : Heap T) (l : Lst) (it : ℕ) (x : T) :
    Option (Heap T × Lst × ℕ) := do
  let h ← linkBefore A h it x
  let it ← h.links.prev it
  return (h, { l with size := l.size + 1 }, it)

/-! ### Constructors -/

def ofEmpty [Inhabited T] (A : Allocator T) (h : Heap T) : Heap T × Lst :=
  let (h, d) := new A h default none none
  (h, ⟨d, 0⟩)

/-- The loop of `List(const List&)`, from `p` to `stop` in the copied list, with `pp` the last
node so far. -/
def copyLoop (A : Allocator T) (d stop : ℕ) : (fuel : ℕ) → Heap T → (p pp : ℕ) → Option (Heap T)
  | 0, _, _, _ => none
  | fuel + 1, h, p, pp =>
    if p = stop then some h
    else do
      let h ← linkAfter A h pp d (← h.data p)
      copyLoop A d stop fuel h (← h.links.next p) (← h.links.next pp)

def ofCopy [Inhabited T] (A : Allocator T) (fuel : ℕ) (h : Heap T) (l : Lst) :
    Option (Heap T × Lst) := do
  let (h, d) := new A h default none none
  let h ← copyLoop A d l.dummy fuel h (← h.links.next l.dummy) d
  return (h, ⟨d, l.size⟩)

/-- The loop of `List(int)` -/
def sizeLoop [Inhabited T] (A : Allocator T) (d : ℕ) : (rounds : ℕ) → Heap T → (p : ℕ) →
    Option (Heap T × ℕ)
  | 0, h, p => some (h, p)
  | k + 1, h, p => do
    let (h, n) := new A h default (some d) (some p)
    let h ← setPrev h p n
    sizeLoop A d k h n

def ofSize [Inhabited T] (A : Allocator T) (h : Heap T) (n : ℤ) : Option (Heap T × Lst) := do
  let (h, d) := new A h default none none
  let (h, p) ← sizeLoop A d n.toNat h d
  let h ← setNext h d p
  return (h, ⟨d, n⟩)

/-- The loop of `List(Iterator&, Iterator&)` -/
def rangeLoop (A : Allocator T) (d stop : ℕ) : (fuel : ℕ) → Heap T → (p pp : ℕ) → (size : ℤ) →
    Option (Heap T × ℕ × ℤ)
  | 0, _, _, _, _ => none
  | fuel + 1, h, p, pp, size =>
    if p = stop then some (h, pp, size)
    else do
      let (h, n) := new A h (← h.data p) (some pp) (some d)
      let h ← setNext h pp n
      rangeLoop A d stop fuel h (← h.links.next p) (← h.links.next pp) (size + 1)

def ofRange [Inhabited T] (A : Allocator T) (fuel : ℕ) (h : Heap T) (it1 it2 : ℕ) :
    Option (Heap T × Lst) := do
  let (h, d) := new A h default none none
  let (h, pp, size) ← rangeLoop A d it2 fuel h it1 d 0
  let h ← setPrev h d pp
  return (h, ⟨d, size⟩)

/-! ### Single assignments -/

lemma map_set {β : Type} (h : Heap T) (p : ℕ) (c : Option (Node T)) (f : Node T → β) :
    (fun q => ((h.set p c).cell q).map f) =
      Function.update (fun q => (h.cell q).map f) p (c.map f) := by
  funext q
  by_cases hq : q = p
  · simp [Heap.set, hq]
  · simp [Heap.set, Function.update_of_ne hq]

lemma next_set (h : Heap T) (p : ℕ) (c : Option (Node T)) :
    (h.set p c).links.next = Function.update h.links.next p (c.map Node.next) :=
  map_set h p c Node.next

lemma prev_set (h : Heap T) (p : ℕ) (c : Option (Node T)) :
    (h.set p c).links.prev = Function.update h.links.prev p (c.map Node.prev) :=
  map_set h p c Node.prev

lemma data_set (h : Heap T) (p : ℕ) (c : Option (Node T)) :
    (h.set p c).data = Function.update h.data p (c.map Node.data) :=
  map_set h p c Node.data

/-- What a node keeps is kept all over the heap. -/
lemma map_set_keep {β : Type} {h : Heap T} {p : ℕ} {n m : Node T} (hn : h.cell p = some n)
    {f : Node T → β} (hf : f m = f n) :
    (fun q => ((h.set p (some m)).cell q).map f) = fun q => (h.cell q).map f := by
  rw [map_set, Function.update_eq_self_iff, hn, Option.map_some, Option.map_some, hf]

lemma cell_set_of_ne {h : Heap T} {p q : ℕ} (hq : q ≠ p) (c : Option (Node T)) :
    (h.set p c).cell q = h.cell q := Function.update_of_ne hq _ _

lemma isSome_cell {h : Heap T} {p q : ℕ} (hp : h.links.next p = some q) : (h.cell p).isSome := by
  simp only [Heap.links, Option.map_eq_some_iff] at hp
  obtain ⟨n, hn, -⟩ := hp
  simp [hn]

lemma isSome_set {h : Heap T} {p : ℕ} (hp : (h.cell p).isSome) (m : Node T) (r : ℕ) :
    ((h.set p (some m)).cell r).isSome = (h.cell r).isSome := by
  by_cases hr : r = p
  · simp [hr, Heap.set, hp]
  · rw [cell_set_of_ne hr]

lemma setNext_spec {h : Heap T} {p : ℕ} (hp : (h.cell p).isSome) (q : ℕ) :
    ∃ h', setNext h p q = some h' ∧ h'.links.next = Function.update h.links.next p (some q) ∧
      h'.links.prev = h.links.prev ∧ h'.data = h.data ∧
      (∀ r, (h'.cell r).isSome = (h.cell r).isSome) ∧ ∀ r, r ≠ p → h'.cell r = h.cell r := by
  obtain ⟨n, hn⟩ := Option.isSome_iff_exists.mp hp
  exact ⟨h.set p (some { n with next := q }), by simp [setNext, hn], next_set _ _ _,
    map_set_keep hn rfl, map_set_keep hn rfl, isSome_set hp _, fun r hr => cell_set_of_ne hr _⟩

lemma setPrev_spec {h : Heap T} {p : ℕ} (hp : (h.cell p).isSome) (q : ℕ) :
    ∃ h', setPrev h p q = some h' ∧ h'.links.next = h.links.next ∧
      h'.links.prev = Function.update h.links.prev p (some q) ∧ h'.data = h.data ∧
      (∀ r, (h'.cell r).isSome = (h.cell r).isSome) ∧ ∀ r, r ≠ p → h'.cell r = h.cell r := by
  obtain ⟨n, hn⟩ := Option.isSome_iff_exists.mp hp
  exact ⟨h.set p (some { n with prev := q }), by simp [setPrev, hn], map_set_keep hn rfl,
    prev_set _ _ _, map_set_keep hn rfl, isSome_set hp _, fun r hr => cell_set_of_ne hr _⟩

/-! ### A node put in or taken out -/

/-- The heap `h'` has one more node `n` than `h`, between `a` and `b`. -/
structure Inserted (h h' : Heap T) (n a b : ℕ) (x : T) : Prop where
  fresh : h.cell n = none
  links : h'.links = h.links.insert n a b
  data : h'.data = Function.update h.data n (some x)
  frame : ∀ p, p ≠ n → p ≠ a → p ≠ b → h'.cell p = h.cell p

/-- The heap `h'` has lost the node `p`, which was between `a` and `b`. -/
structure Removed (h h' : Heap T) (p a b : ℕ) : Prop where
  links : h'.links = h.links.remove p a b
  data : h'.data = Function.update h.data p none
  frame : ∀ q, q ≠ p → q ≠ a → q ≠ b → h'.cell q = h.cell q

lemma ne_fresh (A : Allocator T) {h : Heap T} {p : ℕ} (hp : (h.cell p).isSome) :
    p ≠ A.fresh h := by
  rintro rfl
  simp [A.free h] at hp

lemma new_spec (A : Allocator T) (h : Heap T) (x : T) (a b : Option ℕ) :
    ∃ h', new A h x a b = (h', A.fresh h) ∧
      h'.links.next = Function.update h.links.next (A.fresh h) (some (b.getD (A.fresh h))) ∧
      h'.links.prev = Function.update h.links.prev (A.fresh h) (some (a.getD (A.fresh h))) ∧
      h'.data = Function.update h.data (A.fresh h) (some x) ∧
      ∀ r, r ≠ A.fresh h → h'.cell r = h.cell r :=
  ⟨_, rfl, next_set _ _ _, prev_set _ _ _, data_set _ _ _, fun _ hr => cell_set_of_ne hr _⟩

/-- The heap `h'` is `h` with `a->_next = p` and `b->_prev = q`. -/
structure Relinked (h h' : Heap T) (a p b q : ℕ) : Prop where
  next : h'.links.next = Function.update h.links.next a (some p)
  prev : h'.links.prev = Function.update h.links.prev b (some q)
  data : h'.data = h.data
  isSome : ∀ r, (h'.cell r).isSome = (h.cell r).isSome
  frame : ∀ r, r ≠ a → r ≠ b → h'.cell r = h.cell r

section Relink

variable {h : Heap T} {a b : ℕ} (ha : (h.cell a).isSome) (hb : (h.cell b).isSome)

include ha hb

lemma setPrev_setNext_spec (p q : ℕ) :
    ∃ h₁ h₂, setPrev h b q = some h₁ ∧ setNext h₁ a p = some h₂ ∧
      h₁.links.next = h.links.next ∧ h₁.links.prev = Function.update h.links.prev b (some q) ∧
      Relinked h h₂ a p b q := by
  obtain ⟨h₁, hset₁, hnext₁, hprev₁, hdata₁, hsome₁, hcell₁⟩ := setPrev_spec hb q
  rw [← hsome₁] at ha
  obtain ⟨h₂, hset₂, hnext₂, hprev₂, hdata₂, hsome₂, hcell₂⟩ := setNext_spec ha p
  refine ⟨h₁, h₂, hset₁, hset₂, hnext₁, hprev₁, ?_, ?_, ?_, ?_, ?_⟩
  · rw [hnext₂, hnext₁]
  · rw [hprev₂, hprev₁]
  · rw [hdata₂, hdata₁]
  · exact fun r => (hsome₂ r).trans (hsome₁ r)
  · exact fun r hra hrb => (hcell₂ r hra).trans (hcell₁ r hrb)

lemma setNext_setPrev_spec (p q : ℕ) :
    ∃ h₁ h₂, setNext h a p = some h₁ ∧ setPrev h₁ b q = some h₂ ∧ Relinked h h₂ a p b q := by
  obtain ⟨h₁, hset₁, hnext₁, hprev₁, hdata₁, hsome₁, hcell₁⟩ := setNext_spec ha p
  rw [← hsome₁] at hb
  obtain ⟨h₂, hset₂, hnext₂, hprev₂, hdata₂, hsome₂, hcell₂⟩ := setPrev_spec hb q
  refine ⟨h₁, h₂, hset₁, hset₂, ?_, ?_, ?_, ?_, ?_⟩
  · rw [hnext₂, hnext₁]
  · rw [hprev₂, hprev₁]
  · rw [hdata₂, hdata₁]
  · exact fun r => (hsome₂ r).trans (hsome₁ r)
  · exact fun r hra hrb => (hcell₂ r hrb).trans (hcell₁ r hra)

end Relink

section Members

variable {h : Heap T} {a b : ℕ}

/-- A new node whose neighbours are linked to it is put in. -/
lemma Relinked.inserted (A : Allocator T) {x : T} {h' : Heap T}
    (hr : Relinked (new A h x (some a) (some b)).1 h' a (A.fresh h) b (A.fresh h)) :
    Inserted h h' (A.fresh h) a b x := by
  obtain ⟨h₁, hnew, hnext₁, hprev₁, hdata₁, hcell₁⟩ := new_spec A h x (some a) (some b)
  rw [hnew] at hr
  refine ⟨A.free h, Links.ext ?_ ?_, hr.data.trans hdata₁, ?_⟩
  · rw [hr.next, hnext₁]
    rfl
  · rw [hr.prev, hprev₁]
    rfl
  · exact fun p hpn hpa hpb => (hr.frame p hpa hpb).trans (hcell₁ p hpn)

/-- A node whose neighbours are linked with each other is taken out. -/
lemma Relinked.removed {h₁ : Heap T} (hr : Relinked h h₁ a b b a) {p : ℕ}
    (hp : (h.cell p).isSome) : ∃ h₂, delete h₁ p = some h₂ ∧ Removed h h₂ p a b := by
  rw [← hr.isSome] at hp
  obtain ⟨n, hn⟩ := Option.isSome_iff_exists.mp hp
  refine ⟨h₁.set p none, by simp [delete, hn], Links.ext ?_ ?_, ?_, ?_⟩
  · rw [next_set, hr.next]
    rfl
  · rw [prev_set, hr.prev]
    rfl
  · rw [data_set, hr.data]
    rfl
  · exact fun q hqp hqa hqb => (cell_set_of_ne hqp none).trans (hr.frame q hqa hqb)

lemma linkAfter_spec (A : Allocator T) (hab : Linked h.links a b) (hb : (h.cell b).isSome)
    (x : T) : ∃ h', linkAfter A h a b x = some h' ∧ Inserted h h' (A.fresh h) a b x := by
  have ha : (h.cell a).isSome := isSome_cell hab.1
  obtain ⟨h₁, hnew, hnext₁, -, -, hcell₁⟩ := new_spec A h x (some a) (some b)
  rw [← hcell₁ a (ne_fresh A ha)] at ha
  rw [← hcell₁ b (ne_fresh A hb)] at hb
  have hq : h₁.links.next a = some b := by
    rw [hnext₁, Function.update_of_ne (ne_fresh A (isSome_cell hab.1)), hab.1]
  obtain ⟨h₂, h₃, hset₂, hset₃, -, -, hr⟩ := setPrev_setNext_spec ha hb (A.fresh h) (A.fresh h)
  refine ⟨h₃, ?_, Relinked.inserted A (by rwa [hnew])⟩
  simp only [linkAfter, hnew, hq, hset₂, hset₃, Option.bind_eq_bind, Option.bind_some]

lemma linkBefore_spec (A : Allocator T) (hab : Linked h.links a b) (hb : (h.cell b).isSome)
    (x : T) : ∃ h', linkBefore A h b x = some h' ∧ Inserted h h' (A.fresh h) a b x := by
  have ha : (h.cell a).isSome := isSome_cell hab.1
  obtain ⟨h₁, hnew, -, hprev₁, -, hcell₁⟩ := new_spec A h x (some a) (some b)
  have hq : h₁.links.prev b = some a := by
    rw [hprev₁, Function.update_of_ne (ne_fresh A hb), hab.2]
  rw [← hcell₁ a (ne_fresh A ha)] at ha
  rw [← hcell₁ b (ne_fresh A hb)] at hb
  obtain ⟨h₂, h₃, hset₂, hset₃, hr⟩ := setNext_setPrev_spec ha hb (A.fresh h) (A.fresh h)
  refine ⟨h₃, ?_, Relinked.inserted A (by rwa [hnew])⟩
  simp only [linkBefore, hab.2, hnew, hq, hset₂, hset₃, Option.bind_eq_bind, Option.bind_some]

/-- The pointers of the two neighbours pass the node `p`, which is then deleted. -/
lemma popFront_spec {l : Lst} {p : ℕ} (hp : h.links.next l.dummy = some p)
    (hb : h.links.next p = some b) (hbs : (h.cell b).isSome) :
    ∃ h', popFront h l = some (h', { l with size := l.size - 1 }) ∧
      Removed h h' p l.dummy b := by
  obtain ⟨h₁, h₂, hset₁, hset₂, hnext₁, -, hr⟩ :=
    setPrev_setNext_spec (isSome_cell hp) hbs b l.dummy
  have hb₁ : h₁.links.next p = some b := by rw [hnext₁, hb]
  obtain ⟨h₃, hdel, hrem⟩ := hr.removed (isSome_cell hb)
  refine ⟨h₃, ?_, hrem⟩
  simp only [popFront, hp, hb, hset₁, hb₁, hset₂, hdel, Option.bind_eq_bind, Option.bind_some]
  rfl

lemma popBack_spec {l : Lst} {p : ℕ} (hp : h.links.prev l.dummy = some p)
    (ha : h.links.prev p = some a) (hpd : p ≠ l.dummy) (hd : (h.cell l.dummy).isSome)
    (hps : (h.cell p).isSome) (has : (h.cell a).isSome) :
    ∃ h', popBack h l = some (h', { l with size := l.size - 1 }) ∧
      Removed h h' p a l.dummy := by
  obtain ⟨h₁, h₂, hset₁, hset₂, -, hprev₁, hr⟩ := setPrev_setNext_spec has hd l.dummy a
  have ha₁ : h₁.links.prev p = some a := by rw [hprev₁, Function.update_of_ne hpd, ha]
  obtain ⟨h₃, hdel, hrem⟩ := hr.removed hps
  refine ⟨h₃, ?_, hrem⟩
  simp only [popBack, hp, ha, hset₁, ha₁, hset₂, hdel, Option.bind_eq_bind, Option.bind_some]
  rfl

end Members

end Zinzhi.LinkedList
