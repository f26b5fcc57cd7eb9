import Mathlib.Algebra.Ring.Int.Defs
import Zinzhi.Chains
import Zinzhi.Threads

/-!
The hash table of reference-counted objects with two kinds of locks: `foo_alloc`, `foo_hold`,
`foo_find` and `foo_rele` by any number of threads, interleaved between any two statements.

`hashlock` protects the lists, the lock of an object its count. A thread that gives up what looks
like the last reference has to let go of the object before it takes both locks.
-/

namespace Zinzhi.FooTable

open Zinzhi.Chains Zinzhi.Threads

def NHASH : ℕ := 29

def INT_MAX : ℕ := 2147483647

/-- `((unsigned long)id) % NHASH` -/
def HASH (id : ℤ) : Fin NHASH :=
  ⟨(id % 2 ^ 64).toNat % NHASH, Nat.mod_lt _ (by decide)⟩

structure Foo where
  count : ℕ
  locked : Bool
  id : ℤ
  next : ℕ
deriving DecidableEq, Repr

abbrev Heap := ℕ → Option Foo

structure Table where
  heap : Heap
  fh : Fin NHASH → ℕ
  hashlock : Bool

def Table.set (s : Table) (fp : ℕ) (foo : Foo) : Table :=
  { s with heap := Function.update s.heap fp (some foo) }

/-- What `malloc` may return: memory that is not in use, or `NULL`. When `pthread_mutex_init` fails,
`foo_alloc` frees what it has got, so that case is like `NULL`. -/
def Fresh (heap : Heap) (fp : ℕ) : Prop := fp = 0 ∨ heap fp = none

/-- The statement that a thread is about to execute, with its local variables. -/
inductive Point
  | out (fp : ℕ)
  -- `foo_alloc`
  | alloc (id : ℤ)
  | allocLock (fp : ℕ) (idx : Fin NHASH)
  | allocNext (fp : ℕ) (idx : Fin NHASH)
  | allocHead (fp : ℕ) (idx : Fin NHASH)
  | allocHold (fp : ℕ)
  | allocUnlock (fp : ℕ)
  | allocDone (fp : ℕ)
  -- `foo_hold`
  | holdLock (fp : ℕ)
  | holdAdd (fp : ℕ)
  | holdUnlock (fp : ℕ)
  -- `foo_find`
  | findLock (id : ℤ)
  | findHead (id : ℤ)
  | findWalk (id : ℤ) (fp : ℕ)
  | findHold (fp : ℕ)
  | findAdd (fp : ℕ)
  | findDone (fp : ℕ)
  | findUnlock (fp : ℕ)
  -- `foo_rele`
  | releLock (fp : ℕ)
  | releTest (fp : ℕ)
  | releSub (fp : ℕ)
  | releUnlock (fp : ℕ)
  | releLast (fp : ℕ)
  | releHash (fp : ℕ)
  | releRelock (fp : ℕ)
  | releRetest (fp : ℕ)
  | releBackSub (fp : ℕ)
  | releBack (fp : ℕ)
  | releBackHash
  | releHead (fp : ℕ)
  | releWalk (fp tfp : ℕ)
  | releUnhash (fp : ℕ)
  | releUnhold (fp : ℕ)
  | releFree (fp : ℕ)
deriving DecidableEq, Repr

structure Local where
  point : Point
  held : List ℕ

abbrev FooMove := Move Table Local Empty

section Statements

variable (s : Table) (l : Local) (fp : ℕ) (p : Point)

def goTo : FooMove := .goes s { l with point := p } []

/-- To use an object that is not allocated is a fault. -/
def onFoo (k : Foo → FooMove) : FooMove :=
  match s.heap fp with
  | none => .fault
  | some foo => k foo

def lockHash : FooMove := if s.hashlock then .blocked else goTo { s with hashlock := true } l p

def unlockHash : FooMove := if s.hashlock then goTo { s with hashlock := false } l p else .fault

def lockFoo : FooMove :=
  onFoo s fp fun foo =>
    if foo.locked then .blocked else goTo (s.set fp { foo with locked := true }) l p

def unlockFoo : FooMove :=
  onFoo s fp fun foo =>
    if foo.locked then goTo (s.set fp { foo with locked := false }) l p else .fault

/-- `fp->f_count++`, after which the thread has a reference more. -/
def addRef : FooMove :=
  onFoo s fp fun foo =>
    if INT_MAX ≤ foo.count then .fault
    else .goes (s.set fp { foo with count := foo.count + 1 }) ⟨p, fp :: l.held⟩ []

/-- `fp->f_count--`, after which the thread has one less. -/
def subRef : FooMove :=
  onFoo s fp fun foo =>
    .goes (s.set fp { foo with count := foo.count - 1 }) ⟨p, l.held.erase fp⟩ []

end Statements

def nextAlloc (fp : ℕ) (s : Table) (l : Local) (id : ℤ) : FooMove :=
  if fp = 0 then goTo s l (.out 0)
  else .goes (s.set fp ⟨1, false, id, 0⟩) ⟨.allocLock fp (HASH id), fp :: l.held⟩ []

def nextFree (s : Table) (l : Local) (fp : ℕ) : FooMove :=
  onFoo s fp fun foo =>
    -- `pthread_mutex_destroy` of a locked mutex is undefined
    if foo.locked then .fault
    else .goes { s with heap := Function.update s.heap fp none } ⟨.out 0, l.held.erase fp⟩ []

/-- The next statement, where `block` is what `malloc` returns if it is called. -/
def next (block : ℕ) (l : Local) (s : Table) : FooMove :=
  match l.point with
  | .out _ => .blocked
  | .alloc id => nextAlloc block s l id
  | .allocLock fp idx => lockHash s l (.allocNext fp idx)
  | .allocNext fp idx =>
    onFoo s fp fun foo => goTo (s.set fp { foo with next := s.fh idx }) l (.allocHead fp idx)
  | .allocHead fp idx => goTo { s with fh := Function.update s.fh idx fp } l (.allocHold fp)
  | .allocHold fp => lockFoo s l fp (.allocUnlock fp)
  | .allocUnlock fp => unlockHash s l (.allocDone fp)
  | .allocDone fp => unlockFoo s l fp (.out fp)
  | .holdLock fp => lockFoo s l fp (.holdAdd fp)
  | .holdAdd fp => addRef s l fp (.holdUnlock fp)
  | .holdUnlock fp => unlockFoo s l fp (.out 0)
  | .findLock id => lockHash s l (.findHead id)
  | .findHead id => goTo s l (.findWalk id (s.fh (HASH id)))
  | .findWalk id fp =>
    if fp = 0 then goTo s l (.findUnlock 0)
    else onFoo s fp fun foo =>
      if foo.id = id then goTo s l (.findHold fp) else goTo s l (.findWalk id foo.next)
  | .findHold fp => lockFoo s l fp (.findAdd fp)
  | .findAdd fp => addRef s l fp (.findDone fp)
  | .findDone fp => unlockFoo s l fp (.findUnlock fp)
  | .findUnlock fp => unlockHash s l (.out fp)
  | .releLock fp => lockFoo s l fp (.releTest fp)
  | .releTest fp =>
    onFoo s fp fun foo => goTo s l (if foo.count = 1 then .releLast fp else .releSub fp)
  | .releSub fp => subRef s l fp (.releUnlock fp)
  | .releUnlock fp => unlockFoo s l fp (.out 0)
  | .releLast fp => unlockFoo s l fp (.releHash fp)
  | .releHash fp => lockHash s l (.releRelock fp)
  | .releRelock fp => lockFoo s l fp (.releRetest fp)
  | .releRetest fp =>
    onFoo s fp fun foo => goTo s l (if foo.count ≠ 1 then .releBackSub fp else .releHead fp)
  | .releBackSub fp => subRef s l fp (.releBack fp)
  | .releBack fp => unlockFoo s l fp .releBackHash
  | .releBackHash => unlockHash s l (.out 0)
  | .releHead fp =>
    onFoo s fp fun foo =>
      let idx := HASH foo.id
      let tfp := s.fh idx
      if tfp = fp then goTo { s with fh := Function.update s.fh idx foo.next } l (.releUnhash fp)
      else goTo s l (.releWalk fp tfp)
  | .releWalk fp tfp =>
    onFoo s tfp fun tfoo =>
      if tfoo.next ≠ fp then goTo s l (.releWalk fp tfoo.next)
      else onFoo s fp fun foo => goTo (s.set tfp { tfoo with next := foo.next }) l (.releUnhash fp)
  | .releUnhash fp => unlockHash s l (.releUnhold fp)
  | .releUnhold fp => unlockFoo s l fp (.releFree fp)
  | .releFree fp => nextFree s l fp

/-- A thread that is outside may call any of the functions, on an object that it has a reference
to. -/
inductive Calls : Local → List Empty → Local → Prop
  | alloc {fp : ℕ} {held : List ℕ} (id : ℤ) : Calls ⟨.out fp, held⟩ [] ⟨.alloc id, held⟩
  | find {fp : ℕ} {held : List ℕ} (id : ℤ) : Calls ⟨.out fp, held⟩ [] ⟨.findLock id, held⟩
  | hold {fp p : ℕ} {held : List ℕ} (h : p ∈ held) :
      Calls ⟨.out fp, held⟩ [] ⟨.holdLock p, held⟩
  | rele {fp p : ℕ} {held : List ℕ} (h : p ∈ held) :
      Calls ⟨.out fp, held⟩ [] ⟨.releLock p, held⟩

def program : Program Table Local Empty :=
  ⟨fun l s m => ∃ block, Fresh s.heap block ∧ next block l s = m, Calls⟩

variable {τ : Type*}

def start : Conf τ Table Local := ⟨⟨fun _ => none, fun _ => 0, false⟩, fun _ => ⟨.out 0, []⟩⟩

/-! ### Where the threads are -/

def HasHash (l : Local) : Bool :=
  match l.point with
  | .allocNext .. | .allocHead .. | .allocHold _ | .allocUnlock _ | .findHead _ | .findWalk ..
  | .findHold _ | .findAdd _ | .findDone _ | .findUnlock _ | .releRelock _ | .releRetest _
  | .releBackSub _ | .releBack _ | .releBackHash | .releHead _ | .releWalk .. | .releUnhash _ =>
    true
  | _ => false

def HasLock (p : ℕ) (l : Local) : Bool :=
  match l.point with
  | .allocUnlock fp | .allocDone fp | .holdAdd fp | .holdUnlock fp | .findAdd fp | .findDone fp
  | .releTest fp | .releSub fp | .releUnlock fp | .releLast fp | .releRetest fp | .releBackSub fp
  | .releBack fp | .releHead fp | .releWalk fp _ | .releUnhash fp | .releUnhold fp => fp = p
  | _ => false

/-- The thread has not yet put the object into the table, or it has taken it out. -/
def Apart (p : ℕ) (l : Local) : Bool :=
  match l.point with
  | .allocLock fp _ | .allocNext fp _ | .allocHead fp _ | .releUnhash fp | .releUnhold fp
  | .releFree fp => fp = p
  | _ => false

def Linked (heap : Heap) (ls : τ → Local) (p : ℕ) : Prop :=
  (heap p).isSome ∧ ∀ t, Apart p (ls t) = false

/-! ### The lists -/

/-- The list heads and the objects. -/
abbrev Cell := Fin NHASH ⊕ ℕ

def nextCell (heap : Heap) (fh : Fin NHASH → ℕ) : Cell → Option Cell
  | .inl i => some (.inr (fh i))
  | .inr p => (heap p).map fun foo => .inr foo.next

def bucket (heap : Heap) : Cell → Fin NHASH
  | .inl i => i
  | .inr p => (heap p).elim (HASH 0) fun foo => HASH foo.id

def Member (P : ℕ → Prop) : Cell → Prop
  | .inl _ => False
  | .inr p => P p

end Zinzhi.FooTable
