import Zinzhi.GrowVector
import Zinzhi.Runs

/-!
`Vector` of `lab1_1.4`, which has as many elements as it was constructed or assigned with.

An object owns its array, so the array is part of the object; a null pointer is no array. Moving
an object takes its array and leaves a null pointer there, but also its old size. A program is a
sequence of constructions, assignments and destructions of objects; it has no further state once
it has used a null pointer.
-/

namespace Zinzhi.FixedVector

open Zinzhi.Cells Zinzhi.Runs
open Zinzhi.GrowVector (Exn indexError)

structure Vec where
  size : ℕ
  arr : Option (Block UInt32)

/-! ### Members -/

/-- `operator[]`. A null pointer has no elements. -/
def index (v : Vec) (i : ℕ) : Option (Except Exn UInt32) :=
  if i < v.size then (v.arr.bind fun arr => read arr i).map .ok else some (.error indexError)

def ofDefault : Vec := ⟨0, some (alloc 0)⟩

def ofSize (size : ℕ) : Option Vec := do
  let arr ← forUp (fun i arr => write arr i 0) 0 size (alloc size)
  return ⟨size, some arr⟩

/-- `tmp[i] = v[i]` for the elements of `v`. The loop stays below `_size`, so no index is out of
range. -/
def copyElems (v : Vec) : Option (Block UInt32) :=
  forUp (fun i tmp => ((index v i).bind Except.toOption).bind (write tmp i)) 0 v.size (alloc v.size)

def ofCopy (v : Vec) : Option Vec := (copyElems v).map fun arr => ⟨v.size, some arr⟩

/-- `operator=(const Vector&)` of two objects -/
def copyAssign (v : Vec) : Option Vec := (copyElems v).map fun tmp => ⟨v.size, some tmp⟩

def initAssign (cs : List UInt32) : Option Vec := do
  let tmp ← forUp (fun i tmp => cs[i]?.bind (write tmp i)) 0 cs.length (alloc cs.length)
  return { size := cs.length, arr := some tmp }

/-- The target and the source of `Vector(Vector&&)`, and of `operator=(Vector&&)` of two
objects. -/
def move (v : Vec) : Vec × Vec := (⟨v.size, v.arr⟩, { v with arr := none })

/-! ### Programs -/

variable {ι : Type}

inductive Ctor (ι : Type)
  | default
  | size (n : ℕ)
  | copy (source : ι)
  | move (source : ι)

inductive Cmd (ι : Type)
  | construct (target : ι) (c : Ctor ι)
  | copyAssign (target source : ι)
  | moveAssign (target source : ι)
  | initAssign (target : ι) (c : List UInt32)
  | destroy (target : ι)

abbrev Objects (ι : Type) := ι → Option Vec

section Programs

variable [DecidableEq ι]

def Objects.put (objs : Objects ι) (i : ι) (v : Vec) : Objects ι :=
  Function.update objs i (some v)

/-- A new object `target`, from the object `source` where the constructor takes one. -/
def construct (objs : Objects ι) (target : ι) : Ctor ι → Option (Objects ι)
  | .default => some (objs.put target ofDefault)
  | .size n => (ofSize n).map (objs.put target)
  | .copy source =>
    match objs source with
    | none => some objs
    | some v => (ofCopy v).map (objs.put target)
  | .move source =>
    match objs source with
    | none => some objs
    | some v => some ((objs.put source (move v).2).put target (move v).1)

/-- A command on objects that do not exist is no command of a program, and does nothing. -/
def exec (objs : Objects ι) : Cmd ι → Option (Objects ι)
  | .construct target c => if (objs target).isSome then some objs else construct objs target c
  | .copyAssign target source =>
    if source = target then some objs
    else match objs target, objs source with
      | some _, some v => (copyAssign v).map (objs.put target)
      | _, _ => some objs
  | .moveAssign target source =>
    if source = target then some objs
    else match objs target, objs source with
      | some _, some v => some ((objs.put source (move v).2).put target (move v).1)
      | _, _ => some objs
  | .initAssign target c =>
    match objs target with
    | none => some objs
    | some _ => (initAssign c).map (objs.put target)
  | .destroy target => some (Function.update objs target none)

def step (s : Option (Objects ι)) (cmd : Cmd ι) : Option (Objects ι) := s.bind (exec · cmd)

end Programs

/-! ### Storage of the right length -/

/-- The array has exactly `_size` elements, or there are none. -/
def Sized (v : Vec) : Prop :=
  v.size = 0 ∨ ∃ xs : List UInt32, v.arr = some (held xs) ∧ xs.length = v.size

/-- `operator[]` returns an element below the size and throws from there on. -/
def IndexExact (v : Vec) : Prop :=
  ∀ i, if i < v.size then ∃ x, index v i = some (.ok x) else index v i = some (.error indexError)

lemma sized_held (xs : List UInt32) : Sized ⟨xs.length, some (held xs)⟩ := .inr ⟨xs, rfl, rfl⟩

lemma index_held {xs : List UInt32} {i : ℕ} (hi : i < xs.length) :
    index ⟨xs.length, some (held xs)⟩ i = some (.ok xs[i]) := by
  have hread : read (held xs) i = some xs[i] := by simpa using read_held hi []
  rw [index, if_pos hi, Option.bind_some, hread]
  rfl

lemma Sized.indexExact {v : Vec} (hv : Sized v) : IndexExact v := by
  intro i
  split_ifs with hi
  · obtain ⟨size, arr⟩ := v
    obtain h0 | ⟨xs, rfl, rfl⟩ := hv
    · obtain rfl : size = 0 := h0
      exact absurd hi (Nat.not_lt_zero i)
    · exact ⟨_, index_held hi⟩
  · exact if_neg hi

lemma fill_alloc (ys : List UInt32) {f : ℕ → Option UInt32}
    (hf : ∀ i, (hi : i < ys.length) → f i = some ys[i]) :
    forUp (fun i arr => (f i).bind (write arr i)) 0 ys.length (alloc ys.length) =
      some (held ys) := by
  rw [forUp_fill ys hf (by simp)]
  simp [alloc]

lemma ofSize_sized (n : ℕ) : ∃ v, ofSize n = some v ∧ Sized v := by
  have h := fill_alloc (List.replicate n 0) (f := fun _ => some 0) (by simp)
  simp only [List.length_replicate, Option.bind_some] at h
  refine ⟨⟨n, some (held (List.replicate n 0))⟩, by simp [ofSize, h], ?_⟩
  simpa using sized_held (List.replicate n 0)

lemma copyElems_sized {v : Vec} (hv : Sized v) :
    ∃ xs, copyElems v = some (held xs) ∧ xs.length = v.size := by
  obtain ⟨size, arr⟩ := v
  obtain h0 | ⟨xs, rfl, rfl⟩ := hv
  · obtain rfl : size = 0 := h0
    exact ⟨[], rfl, rfl⟩
  · refine ⟨xs, fill_alloc xs fun i hi => ?_, rfl⟩
    rw [index_held hi]
    rfl

lemma ofCopy_sized {v : Vec} (hv : Sized v) : ∃ v', ofCopy v = some v' ∧ Sized v' := by
  obtain ⟨xs, h, hlen⟩ := copyElems_sized hv
  exact ⟨_, by rw [ofCopy, h]; rfl, hlen ▸ sized_held xs⟩

lemma initAssign_sized (cs : List UInt32) : ∃ v, initAssign cs = some v ∧ Sized v := by
  have h := fill_alloc cs (f := fun i => cs[i]?) (by simp)
  exact ⟨⟨cs.length, some (held cs)⟩, by simp [initAssign, h], sized_held cs⟩

/-- What is left of a moved object has no array of its size unless the size is zero. -/
lemma sized_moved_iff (v : Vec) : Sized (move v).2 ↔ v.size = 0 := by
  simp [Sized, move]

/-! ### Along a program -/

def AllSized (objs : Objects ι) : Prop := ∀ i v, objs i = some v → Sized v

/-- The program has not used a null pointer, and every object is in order. -/
def InOrder (s : Option (Objects ι)) : Prop :=
  ∃ objs, s = some objs ∧ ∀ i v, objs i = some v → Sized v ∧ IndexExact v

lemma inOrder_iff {s : Option (Objects ι)} : InOrder s ↔ ∃ objs, s = some objs ∧ AllSized objs := by
  refine exists_congr fun objs => and_congr_right fun _ => ?_
  exact ⟨fun h i v hi => (h i v hi).1, fun h i v hi => ⟨h i v hi, (h i v hi).indexExact⟩⟩

/-- The command moves, from one object to another, at most an object of no elements. -/
def MovesEmpty (objs : Objects ι) : Cmd ι → Prop
  | .construct target (.move source) =>
    objs target = none → ∀ v, objs source = some v → v.size = 0
  | .moveAssign target source =>
    source ≠ target → (objs target).isSome → ∀ v, objs source = some v → v.size = 0
  | _ => True

variable [DecidableEq ι] {objs : Objects ι}

lemma allSized_put (hobjs : AllSized objs) {v : Vec} (hv : Sized v) (i : ι) :
    AllSized (objs.put i v) := by
  intro j w hj
  by_cases hji : j = i
  · subst hji
    obtain rfl : v = w := by simpa [Objects.put] using hj
    exact hv
  · exact hobjs j w (by simpa [Objects.put, Function.update_of_ne hji] using hj)

lemma allSized_map (hobjs : AllSized objs) {m : Option Vec} (hm : ∃ v, m = some v ∧ Sized v)
    (i : ι) : ∃ objs', m.map (objs.put i) = some objs' ∧ AllSized objs' := by
  obtain ⟨v, rfl, hv⟩ := hm
  exact ⟨_, rfl, allSized_put hobjs hv i⟩

/-- After a move the storage is right exactly when the object moved had no elements. -/
lemma allSized_move_iff (hobjs : AllSized objs) {target source : ι} (hne : source ≠ target)
    {v : Vec} (hv : objs source = some v) :
    AllSized ((objs.put source (move v).2).put target (move v).1) ↔ v.size = 0 := by
  constructor
  · intro h
    refine (sized_moved_iff v).mp (h source _ ?_)
    simp [Objects.put, Function.update_of_ne hne]
  · intro h
    exact allSized_put (allSized_put hobjs ((sized_moved_iff v).mpr h) source) (hobjs _ _ hv) target

lemma exec_move_iff (hobjs : AllSized objs) {target source : ι} (hne : source ≠ target) {v : Vec}
    (hv : objs source = some v) :
    (∃ objs', some ((objs.put source (move v).2).put target (move v).1) = some objs' ∧
      AllSized objs') ↔ ∀ w, objs source = some w → w.size = 0 := by
  simp only [Option.some.injEq, exists_eq_left', hv, forall_eq']
  exact allSized_move_iff hobjs hne hv

/-- **One command** keeps the storage right exactly when it moves nothing but empty objects. -/
lemma exec_iff (hobjs : AllSized objs) (cmd : Cmd ι) :
    (∃ objs', exec objs cmd = some objs' ∧ AllSized objs') ↔ MovesEmpty objs cmd := by
  have hsame : ∃ objs', some objs = some objs' ∧ AllSized objs' := ⟨objs, rfl, hobjs⟩
  cases cmd with
  | construct target c =>
    rcases htarget : objs target with _ | w
    · simp only [exec, htarget, Option.isSome_none, Bool.false_eq_true, if_false]
      cases c with
      | default => exact iff_of_true ⟨_, rfl, allSized_put hobjs (.inl rfl) target⟩ trivial
      | size n => exact iff_of_true (allSized_map hobjs (ofSize_sized n) target) trivial
      | copy source =>
        refine iff_of_true ?_ trivial
        rcases hsource : objs source with _ | v
        · simpa only [construct, hsource] using hsame
        · simp only [construct, hsource]
          exact allSized_map hobjs (ofCopy_sized (hobjs _ _ hsource)) target
      | move source =>
        simp only [MovesEmpty, htarget, true_imp_iff]
        rcases hsource : objs source with _ | v
        · simpa [construct, hsource] using hsame
        · have hne : source ≠ target := by
            rintro rfl
            simp [hsource] at htarget
          simp only [construct, hsource]
          exact hsource ▸ exec_move_iff hobjs hne hsource
    · -- the object exists already
      simp only [exec, htarget, Option.isSome_some, if_true]
      refine iff_of_true hsame ?_
      cases c <;> simp [MovesEmpty, htarget]
  | copyAssign target source =>
    refine iff_of_true ?_ trivial
    simp only [exec]
    split_ifs
    · exact hsame
    · split
      · next hsource => exact allSized_map hobjs (ofCopy_sized (hobjs _ _ hsource)) target
      · exact hsame
  | moveAssign target source =>
    simp only [exec, MovesEmpty]
    split_ifs with hself
    · exact iff_of_true hsame fun h => absurd hself h
    · rcases htarget : objs target with _ | w
      · simpa using hsame
      · rcases hsource : objs source with _ | v
        · simpa using hsame
        · simpa [hself, hsource] using exec_move_iff hobjs hself hsource
  | initAssign target c =>
    refine iff_of_true ?_ trivial
    simp only [exec]
    split
    · exact hsame
    · exact allSized_map hobjs (initAssign_sized c) target
  | destroy target =>
    refine iff_of_true ⟨_, rfl, fun i v hi => ?_⟩ trivial
    by_cases h : i = target
    · simp [h] at hi
    · exact hobjs i v (by simpa [Function.update_of_ne h] using hi)

/-- **The size is that of the storage exactly as long as only empty objects are moved from.** -/
theorem inOrder_iff_movesEmpty (cmds : List (Cmd ι)) :
    (∀ pre, pre <+: cmds → InOrder (run step (some fun _ => none) pre)) ↔
      ∀ pre cmd, pre ++ [cmd] <+: cmds →
        ∀ objs, run step (some fun _ => none) pre = some objs → MovesEmpty objs cmd := by
  have hinit : InOrder (some fun _ => none : Option (Objects ι)) := ⟨_, rfl, by simp⟩
  have hstep (s : Option (Objects ι)) (cmd : Cmd ι) (hs : InOrder s) :
      InOrder (step s cmd) ↔ ∀ objs, s = some objs → MovesEmpty objs cmd := by
    obtain ⟨objs, rfl, hobjs⟩ := inOrder_iff.mp hs
    rw [inOrder_iff]
    simpa [step] using exec_iff hobjs cmd
  exact always_iff_guarded hinit hstep cmds

/-- A vector of one element is moved from: its size is still one, and `v[0]` has no element to
return. -/
theorem inOrder_not_moved :
    ∃ objs : Objects Bool, ∃ v,
      run step (some fun _ => none) [.construct true (.size 1), .construct false (.move true)] =
        some objs ∧
      objs true = some v ∧ v.size = 1 ∧ v.arr = none ∧ index v 0 = none :=
  ⟨_, _, rfl, rfl, rfl, rfl, rfl⟩

end Zinzhi.FixedVector
