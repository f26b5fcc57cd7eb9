import Zinzhi.Cells
import Mathlib.Logic.Function.Basic

/-!
`Vector<T>` of `lab1_1.5`, which grows by `CAPACITY` elements whenever it is full.

`new T[n]` gives empty cells, so an element that was never assigned is never taken for a value.
An operation has no result where the code would leave its array or use such an element; a call
that throws keeps the object as it is then. The `int` counters of the loops are those of the
sizes below `2^31`.
-/

namespace Zinzhi.GrowVector

open Zinzhi.Cells

variable {T ι : Type}

def CAPACITY : ℕ := 50

structure Vec (T : Type) where
  capacity : ℕ
  size : ℕ
  arr : Block T

inductive Exn
  | outOfRange (what : String)
  deriving DecidableEq, Repr

def indexError : Exn := .outOfRange "Index out of Vector range"

/-! ### Operations -/

/-- `operator[]`, the element read -/
def index (v : Vec T) (i : ℕ) : Except Exn (Option T) :=
  if i < v.size then .ok (read v.arr i) else .error indexError

/-- `tmp[i] = v[i]` for the elements of `v`. No exception can leave this loop: it stays below
`v._size`. -/
def copyElems (v : Vec T) (tmp : Block T) : Option (Block T) :=
  forUp (fun i tmp => (index v i).toOption.join.bind (write tmp i)) 0 v.size tmp

def resize (v : Vec T) : Option (Vec T) := do
  let tmp ← forUp (fun i tmp => (read v.arr i).bind (write tmp i)) 0 v.size
    (alloc (v.capacity + CAPACITY))
  return { v with capacity := v.capacity + CAPACITY, arr := tmp }

def resizeIfNotFit (v : Vec T) : Option (Vec T) :=
  if v.size = v.capacity then resize v else some v

def pushBack (v : Vec T) (e : T) : Option (Vec T) := do
  let v ← resizeIfNotFit v
  let arr ← write v.arr v.size e
  return { v with arr := arr, size := v.size + 1 }

def insert (v : Vec T) (p : ℕ) (e : T) : Option (Except Exn Unit × Vec T) :=
  if p < v.size then do
    let v ← resizeIfNotFit v
    let arr ← forDown (fun i arr => (read arr (i - 1)).bind (write arr i)) v.size p v.arr
    let arr ← write arr p e
    return (.ok (), { v with arr := arr, size := v.size + 1 })
  else if p = v.size then do
    return (.ok (), ← pushBack v e)
  else return (.error indexError, v)

def erase (v : Vec T) (p : ℕ) : Option (Except Exn Unit × Vec T) :=
  if p < v.size then do
    let arr ← forUp (fun i arr => (read arr (i + 1)).bind (write arr i)) p (v.size - 1) v.arr
    return (.ok (), { v with arr := arr, size := v.size - 1 })
  else return (.error indexError, v)

def clear (v : Vec T) : Vec T := { v with size := 0 }

/-- `v[i] = e` -/
def setAt (v : Vec T) (i : ℕ) (e : T) : Option (Except Exn Unit × Vec T) :=
  if i < v.size then do
    return (.ok (), { v with arr := ← write v.arr i e })
  else return (.error indexError, v)

/-- `operator=` from another vector -/
def copyAssign (v : Vec T) : Option (Vec T) := do
  let tmp ← copyElems v (alloc v.capacity)
  return { capacity := v.capacity, size := v.size, arr := tmp }

/-- `operator=` from an initializer list -/
def initAssign (v : Vec T) (c : List T) : Option (Vec T) := c.foldlM pushBack { v with size := 0 }

/-! ### Constructors -/

def ofDefault : Vec T := ⟨CAPACITY, 0, alloc CAPACITY⟩

def ofValue (sz : ℕ) (e : T) : Option (Vec T) := do
  let arr ← forUp (fun i arr => write arr i e) 0 sz (alloc (max sz CAPACITY))
  return ⟨max sz CAPACITY, sz, arr⟩

def ofSize [Inhabited T] (sz : ℕ) : Option (Vec T) := ofValue sz default

def ofCopy (v : Vec T) : Option (Vec T) := do
  return ⟨v.capacity, v.size, ← copyElems v (alloc v.capacity)⟩

def ofInit (c : List T) : Option (Vec T) := c.foldlM pushBack ofDefault

/-! ### What a vector represents -/

structure Represents (v : Vec T) (l : List T) : Prop where
  size_eq : v.size = l.length
  size_le : v.size ≤ v.capacity
  length_arr : v.arr.length = v.capacity
  elems : v.arr.take v.size = held l

/-- The elements, and behind them the cells that are allocated but not in use. -/
def stored (l : List T) (rest : Block T) : Vec T :=
  ⟨l.length + rest.length, l.length, held l ++ rest⟩

lemma represents_iff {v : Vec T} {l : List T} : Represents v l ↔ ∃ rest, v = stored l rest := by
  constructor
  · rintro ⟨hsize, hle, hlen, helems⟩
    obtain ⟨capacity, size, arr⟩ := v
    dsimp only at hsize hle hlen helems
    have harr : arr = held l ++ arr.drop size := by rw [← helems, List.take_append_drop]
    refine ⟨arr.drop size, ?_⟩
    rw [stored, ← harr, ← hsize, List.length_drop, hlen]
    simp [hle]
  · rintro ⟨rest, rfl⟩
    exact ⟨rfl, by simp [stored], by simp [stored], take_held l rest⟩

lemma represents_stored (l : List T) (rest : Block T) : Represents (stored l rest) l :=
  represents_iff.mpr ⟨rest, rfl⟩

lemma Represents.unique {v : Vec T} {l l' : List T} (h : Represents v l) (h' : Represents v l') :
    l = l' := by
  have hheld : held l = held l' := h.elems.symm.trans h'.elems
  exact (List.map_inj_right fun _ _ => Option.some.inj).mp hheld

/-! ### Each operation on a stored list -/

lemma resize_stored (l : List T) (rest : Block T) :
    resize (stored l rest) = some (stored l (alloc (rest.length + CAPACITY))) := by
  have hlen : l.length ≤ (alloc (l.length + rest.length + CAPACITY) : Block T).length := by
    rw [length_alloc]; omega
  have hcopy := forUp_fill l (fun i hi => read_held hi rest) hlen
  have hdrop : (alloc (l.length + rest.length + CAPACITY) : Block T).drop l.length =
      alloc (rest.length + CAPACITY) := by
    simp [alloc, Nat.add_assoc]
  simp only [resize, stored, hcopy, hdrop, length_alloc]
  simp [Nat.add_assoc]

/-- There is a free cell after `resize_if_not_fit`. -/
lemma resizeIfNotFit_stored (l : List T) (rest : Block T) :
    ∃ c rest', resizeIfNotFit (stored l rest) = some (stored l (c :: rest')) := by
  cases rest with
  | nil =>
    refine ⟨none, alloc (CAPACITY - 1), ?_⟩
    have hfull : (stored l ([] : Block T)).size = (stored l ([] : Block T)).capacity := rfl
    rw [resizeIfNotFit, if_pos hfull, resize_stored]
    rfl
  | cons c rest =>
    have hroom : (stored l (c :: rest)).size ≠ (stored l (c :: rest)).capacity := by simp [stored]
    exact ⟨c, rest, if_neg hroom⟩

lemma pushBack_stored (l : List T) (rest : Block T) (e : T) :
    ∃ rest', pushBack (stored l rest) e = some (stored (l ++ [e]) rest') := by
  obtain ⟨c, rest', hfit⟩ := resizeIfNotFit_stored l rest
  have hwrite : write (held l ++ c :: rest') l.length e = some (held (l ++ [e]) ++ rest') := by
    simpa using write_mid (held l) c rest' e
  refine ⟨rest', ?_⟩
  simp only [pushBack, hfit, Option.bind_eq_bind, Option.bind_some]
  simp only [stored, hwrite]
  simp [Nat.add_assoc, Nat.add_comm 1]

lemma foldlM_pushBack_stored (l : List T) (rest : Block T) (c : List T) :
    ∃ rest', c.foldlM pushBack (stored l rest) = some (stored (l ++ c) rest') := by
  induction c generalizing l rest with
  | nil => exact ⟨rest, by simp⟩
  | cons e c ih =>
    obtain ⟨rest₁, h₁⟩ := pushBack_stored l rest e
    obtain ⟨rest₂, h₂⟩ := ih (l ++ [e]) rest₁
    refine ⟨rest₂, ?_⟩
    rw [List.foldlM_cons, h₁]
    simpa using h₂

/-- The loop of `insert` doubles the element at `p`. -/
lemma shift_held {l : List T} {p : ℕ} (hp : p < l.length) (c : Option T) (rest : Block T) :
    forDown (fun i arr => (read arr (i - 1)).bind (write arr i)) l.length p (held l ++ c :: rest) =
      some (held (l.take (p + 1) ++ l.drop p) ++ rest) := by
  have hshift := down_shift (held (l.take p)) (l.drop p) c rest
  have hpre : (held (l.take p)).length = p := by simp [Nat.le_of_lt hp]
  have hsplit : held (l.take p) ++ held (l.drop p) = held l := by
    rw [← held_append, List.take_append_drop]
  have hhead : (l.drop p).head?.or c = some l[p] := by simp [hp]
  rw [hpre, List.length_drop, hsplit, hhead] at hshift
  rw [forDown, hshift, List.take_succ_eq_append_getElem hp]
  simp only [held_append, held_cons, List.append_assoc, List.cons_append, List.nil_append]

lemma set_shifted {l : List T} {p : ℕ} (hp : p < l.length) (e : T) :
    (l.take (p + 1) ++ l.drop p).set p e = l.take p ++ e :: l.drop p := by
  have hlen : (l.take p).length = p := by simp [Nat.le_of_lt hp]
  rw [List.take_succ_eq_append_getElem hp, List.append_assoc, List.set_append_right _ _ (by omega),
    hlen, Nat.sub_self]
  rfl

lemma insert_stored {l : List T} {p : ℕ} (hp : p ≤ l.length) (rest : Block T) (e : T) :
    ∃ rest', insert (stored l rest) p e =
      some (.ok (), stored (l.take p ++ e :: l.drop p) rest') := by
  rcases Nat.lt_or_eq_of_le hp with hlt | rfl
  · obtain ⟨c, rest', hfit⟩ := resizeIfNotFit_stored l rest
    refine ⟨rest', ?_⟩
    have hp' : p < (l.take (p + 1) ++ l.drop p).length := by simp; omega
    have hwrite := write_held hp' e rest'
    rw [set_shifted hlt] at hwrite
    have hsize : (stored l rest).size = l.length := rfl
    rw [insert, hsize, if_pos hlt, hfit]
    simp only [stored, Option.bind_eq_bind, Option.bind_some, shift_held hlt, hwrite]
    have hlen : (l.take p ++ e :: l.drop p).length = l.length + 1 := by simp; omega
    simp [hlen, Nat.add_assoc, Nat.add_comm 1]
  · obtain ⟨rest', hpush⟩ := pushBack_stored l rest e
    refine ⟨rest', ?_⟩
    have hsize : (stored l rest).size = l.length := rfl
    rw [insert, hsize, if_neg (Nat.lt_irrefl _), if_pos rfl, hpush]
    simp

lemma erase_stored {l : List T} {p : ℕ} (hp : p < l.length) (rest : Block T) :
    ∃ rest', erase (stored l rest) p = some (.ok (), stored (l.eraseIdx p) rest') := by
  obtain ⟨last, hshift⟩ := up_shift (held (l.take p)) (some l[p]) (l.drop (p + 1)) rest
  refine ⟨last :: rest, ?_⟩
  have hpre : (held (l.take p)).length = p := by simp [Nat.le_of_lt hp]
  have hsplit : held (l.take p) ++ some l[p] :: (held (l.drop (p + 1)) ++ rest) =
      held l ++ rest := by
    rw [← List.cons_append, ← held_cons, List.getElem_cons_drop, ← List.append_assoc, ← held_append,
      List.take_append_drop]
  have hlist : held (l.eraseIdx p) = held (l.take p) ++ held (l.drop (p + 1)) := by
    rw [← held_append, List.eraseIdx_eq_take_drop_succ]
  have hrounds : l.length - 1 - p = (l.drop (p + 1)).length := by simp; omega
  rw [hpre, hsplit, ← hlist] at hshift
  have hsize : (stored l rest).size = l.length := rfl
  rw [erase, hsize, if_pos hp]
  simp only [stored, forUp, hrounds, hshift, Option.bind_eq_bind, Option.bind_some]
  simp [List.length_eraseIdx_of_lt hp]
  omega

lemma setAt_stored {l : List T} {i : ℕ} (hi : i < l.length) (rest : Block T) (e : T) :
    setAt (stored l rest) i e = some (.ok (), stored (l.set i e) rest) := by
  have hsize : (stored l rest).size = l.length := rfl
  rw [setAt, hsize, if_pos hi]
  simp [stored, write_held hi]

lemma copyElems_stored (l : List T) (rest : Block T) :
    copyElems (stored l rest) (alloc (l.length + rest.length)) =
      some (held l ++ alloc rest.length) := by
  have hread (i : ℕ) (hi : i < l.length) :
      (index (stored l rest) i).toOption.join = some l[i] := by
    have hsize : (stored l rest).size = l.length := rfl
    rw [index, hsize, if_pos hi]
    exact read_held hi rest
  have hcopy := forUp_fill l hread (c := alloc (l.length + rest.length)) (by simp)
  rw [copyElems]
  simpa [stored, alloc] using hcopy

lemma ofValue_stored (sz : ℕ) (e : T) :
    ∃ rest, ofValue sz e = some (stored (List.replicate sz e) rest) := by
  have hle : (List.replicate sz e).length ≤ (alloc (max sz CAPACITY) : Block T).length := by
    rw [List.length_replicate, length_alloc]
    exact Nat.le_max_left sz CAPACITY
  have hfill := forUp_fill (List.replicate sz e) (f := fun _ => some e)
    (c := alloc (max sz CAPACITY)) (by simp) hle
  have hcap : sz + (max sz CAPACITY - sz) = max sz CAPACITY :=
    Nat.add_sub_cancel' (Nat.le_max_left sz CAPACITY)
  refine ⟨alloc (max sz CAPACITY - sz), ?_⟩
  simp only [List.length_replicate, Option.bind_some] at hfill
  simp only [ofValue, hfill, stored]
  simp only [alloc, List.length_replicate, List.drop_replicate, hcap]
  rfl

lemma represents_ofCopy {v : Vec T} {l : List T} (hv : Represents v l) :
    ∃ v', ofCopy v = some v' ∧ Represents v' l := by
  obtain ⟨rest, rfl⟩ := represents_iff.mp hv
  refine ⟨stored l (alloc rest.length), ?_, represents_stored _ _⟩
  have hcopy := copyElems_stored l rest
  simp only [stored] at hcopy
  simp [ofCopy, stored, hcopy]

/-! ### Several vectors -/

inductive Ctor (T ι : Type)
  | default
  | size (sz : ℕ)
  | value (sz : ℕ) (e : T)
  | init (c : List T)
  | copy (source : ι)

inductive Op (T ι : Type)
  | pushBack (e : T)
  | insert (p : ℕ) (e : T)
  | erase (p : ℕ)
  | clear
  | setAt (i : ℕ) (e : T)
  | copyAssign (source : ι)
  | initAssign (c : List T)

/-- A variable is given a new vector, or a member function is called on the vector it has. -/
inductive Cmd (T ι : Type)
  | construct (target : ι) (c : Ctor T ι)
  | call (target : ι) (op : Op T ι)

def build [Inhabited T] (vs : ι → Vec T) : Ctor T ι → Option (Vec T)
  | .default => some ofDefault
  | .size sz => ofSize sz
  | .value sz e => ofValue sz e
  | .init c => ofInit c
  | .copy source => ofCopy (vs source)

def callOp [DecidableEq ι] (vs : ι → Vec T) (target : ι) : Op T ι → Option (Except Exn Unit × Vec T)
  | .pushBack e => (pushBack (vs target) e).map (.ok (), ·)
  | .insert p e => insert (vs target) p e
  | .erase p => erase (vs target) p
  | .clear => some (.ok (), clear (vs target))
  | .setAt i e => setAt (vs target) i e
  | .copyAssign source =>
    if source = target then some (.ok (), vs target)
    else (copyAssign (vs source)).map (.ok (), ·)
  | .initAssign c => (initAssign (vs target) c).map (.ok (), ·)

def step [DecidableEq ι] [Inhabited T] (vs : ι → Vec T) :
    Cmd T ι → Option (Except Exn Unit × (ι → Vec T))
  | .construct target c => (build vs c).map fun v => (.ok (), Function.update vs target v)
  | .call target op => (callOp vs target op).map fun (r, v) => (r, Function.update vs target v)

/-- A caller that goes on after an exception. -/
def exec [DecidableEq ι] [Inhabited T] (vs : ι → Vec T) (cmds : List (Cmd T ι)) :
    Option (ι → Vec T) :=
  cmds.foldlM (fun vs cmd => (step vs cmd).map Prod.snd) vs

/-! ### The same on lists -/

def absBuild [Inhabited T] (ls : ι → List T) : Ctor T ι → List T
  | .default => []
  | .size sz => List.replicate sz default
  | .value sz e => List.replicate sz e
  | .init c => c
  | .copy source => ls source

/-- The list after the operation; none when the index is out of range. -/
def absOp (ls : ι → List T) (target : ι) : Op T ι → Option (List T)
  | .pushBack e => some (ls target ++ [e])
  | .insert p e =>
    if p ≤ (ls target).length then some ((ls target).take p ++ e :: (ls target).drop p) else none
  | .erase p => if p < (ls target).length then some ((ls target).eraseIdx p) else none
  | .clear => some []
  | .setAt i e => if i < (ls target).length then some ((ls target).set i e) else none
  | .copyAssign source => some (ls source)
  | .initAssign c => some c

def absStep [DecidableEq ι] [Inhabited T] (ls : ι → List T) : Cmd T ι → ι → List T
  | .construct target c => Function.update ls target (absBuild ls c)
  | .call target op => Function.update ls target ((absOp ls target op).getD (ls target))

def absRun [DecidableEq ι] [Inhabited T] (cmds : List (Cmd T ι)) : ι → List T :=
  cmds.foldl absStep fun _ => []

/-- The index of the command is not one of its vector. -/
def OutOfRange (ls : ι → List T) : Cmd T ι → Prop
  | .call target (.insert p _) => (ls target).length < p
  | .call target (.erase p) => (ls target).length ≤ p
  | .call target (.setAt i _) => (ls target).length ≤ i
  | _ => False

/-! ### Refinement -/

section Refinement

variable {vs : ι → Vec T} {ls : ι → List T} (hvs : ∀ i, Represents (vs i) (ls i))

include hvs

lemma represents_build [Inhabited T] (c : Ctor T ι) :
    ∃ v, build vs c = some v ∧ Represents v (absBuild ls c) := by
  cases c with
  | default => exact ⟨_, rfl, represents_stored [] (alloc CAPACITY)⟩
  | size sz =>
    obtain ⟨rest, h⟩ := ofValue_stored sz (default : T)
    exact ⟨_, h, represents_stored _ _⟩
  | value sz e =>
    obtain ⟨rest, h⟩ := ofValue_stored sz e
    exact ⟨_, h, represents_stored _ _⟩
  | init c =>
    obtain ⟨rest, h⟩ := foldlM_pushBack_stored [] (alloc CAPACITY) c
    exact ⟨_, h, represents_stored _ _⟩
  | copy source => exact represents_ofCopy (hvs source)

/-- A call does to the vector what it does to the list. Out of range it throws, and changes
nothing. -/
lemma callOp_spec [DecidableEq ι] (target : ι) (op : Op T ι) :
    (∃ v, callOp vs target op = some (.ok (), v) ∧ ¬OutOfRange ls (.call target op) ∧
        Represents v ((absOp ls target op).getD (ls target))) ∨
      callOp vs target op = some (.error indexError, vs target) ∧
        OutOfRange ls (.call target op) ∧ absOp ls target op = none := by
  obtain ⟨rest, hv⟩ := represents_iff.mp (hvs target)
  have hsize : (vs target).size = (ls target).length := (hvs target).size_eq
  cases op with
  | pushBack e =>
    obtain ⟨rest', h⟩ := pushBack_stored (ls target) rest e
    refine .inl ⟨stored (ls target ++ [e]) rest', ?_, not_false, represents_stored _ _⟩
    rw [callOp, hv, h]
    rfl
  | insert p e =>
    by_cases hp : p ≤ (ls target).length
    · obtain ⟨rest', h⟩ := insert_stored hp rest e
      refine .inl ⟨_, by rw [callOp, hv, h], Nat.not_lt.mpr hp, ?_⟩
      simpa only [absOp, if_pos hp, Option.getD_some] using represents_stored _ _
    · refine .inr ⟨?_, Nat.not_le.mp hp, if_neg hp⟩
      have h1 : ¬p < (ls target).length := fun h => hp (Nat.le_of_lt h)
      have h2 : p ≠ (ls target).length := fun h => hp (Nat.le_of_eq h)
      simp only [callOp, insert, hsize, if_neg h1, if_neg h2, pure]
  | erase p =>
    by_cases hp : p < (ls target).length
    · obtain ⟨rest', h⟩ := erase_stored hp rest
      refine .inl ⟨_, by rw [callOp, hv, h], Nat.not_le.mpr hp, ?_⟩
      simpa only [absOp, if_pos hp, Option.getD_some] using represents_stored _ _
    · refine .inr ⟨?_, Nat.not_lt.mp hp, if_neg hp⟩
      simp only [callOp, erase, hsize, if_neg hp, pure]
  | clear =>
    refine .inl ⟨_, rfl, not_false, ?_⟩
    exact ⟨rfl, Nat.zero_le _, (hvs target).length_arr, rfl⟩
  | setAt i e =>
    by_cases hi : i < (ls target).length
    · refine .inl ⟨_, by rw [callOp, hv, setAt_stored hi], Nat.not_le.mpr hi, ?_⟩
      simpa only [absOp, if_pos hi, Option.getD_some] using represents_stored _ _
    · refine .inr ⟨?_, Nat.not_lt.mp hi, if_neg hi⟩
      simp only [callOp, setAt, hsize, if_neg hi, pure]
  | copyAssign source =>
    by_cases hself : source = target
    · -- an assignment to itself does nothing
      subst hself
      exact .inl ⟨_, by simp [callOp], not_false, hvs source⟩
    · obtain ⟨v, h, hrep⟩ := represents_ofCopy (hvs source)
      refine .inl ⟨v, ?_, not_false, hrep⟩
      rw [callOp, if_neg hself, show copyAssign (vs source) = some v from h]
      rfl
  | initAssign c =>
    have hclear : Represents (clear (vs target)) [] :=
      ⟨rfl, Nat.zero_le _, (hvs target).length_arr, rfl⟩
    obtain ⟨rest₀, hc⟩ := represents_iff.mp hclear
    obtain ⟨rest', h⟩ := foldlM_pushBack_stored [] rest₀ c
    rw [← hc] at h
    refine .inl ⟨stored c rest', ?_, not_false, represents_stored _ _⟩
    rw [callOp, show initAssign (vs target) c = _ from h]
    rfl

/-- **One command** keeps every vector in step with its list. -/
lemma step_spec [DecidableEq ι] [Inhabited T] (cmd : Cmd T ι) :
    ∃ r vs', step vs cmd = some (r, vs') ∧ (∀ i, Represents (vs' i) (absStep ls cmd i)) ∧
      (r = .ok () ∧ ¬OutOfRange ls cmd ∨ r = .error indexError ∧ OutOfRange ls cmd ∧ vs' = vs) := by
  have hupdate (target : ι) {v : Vec T} {l : List T} (hv : Represents v l) (i : ι) :
      Represents (Function.update vs target v i) (Function.update ls target l i) := by
    by_cases hi : i = target
    · subst hi
      simpa using hv
    · simpa [Function.update_of_ne hi] using hvs i
  cases cmd with
  | construct target c =>
    obtain ⟨v, h, hrep⟩ := represents_build hvs c
    exact ⟨_, _, by rw [step, h]; rfl, hupdate target hrep, .inl ⟨rfl, not_false⟩⟩
  | call target op =>
    obtain ⟨v, h, hin, hrep⟩ | ⟨h, hout, hnone⟩ := callOp_spec hvs target op
    · exact ⟨_, _, by rw [step, h]; rfl, hupdate target hrep, .inl ⟨rfl, hin⟩⟩
    · refine ⟨_, vs, ?_, ?_, .inr ⟨rfl, hout, rfl⟩⟩
      · rw [step, h]
        simp
      · simpa [absStep, hnone] using hvs

end Refinement

lemma exec_spec [DecidableEq ι] [Inhabited T] {vs : ι → Vec T} {ls : ι → List T}
    (hvs : ∀ i, Represents (vs i) (ls i)) (cmds : List (Cmd T ι)) :
    ∃ vs', exec vs cmds = some vs' ∧ ∀ i, Represents (vs' i) (cmds.foldl absStep ls i) := by
  induction cmds generalizing vs ls with
  | nil => exact ⟨vs, rfl, hvs⟩
  | cons cmd cmds ih =>
    obtain ⟨r, vs₁, h, hrep, -⟩ := step_spec hvs cmd
    obtain ⟨vs₂, h₂, hrep₂⟩ := ih hrep
    refine ⟨vs₂, ?_, hrep₂⟩
    rw [exec, List.foldlM_cons, h]
    exact h₂

/-- **`Vector` refines a list.** Whatever is done with any number of vectors, each of them stores
the list that the same commands give, in an array of as many elements as its capacity. Whatever
is done next has a result, which is the exception exactly when the index is out of range, and
then all vectors are as before. -/
theorem vector_refines_list [DecidableEq ι] [Inhabited T] (cmds : List (Cmd T ι)) :
    ∃ vs, exec (fun _ => ofDefault) cmds = some vs ∧
      (∀ i, Represents (vs i) (absRun cmds i)) ∧
      ∀ cmd, ∃ r vs', step vs cmd = some (r, vs') ∧
        (r = .ok () ∧ ¬OutOfRange (absRun cmds) cmd ∨
          r = .error indexError ∧ OutOfRange (absRun cmds) cmd ∧ vs' = vs) := by
  have hinit (i : ι) :
      Represents ((fun _ => ofDefault : ι → Vec T) i) ((fun _ => [] : ι → List T) i) :=
    represents_stored [] (alloc CAPACITY)
  obtain ⟨vs, h, hrep⟩ := exec_spec hinit cmds
  refine ⟨vs, h, hrep, fun cmd => ?_⟩
  obtain ⟨r, vs', hstep, -, hr⟩ := step_spec hrep cmd
  exact ⟨r, vs', hstep, hr⟩

end Zinzhi.GrowVector
