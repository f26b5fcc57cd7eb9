import Zinzhi.GrowVector

/-!
`insert` and `push_back` of `Vector<T>` when their argument is an element of the same vector.

The argument is a reference, so its value is the one its slot has when the code reads it: behind
the loop that moves the elements up. After a reallocation the slot is gone, and reading it has no
result. The `int` counter of that loop is the one of the sizes below `2^31`, as in `GrowVector`.
-/

namespace Zinzhi.VectorAlias

open Zinzhi.Cells Zinzhi.GrowVector

variable {T : Type}

/-- What a `const T&` refers to. -/
inductive Arg (T : Type)
  /-- An object outside the vector. -/
  | value (e : T)
  /-- `v[k]` of the vector itself. -/
  | slot (k : ℕ)

/-- The value read from the argument, with the array as it is then. -/
def Arg.get (reallocated : Bool) (arr : Block T) : Arg T → Option T
  | .value e => some e
  | .slot k => if reallocated then none else read arr k

def pushBackArg (v : Vec T) (e : Arg T) : Option (Vec T) := do
  let v' ← resizeIfNotFit v
  let x ← e.get (v.size = v.capacity) v'.arr
  let arr ← write v'.arr v'.size x
  return { v' with arr := arr, size := v'.size + 1 }

def insertArg (v : Vec T) (p : ℕ) (e : Arg T) : Option (Except Exn Unit × Vec T) :=
  if p < v.size then do
    let v' ← resizeIfNotFit v
    let arr ← forDown (fun i arr => (read arr (i - 1)).bind (write arr i)) v'.size p v'.arr
    let x ← e.get (v.size = v.capacity) arr
    let arr ← write arr p x
    return (.ok (), { v' with arr := arr, size := v'.size + 1 })
  else if p = v.size then do
    return (.ok (), ← pushBackArg v e)
  else return (.error indexError, v)

/-- `v.insert(p, v[k])`, where `v[k]` is looked up before the call. -/
def insertOwn (v : Vec T) (p k : ℕ) : Option (Except Exn Unit × Vec T) :=
  if k < v.size then insertArg v p (.slot k) else return (.error indexError, v)

lemma Arg.get_slot (arr : Block T) (k : ℕ) : (Arg.slot k).get false arr = read arr k := rfl

/-! ### Arguments from outside -/

lemma pushBackArg_value (v : Vec T) (e : T) : pushBackArg v (.value e) = pushBack v e := rfl

lemma insertArg_value (v : Vec T) (p : ℕ) (e : T) : insertArg v p (.value e) = insert v p e := rfl

/-! ### Elements of the vector -/

lemma getElem_shifted {l : List T} {p k : ℕ} (hp : p < l.length) (hk : k < l.length) :
    (l.take (p + 1) ++ l.drop p)[k]? = some (if k ≤ p then l[k] else l[k - 1]) := by
  have hlen : (l.take (p + 1)).length = p + 1 := by simp; omega
  by_cases hkp : k ≤ p
  · rw [if_pos hkp, List.getElem?_append_left (by omega), List.getElem?_take_of_lt (by omega),
      List.getElem?_eq_getElem hk]
  · have hpos : p + (k - (p + 1)) = k - 1 := by omega
    rw [if_neg hkp, List.getElem?_append_right (by omega), hlen, List.getElem?_drop, hpos,
      List.getElem?_eq_getElem (by omega)]

/-- **What is inserted** is the element itself, or the one before it where the loop has moved the
elements. -/
lemma insertArg_slot {l : List T} {p k : ℕ} (hp : p ≤ l.length) (hk : k < l.length)
    (c : Option T) (rest : Block T) :
    insertArg (stored l (c :: rest)) p (.slot k) =
      some (.ok (), stored (l.take p ++ (if k ≤ p then l[k] else l[k - 1]) :: l.drop p) rest) := by
  have hroom : l.length ≠ (stored l (c :: rest)).capacity := by simp [stored]
  have hfit : resizeIfNotFit (stored l (c :: rest)) = some (stored l (c :: rest)) := if_neg hroom
  have hsize : (stored l (c :: rest)).size = l.length := rfl
  rcases Nat.lt_or_eq_of_le hp with hlt | rfl
  · -- the loop moves the elements from `p` on
    have hp' : p < (l.take (p + 1) ++ l.drop p).length := by simp; omega
    have hk' : k < (l.take (p + 1) ++ l.drop p).length := by simp; omega
    have hget := getElem_shifted hlt hk
    rw [List.getElem?_eq_getElem hk', Option.some_inj] at hget
    have hread := read_held hk' rest
    have hwrite := write_held hp' (if k ≤ p then l[k] else l[k - 1]) rest
    rw [hget] at hread
    rw [set_shifted hlt] at hwrite
    rw [insertArg, hsize, if_pos hlt, hfit, decide_eq_false hroom]
    simp only [stored, Option.bind_eq_bind, Option.bind_some, shift_held hlt, Arg.get_slot, hread,
      hwrite]
    have hlen (e : T) : (l.take p ++ e :: l.drop p).length = l.length + 1 := by simp; omega
    simp [hlen, Nat.add_assoc, Nat.add_comm 1]
  · -- at the end it is `push_back`
    have hread := read_held hk (c :: rest)
    have hwrite := write_next l c rest l[k]
    rw [insertArg, hsize, if_neg (Nat.lt_irrefl _), if_pos rfl, pushBackArg, hsize,
      hfit, decide_eq_false hroom]
    simp only [stored, Option.bind_eq_bind, Option.bind_some, Arg.get_slot, hread, hwrite]
    simp [Nat.le_of_lt hk, Nat.add_assoc, Nat.add_comm 1]

end Zinzhi.VectorAlias
