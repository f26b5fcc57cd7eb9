import Zinzhi.GrowVector
import Mathlib.Data.Finset.Card
import Mathlib.Data.List.Destutter
import Mathlib.Data.List.Sort

/-!
`Vector<T>::sort` of `lab1_1.5`: a merge sort on parts of the array, in either direction.

A pointer with a length is the place of a part of the array. What is read through a pointer to
constants is a function of the index. An index outside the part has no result, so a call with a
result has stayed inside. The `int` counter of the copy loop is that of the sizes below `2^31`, as
in `GrowVector`.
-/

namespace Zinzhi.VectorSort

open Zinzhi.Cells Zinzhi.GrowVector

section Sorting

variable {T : Type} [LT T] [DecidableLT T]

/-! ### The functions -/

/-- Whether the element `x` of `a` goes before the element `y` of `b`. -/
def takesLeft (asc : Bool) (x y : T) : Bool := if asc then x < y else !decide (x < y)

/-- `while (ia < na && ib < nb)` -/
def mergeLoop (a : ℕ → Option T) (na : ℕ) (b : ℕ → Option T) (nb : ℕ) (asc : Bool)
    (ia ib ic : ℕ) (c : Block T) : Option (ℕ × ℕ × ℕ × Block T) :=
  if _h : ia < na ∧ ib < nb then
    (a ia).bind fun x => (b ib).bind fun y =>
      if takesLeft asc x y then
        (write c ic x).bind (mergeLoop a na b nb asc (ia + 1) ib (ic + 1))
      else (write c ic y).bind (mergeLoop a na b nb asc ia (ib + 1) (ic + 1))
  else some (ia, ib, ic, c)
termination_by (na - ia) + (nb - ib)

/-- `while (ia < na) c[ic++] = a[ia++];` -/
def drain (a : ℕ → Option T) (na ia ic : ℕ) (c : Block T) : Option (ℕ × Block T) :=
  if _h : ia < na then
    (a ia).bind fun x => (write c ic x).bind (drain a na (ia + 1) (ic + 1))
  else some (ic, c)
termination_by na - ia

def drains (a : ℕ → Option T) (na : ℕ) (b : ℕ → Option T) (nb : ℕ) :
    ℕ × ℕ × ℕ × Block T → Option (Block T)
  | (ia, ib, ic, c) => do
    let (ic, c) ← drain a na ia ic c
    let (_, c) ← drain b nb ib ic c
    return c

def merge (a : ℕ → Option T) (na : ℕ) (b : ℕ → Option T) (nb : ℕ) (c : Block T) (asc : Bool) :
    Option (Block T) :=
  (mergeLoop a na b nb asc 0 0 0 c).bind (drains a na b nb)

def mSort (arr : Block T) (a n : ℕ) (asc : Bool) : Option (Block T) :=
  if _h : n < 2 then some arr
  else do
    let nleft := n / 2
    let nright := n - nleft
    let arr ← mSort arr a nleft asc
    let arr ← mSort arr (a + nleft) nright asc
    let p ← merge (readPart arr a nleft) nleft (readPart arr (a + nleft) nright) nright (alloc n)
      asc
    forUp (fun i arr => (read p i).bind (writePart arr a n i)) 0 n arr
termination_by n

def sort (v : Vec T) (ascending : Bool) : Option (Vec T) := do
  return { v with arr := ← mSort v.arr 0 v.size ascending }

/-! ### Merging -/

/-- The indices of `p` from `i` to `n` lead to the values `xs`. -/
structure Leads (p : ℕ → Option T) (i n : ℕ) (xs : List T) : Prop where
  count : i + xs.length = n
  value : ∀ j, (hj : j < xs.length) → p (i + j) = some xs[j]

namespace Leads

omit [LT T] [DecidableLT T]

variable {p : ℕ → Option T} {i n : ℕ} {x : T} {xs : List T}

lemma not_lt (h : Leads p i n []) : ¬i < n := by
  have := h.count
  simp at this
  omega

lemma lt (h : Leads p i n (x :: xs)) : i < n := by
  have := h.count
  rw [List.length_cons] at this
  omega

lemma head (h : Leads p i n (x :: xs)) : p i = some x := h.value 0 (by simp)

lemma tail (h : Leads p i n (x :: xs)) : Leads p (i + 1) n xs where
  count := by
    have := h.count
    rw [List.length_cons] at this
    omega
  value j hj := by
    have hval := h.value (j + 1) (Nat.succ_lt_succ hj)
    rwa [List.getElem_cons_succ, show i + (j + 1) = i + 1 + j by omega] at hval

end Leads

section Merge

variable {a b : ℕ → Option T} {na nb : ℕ}

omit [LT T] [DecidableLT T] in
lemma drain_spec {ia : ℕ} {xs done : List T} {rest : Block T} (ha : Leads a ia na xs)
    (hlen : xs.length ≤ rest.length) :
    drain a na ia done.length (held done ++ rest) =
      some ((done ++ xs).length, held (done ++ xs) ++ rest.drop xs.length) := by
  induction xs generalizing ia done rest with
  | nil =>
    rw [drain, dif_neg ha.not_lt]
    simp
  | cons x xs ih =>
    obtain ⟨c, rest, rfl⟩ : ∃ c rest', rest = c :: rest' :=
      List.exists_cons_of_length_pos (Nat.lt_of_lt_of_le (by simp) hlen)
    have hrest := @ih (ia + 1) (done ++ [x]) rest ha.tail (Nat.le_of_succ_le_succ hlen)
    rw [drain, dif_pos ha.lt, ha.head, Option.bind_some, write_next, Option.bind_some]
    simpa using hrest

omit [LT T] [DecidableLT T] in
lemma drains_spec {ia ib : ℕ} {xs ys done : List T} {rest : Block T} (ha : Leads a ia na xs)
    (hb : Leads b ib nb ys) (hlen : xs.length + ys.length ≤ rest.length) :
    drains a na b nb (ia, ib, done.length, held done ++ rest) =
      some (held (done ++ (xs ++ ys)) ++ rest.drop (xs.length + ys.length)) := by
  have hleft := @drain_spec _ _ _ ia xs done rest ha (by omega)
  have hright := @drain_spec _ _ _ ib ys (done ++ xs) (rest.drop xs.length) hb
    (by rw [List.length_drop]; omega)
  simp only [drains, hleft, hright, Option.bind_eq_bind, Option.bind_some]
  rw [List.append_assoc, List.drop_drop]
  rfl

/-- From any point on, the loops write the merge of what is left. -/
lemma mergeLoop_spec (asc : Bool) {ia ib : ℕ} {xs ys done : List T} {rest : Block T}
    (ha : Leads a ia na xs) (hb : Leads b ib nb ys) (hlen : xs.length + ys.length ≤ rest.length) :
    (mergeLoop a na b nb asc ia ib done.length (held done ++ rest)).bind (drains a na b nb) =
      some (held (done ++ xs.merge ys (takesLeft asc)) ++
        rest.drop (xs.length + ys.length)) := by
  induction xs generalizing ia ib ys done rest with
  | nil =>
    rw [mergeLoop, dif_neg (fun h => ha.not_lt h.1), Option.bind_some, drains_spec ha hb hlen,
      List.nil_append, List.nil_merge]
  | cons x xs ihx =>
    induction ys generalizing ib done rest with
    | nil =>
      rw [mergeLoop, dif_neg (fun h => hb.not_lt h.2), Option.bind_some, drains_spec ha hb hlen,
        List.append_nil, List.merge_right]
    | cons y ys ihy =>
      obtain ⟨c, rest, rfl⟩ : ∃ c rest', rest = c :: rest' :=
        List.exists_cons_of_length_pos (by simp only [List.length_cons] at hlen; omega)
      rw [mergeLoop, dif_pos ⟨ha.lt, hb.lt⟩, ha.head, hb.head, Option.bind_some, Option.bind_some,
        write_next, write_next, Option.bind_some, Option.bind_some, List.cons_merge_cons]
      simp only [List.length_cons] at hlen ⊢
      split_ifs
      · -- the next element of `a`
        have hrest := @ihx (ia + 1) ib (y :: ys) (done ++ [x]) rest ha.tail hb
          (by rw [List.length_cons]; omega)
        rw [List.length_append, List.length_singleton] at hrest
        rw [hrest, List.append_assoc, List.singleton_append, List.length_cons,
          show xs.length + 1 + (ys.length + 1) = xs.length + (ys.length + 1) + 1 by omega,
          List.drop_succ_cons]
      · -- the next element of `b`
        have hrest := @ihy (ib + 1) (done ++ [y]) rest hb.tail
          (by rw [List.length_cons]; omega)
        rw [List.length_append, List.length_singleton] at hrest
        rw [hrest, List.append_assoc, List.singleton_append, List.length_cons,
          show xs.length + 1 + (ys.length + 1) = xs.length + 1 + ys.length + 1 by omega,
          List.drop_succ_cons]

lemma merge_spec (asc : Bool) {xs ys : List T} (ha : Leads a 0 na xs) (hb : Leads b 0 nb ys) :
    merge a na b nb (alloc (xs.length + ys.length)) asc =
      some (held (xs.merge ys (takesLeft asc))) := by
  have h := @mergeLoop_spec _ _ _ a b na nb asc 0 0 xs ys [] (alloc (xs.length + ys.length)) ha hb
    (by simp)
  rw [held_nil, List.nil_append, List.nil_append] at h
  rw [merge]
  simpa [alloc] using h

end Merge

lemma merge_parts (asc : Bool) (pre post : Block T) (l r : List T) :
    merge (readPart (pre ++ held l ++ held r ++ post) pre.length l.length) l.length
        (readPart (pre ++ held l ++ held r ++ post) (pre.length + l.length) r.length) r.length
        (alloc (l.length + r.length)) asc =
      some (held (l.merge r (takesLeft asc))) := by
  refine merge_spec asc ⟨Nat.zero_add _, fun j hj => ?_⟩ ⟨Nat.zero_add _, fun j hj => ?_⟩
  · rw [Nat.zero_add, List.append_assoc (pre ++ held l)]
    exact readPart_held pre hj (held r ++ post)
  · have hpart : pre.length + l.length = (pre ++ held l).length := by simp
    rw [Nat.zero_add, hpart]
    exact readPart_held (pre ++ held l) hj post

/-! ### Order -/

/-- `x` may stand before `y`. -/
def Ordered (asc : Bool) (x y : T) : Prop := if asc then ¬y < x else ¬x < y

variable [IsStrictTotalOrder T (· < ·)]

omit [DecidableLT T] in
lemma not_lt_trans {x y z : T} (hxy : ¬y < x) (hyz : ¬z < y) : ¬z < x := by
  intro hzx
  rcases trichotomous_of (· < ·) x y with h | rfl | h
  · exact hyz (trans_of (· < ·) hzx h)
  · exact hyz hzx
  · exact hxy h

omit [DecidableLT T] in
lemma Ordered.trans {asc : Bool} {x y z : T} (hxy : Ordered asc x y) (hyz : Ordered asc y z) :
    Ordered asc x z := by
  cases asc with
  | false => exact not_lt_trans hyz hxy
  | true => exact not_lt_trans hxy hyz

lemma ordered_of_takesLeft {asc : Bool} {x y : T} (h : takesLeft asc x y = true) :
    Ordered asc x y := by
  cases asc with
  | false => simpa [takesLeft, Ordered] using h
  | true => exact asymm_of (· < ·) (by simpa [takesLeft] using h)

lemma ordered_of_not_takesLeft {asc : Bool} {x y : T} (h : ¬takesLeft asc x y = true) :
    Ordered asc y x := by
  cases asc with
  | false => exact asymm_of (· < ·) (by simpa [takesLeft] using h)
  | true => simpa [takesLeft, Ordered] using h

/-- Equal elements may be taken from either side. -/
lemma pairwise_merge {asc : Bool} {xs ys : List T} (hxs : xs.Pairwise (Ordered asc))
    (hys : ys.Pairwise (Ordered asc)) :
    (xs.merge ys (takesLeft asc)).Pairwise (Ordered asc) := by
  induction xs generalizing ys with
  | nil => rwa [List.nil_merge]
  | cons x xs ihx =>
    induction ys with
    | nil => rwa [List.merge_right]
    | cons y ys ihy =>
      rw [List.cons_merge_cons]
      obtain ⟨hx, hxs'⟩ := List.pairwise_cons.mp hxs
      obtain ⟨hy, hys'⟩ := List.pairwise_cons.mp hys
      split_ifs with htake
      · refine List.pairwise_cons.mpr ⟨fun z hz => ?_, ihx hxs' hys⟩
        have hxy := ordered_of_takesLeft htake
        rcases List.mem_merge.mp hz with hz | hz
        · exact hx z hz
        · rcases List.mem_cons.mp hz with rfl | hz
          · exact hxy
          · exact hxy.trans (hy z hz)
      · refine List.pairwise_cons.mpr ⟨fun z hz => ?_, ihy hys'⟩
        have hyx := ordered_of_not_takesLeft htake
        rcases List.mem_merge.mp hz with hz | hz
        · rcases List.mem_cons.mp hz with rfl | hz
          · exact hyx
          · exact hyx.trans (hx z hz)
        · exact hy z hz

/-! ### Sorting -/

/-- A part of the array is sorted in place, and nothing else is touched. -/
lemma mSort_spec (asc : Bool) (xs : List T) (pre post : Block T) :
    ∃ ys, mSort (pre ++ held xs ++ post) pre.length xs.length asc =
        some (pre ++ held ys ++ post) ∧
      ys.Perm xs ∧ ys.Pairwise (Ordered asc) := by
  induction hn : xs.length using Nat.strong_induction_on generalizing xs pre post with
  | _ n ih =>
    subst hn
    rw [mSort]
    split_ifs with hsmall
    · refine ⟨xs, rfl, .refl xs, ?_⟩
      match xs, hsmall with
      | [], _ => exact .nil
      | [x], _ => exact List.pairwise_singleton _ x
    · -- the two halves, sorted one after the other
      obtain ⟨l, r, rfl, hl⟩ : ∃ l r, xs = l ++ r ∧ l.length = xs.length / 2 :=
        ⟨_, _, (List.take_append_drop (xs.length / 2) xs).symm, by rw [List.length_take]; omega⟩
      have hr : (l ++ r).length - l.length = r.length := by
        rw [List.length_append, Nat.add_sub_cancel_left]
      obtain ⟨l', hsortl, hperml, hpairl⟩ := ih l.length (by omega) l pre (held r ++ post) rfl
      obtain ⟨r', hsortr, hpermr, hpairr⟩ := ih r.length (by omega) r (pre ++ held l') post rfl
      have hmerged : (l'.merge r' (takesLeft asc)).Perm (l ++ r) :=
        (List.merge_perm_append _).trans (hperml.append hpermr)
      have hmerge := merge_parts asc pre post l' r'
      have hcopy := @forUp_fillPart _ pre (held l' ++ held r') (l'.merge r' (takesLeft asc))
        (read (held (l'.merge r' (takesLeft asc))))
        (fun i hi => by simpa using read_held hi []) (by simp) post
      refine ⟨_, ?_, hmerged, pairwise_merge hpairl hpairr⟩
      rw [List.length_append, length_held, hperml.length_eq] at hsortr
      rw [hperml.length_eq, hpermr.length_eq, ← List.length_append] at hmerge
      rw [hmerged.length_eq, ← List.append_assoc] at hcopy
      simp only [held_append, ← hl, hr, List.append_assoc] at hsortl hsortr hmerge hcopy ⊢
      simp only [hsortl, hsortr, hmerge, hcopy, Option.bind_eq_bind, Option.bind_some]

lemma sort_stored (l : List T) (rest : Block T) (asc : Bool) :
    ∃ l', sort (stored l rest) asc = some (stored l' rest) ∧ l'.Perm l ∧
      l'.Pairwise (Ordered asc) := by
  obtain ⟨l', hsort, hperm, hpair⟩ := mSort_spec asc l [] rest
  refine ⟨l', ?_, hperm, hpair⟩
  simp only [List.nil_append, List.length_nil] at hsort
  simp only [sort, stored, hsort, hperm.length_eq]
  rfl

end Sorting

section Unique

variable {T : Type} [LT T] [DecidableLT T] [DecidableEq T]

/-- `std::unique` on the first elements of an array: the array after it, and how many elements stand
before the end it returns. It keeps the first one of each run of equal elements; what stands between
the new end and the old one is not said. -/
structure StdUnique (T : Type) [DecidableEq T] where
  unique : Block T → ℕ → Block T × ℕ
  keeps : ∀ (xs : List T) (rest : Block T), ∃ tail : Block T,
    (xs.destutter (· ≠ ·)).length + tail.length = xs.length ∧
      unique (held xs ++ rest) xs.length =
        (held (xs.destutter (· ≠ ·)) ++ (tail ++ rest), (xs.destutter (· ≠ ·)).length)

def uniqueSort (std : StdUnique T) (v : Vec T) (ascending : Bool) : Option (Vec T) := do
  let v ← sort v ascending
  let (arr, size) := std.unique v.arr v.size
  return { v with arr := arr, size := size }

/-- `x` stands before `y`, and they are different. -/
def Precedes (asc : Bool) (x y : T) : Prop := if asc then x < y else y < x

variable [IsStrictTotalOrder T (· < ·)]

omit [DecidableLT T] [DecidableEq T] in
lemma eq_of_not_lt {x y : T} (hxy : ¬x < y) (hyx : ¬y < x) : x = y := by
  rcases trichotomous_of (· < ·) x y with h | h | h
  · exact absurd h hxy
  · exact h
  · exact absurd h hyx

omit [DecidableLT T] [DecidableEq T] in
lemma Ordered.antisymm {asc : Bool} {x y : T} (hxy : Ordered asc x y) (hyx : Ordered asc y x) :
    x = y := by
  cases asc with
  | false => exact eq_of_not_lt hxy hyx
  | true => exact eq_of_not_lt hyx hxy

omit [DecidableLT T] [DecidableEq T] in
lemma Ordered.precedes {asc : Bool} {x y : T} (hxy : Ordered asc x y) (hne : x ≠ y) :
    Precedes asc x y := by
  cases asc with
  | false => exact not_not.mp fun h => hne (eq_of_not_lt hxy h)
  | true => exact not_not.mp fun h => hne (eq_of_not_lt h hxy)

omit [DecidableLT T] [DecidableEq T] in
instance (asc : Bool) : Std.Antisymm (Ordered (T := T) asc) := ⟨fun _ _ => Ordered.antisymm⟩

/-- Of a sorted list the runs of equal elements are all its equal elements. -/
lemma uniqueSort_stored (std : StdUnique T) (l : List T) (rest : Block T) (asc : Bool) :
    ∃ (l' : List T) (tail : Block T),
      uniqueSort std (stored l rest) asc = some (stored l'.dedup (tail ++ rest)) ∧
      l'.dedup.length + tail.length = l.length ∧ l'.Perm l ∧ l'.Pairwise (Ordered asc) := by
  obtain ⟨l', hsort, hperm, hpair⟩ := sort_stored l rest asc
  obtain ⟨tail, hlen, hunique⟩ := std.keeps l' rest
  rw [hpair.destutter_eq_dedup] at hlen hunique
  refine ⟨l', tail, ?_, hlen.trans hperm.length_eq, hperm, hpair⟩
  have hcap : l'.length + rest.length = l'.dedup.length + (tail ++ rest).length := by
    rw [List.length_append]
    omega
  rw [uniqueSort, hsort]
  simp only [stored, Option.bind_eq_bind, Option.bind_some, hunique, hcap]
  rfl

/-- Nothing is left to be done for elements that are in order and different. -/
lemma uniqueSort_again (std : StdUnique T) {l : List T} {asc : Bool}
    (hl : l.Pairwise (Ordered asc)) (hnodup : l.Nodup) (rest : Block T) :
    uniqueSort std (stored l rest) asc = some (stored l rest) := by
  obtain ⟨l', tail, hrun, hlen, hperm, hpair⟩ := uniqueSort_stored std l rest asc
  obtain rfl : l' = l := hperm.eq_of_pairwise' hpair hl
  rw [hnodup.dedup] at hrun hlen
  obtain rfl : tail = [] := List.length_eq_zero_iff.mp (by omega)
  exact hrun

/-- One that empties the cells behind the new end. -/
def StdUnique.clearing : StdUnique T where
  unique b n :=
    let xs := (b.take n).reduceOption.destutter (· ≠ ·)
    (held xs ++ (alloc (n - xs.length) ++ b.drop n), xs.length)
  keeps xs rest := by
    have hxs : ((held xs ++ rest).take xs.length).reduceOption = xs := by
      rw [take_held, reduceOption_held]
    have hle := (xs.destutter_sublist (· ≠ ·)).length_le
    refine ⟨alloc (xs.length - (xs.destutter (· ≠ ·)).length), ?_, ?_⟩
    · rw [length_alloc]
      omega
    · simp only [hxs, List.drop_left' (length_held xs)]

end Unique

end Zinzhi.VectorSort
