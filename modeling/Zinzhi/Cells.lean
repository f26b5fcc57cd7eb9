import Mathlib.Data.List.Induction
import Mathlib.Data.List.ReduceOption

/-!
Blocks of memory cells, and the loops that copy and shift their contents.

A cell is empty until it is written for the first time. Reading an empty cell, and reading or
writing outside the block, have no result. A block is described by the values its first cells
hold and the cells behind them, whatever these contain.
-/

namespace Zinzhi.Cells

variable {T σ : Type*}

abbrev Block (T : Type*) := List (Option T)

def alloc (n : ℕ) : Block T := List.replicate n none

def read (b : Block T) (i : ℕ) : Option T := b[i]?.join

def write (c : Block T) (i : ℕ) (x : T) : Option (Block T) :=
  if i < c.length then some (c.set i (some x)) else none

/-- Reading and writing through a pointer `off` to `n` cells of the block, and no others. -/
def readPart (b : Block T) (off n i : ℕ) : Option T := if i < n then read b (off + i) else none

def writePart (c : Block T) (off n i : ℕ) (x : T) : Option (Block T) :=
  if i < n then write c (off + i) x else none

def held (xs : List T) : Block T := xs.map some

@[simp] lemma length_alloc (n : ℕ) : (alloc n : Block T).length = n := List.length_replicate
@[simp] lemma held_nil : held ([] : List T) = [] := rfl
@[simp] lemma held_cons (x : T) (xs : List T) : held (x :: xs) = some x :: held xs := rfl
@[simp] lemma held_append (xs ys : List T) : held (xs ++ ys) = held xs ++ held ys := by
  simp [held]
@[simp] lemma length_held (xs : List T) : (held xs).length = xs.length := by simp [held]

lemma take_held (xs : List T) (rest : Block T) : (held xs ++ rest).take xs.length = held xs := by
  rw [List.take_append_of_le_length (by simp), List.take_of_length_le (by simp)]

lemma reduceOption_held (xs : List T) : (held xs).reduceOption = xs := by
  induction xs with
  | nil => rfl
  | cons x xs ih => rw [held_cons, List.reduceOption_cons_of_some, ih]

lemma read_mid (pre : Block T) (x : T) (post : Block T) :
    read (pre ++ some x :: post) pre.length = some x := by
  simp [read]

lemma read_held {xs : List T} {i : ℕ} (hi : i < xs.length) (rest : Block T) :
    read (held xs ++ rest) i = some xs[i] := by
  simp [read, held, List.getElem?_append_left, hi]

lemma write_mid (pre : Block T) (c : Option T) (post : Block T) (x : T) :
    write (pre ++ c :: post) pre.length x = some (pre ++ some x :: post) := by
  simp [write]

lemma write_next (xs : List T) (c : Option T) (rest : Block T) (x : T) :
    write (held xs ++ c :: rest) xs.length x = some (held (xs ++ [x]) ++ rest) := by
  simpa using write_mid (held xs) c rest x

lemma readPart_held (pre : Block T) {xs : List T} {i : ℕ} (hi : i < xs.length) (post : Block T) :
    readPart (pre ++ held xs ++ post) pre.length xs.length i = some xs[i] := by
  rw [readPart, if_pos hi, List.append_assoc, read, List.getElem?_append_right (by omega),
    Nat.add_sub_cancel_left]
  exact read_held hi post

lemma write_held {xs : List T} {i : ℕ} (hi : i < xs.length) (x : T) (rest : Block T) :
    write (held xs ++ rest) i x = some (held (xs.set i x) ++ rest) := by
  have hlen : i < (held xs ++ rest).length := by
    rw [List.length_append, length_held]; omega
  rw [write, if_pos hlen, List.set_append_left _ _ (by simpa using hi)]
  simp [held, List.map_set]

/-! ### Counting loops -/

/-- `k` rounds of a loop that counts up from `i`. -/
def up (body : ℕ → σ → Option σ) : (k i : ℕ) → σ → Option σ
  | 0, _, s => some s
  | k + 1, i, s => (body i s).bind (up body k (i + 1))

/-- `for (i = a; i < n; i++)` -/
def forUp (body : ℕ → σ → Option σ) (a n : ℕ) (s : σ) : Option σ := up body (n - a) a s

/-- `k` rounds of a loop that counts down to `p + 1`. -/
def down (body : ℕ → σ → Option σ) (p : ℕ) : (k : ℕ) → σ → Option σ
  | 0, s => some s
  | k + 1, s => (body (p + k + 1) s).bind (down body p k)

/-- `for (i = n; i > p; i--)` -/
def forDown (body : ℕ → σ → Option σ) (n p : ℕ) (s : σ) : Option σ := down body p (n - p) s

/-- **Filling.** A loop that writes the values `ys`, in order, from the cell behind `pre` on. -/
lemma up_fill {f : ℕ → Option T} (pre : Block T) (ys : List T) {rest : Block T}
    (hf : ∀ j, (hj : j < ys.length) → f (pre.length + j) = some ys[j])
    (hlen : ys.length ≤ rest.length) :
    up (fun i c => (f i).bind (write c i)) ys.length pre.length (pre ++ rest) =
      some (pre ++ held ys ++ rest.drop ys.length) := by
  induction ys generalizing pre rest with
  | nil => simp [up]
  | cons y ys ih =>
    obtain ⟨c, rest, rfl⟩ : ∃ c rest', rest = c :: rest' :=
      List.exists_cons_of_length_pos (Nat.lt_of_lt_of_le (by simp) hlen)
    have hy : f pre.length = some y := hf 0 (by simp)
    have hrest := ih (pre ++ [some y]) (fun j hj => by
      have := hf (j + 1) (by simpa using hj)
      simpa [Nat.add_assoc, Nat.add_comm 1 j] using this) (Nat.le_of_succ_le_succ hlen)
    simp only [List.length_cons, up, hy, Option.bind_some, write_mid]
    simpa using hrest

lemma forUp_fill (ys : List T) {f : ℕ → Option T}
    (hf : ∀ i, (hi : i < ys.length) → f i = some ys[i]) {c : Block T}
    (hlen : ys.length ≤ c.length) :
    forUp (fun i c => (f i).bind (write c i)) 0 ys.length c =
      some (held ys ++ c.drop ys.length) := by
  have h := up_fill [] ys (f := f) (by simpa using hf) hlen
  simpa [forUp] using h

lemma up_congr {f g : ℕ → σ → Option σ} {d k i : ℕ}
    (h : ∀ j, i ≤ j → j < i + k → f j = g (d + j)) (s : σ) : up f k i s = up g k (d + i) s := by
  induction k generalizing i s with
  | zero => rfl
  | succ k ih =>
    rw [up, up, h i (Nat.le_refl i) (by omega)]
    congr 1
    funext s
    exact ih (fun j hij hj => h j (by omega) (by omega)) s

lemma forUp_fillPart (pre : Block T) {mid : Block T} (ys : List T) {f : ℕ → Option T}
    (hf : ∀ i, (hi : i < ys.length) → f i = some ys[i]) (hmid : mid.length = ys.length)
    (post : Block T) :
    forUp (fun i c => (f i).bind (writePart c pre.length ys.length i)) 0 ys.length
      (pre ++ mid ++ post) = some (pre ++ held ys ++ post) := by
  have hshift : ∀ j, 0 ≤ j → j < 0 + ys.length →
      (fun c : Block T => (f j).bind (writePart c pre.length ys.length j)) =
        fun c => (f (pre.length + j - pre.length)).bind (write c (pre.length + j)) := by
    intro j _ hj
    funext c
    rw [Nat.add_sub_cancel_left]
    congr 1
    funext x
    rw [writePart, if_pos (by omega)]
  have hfill := @up_fill _ (fun i => f (i - pre.length)) pre ys (mid ++ post)
    (fun j hj => by rw [Nat.add_sub_cancel_left]; exact hf j hj) (by simp [hmid])
  rw [forUp, Nat.sub_zero, up_congr (g := fun i c => (f (i - pre.length)).bind (write c i)) hshift,
    Nat.add_zero, List.append_assoc, hfill, List.drop_left' hmid]

/-- **Closing a gap.** Each cell takes the value of the next one; the gap moves to the end. -/
lemma up_shift (pre : Block T) (gap : Option T) (ys : List T) (rest : Block T) :
    ∃ last, up (fun i c => (read c (i + 1)).bind (write c i)) ys.length pre.length
      (pre ++ gap :: (held ys ++ rest)) = some (pre ++ held ys ++ last :: rest) := by
  induction ys generalizing pre gap with
  | nil => exact ⟨gap, by simp [up]⟩
  | cons y ys ih =>
    obtain ⟨last, h⟩ := ih (pre ++ [some y]) (some y)
    refine ⟨last, ?_⟩
    have hread : read (pre ++ gap :: some y :: (held ys ++ rest)) (pre.length + 1) = some y := by
      simpa using read_mid (pre ++ [gap]) y (held ys ++ rest)
    simp only [List.length_cons, held_cons, List.cons_append, up, hread, Option.bind_some,
      write_mid]
    simpa using h

/-- **Opening a gap.** From the end, each cell takes the value of the one before it; the first one
keeps its value. -/
lemma down_shift (pre : Block T) (ys : List T) (last : Option T) (rest : Block T) :
    down (fun i c => (read c (i - 1)).bind (write c i)) pre.length ys.length
      (pre ++ held ys ++ last :: rest) =
      some (pre ++ ys.head?.or last :: (held ys ++ rest)) := by
  induction ys using List.reverseRecOn generalizing last rest with
  | nil => simp [down]
  | append_singleton ys y ih =>
    have h := ih (some y) (some y :: rest)
    have hpos : pre.length + ys.length + 1 - 1 = (pre ++ held ys).length := by simp
    have hread : read (pre ++ held (ys ++ [y]) ++ last :: rest) (pre.length + ys.length + 1 - 1) =
        some y := by
      rw [hpos]
      simpa using read_mid (pre ++ held ys) y (last :: rest)
    have hwrite : write (pre ++ held (ys ++ [y]) ++ last :: rest) (pre.length + ys.length + 1) y =
        some (pre ++ held ys ++ some y :: some y :: rest) := by
      simpa [Nat.add_assoc] using write_mid (pre ++ held ys ++ [some y]) last rest y
    have hhead : (ys ++ [y]).head?.or last = ys.head?.or (some y) := by
      rw [List.head?_append, Option.or_assoc]
      rfl
    simp only [List.length_append, List.length_singleton, down, hread, hwrite, Option.bind_some,
      hhead]
    simpa using h

end Zinzhi.Cells
