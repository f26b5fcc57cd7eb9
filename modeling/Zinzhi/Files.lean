import Mathlib.Data.List.Basic

/-!
Files as sequences, read and written at an offset.

A read behind the end is short. A write behind the end leaves a hole, which is filled.
-/

namespace Zinzhi.Files

variable {α : Type*}

def readAt (f : List α) (off n : ℕ) : List α := (f.drop off).take n

def writeAt (hole : α) (f : List α) (off : ℕ) (s : List α) : List α :=
  f.take off ++ List.replicate (off - f.length) hole ++ s ++ f.drop (off + s.length)

variable {f s pre mid post : List α} {off off' n : ℕ} {hole : α}

lemma readAt_mid (pre mid post : List α) :
    readAt (pre ++ mid ++ post) pre.length mid.length = mid := by
  simp [readAt]

lemma readAt_end (f : List α) (n : ℕ) : readAt f f.length n = [] := by
  simp [readAt]

lemma writeAt_mid (hole : α) (hlen : s.length = mid.length) :
    writeAt hole (pre ++ mid ++ post) pre.length s = pre ++ s ++ post := by
  have hzero : pre.length - (pre ++ mid ++ post).length = 0 := by
    simp only [List.length_append]
    omega
  rw [writeAt, hzero, hlen, List.append_assoc pre, List.take_left, ← List.append_assoc pre,
    ← List.length_append, List.drop_left]
  simp

lemma writeAt_end (hole : α) (f s : List α) : writeAt hole f f.length s = f ++ s := by
  simp [writeAt]

/-- A file in which `s` is written over what was there. -/
lemma writeAt_eq (hole : α) (h : off + s.length ≤ f.length) :
    writeAt hole f off s = f.take off ++ s ++ f.drop (off + s.length) := by
  rw [writeAt, Nat.sub_eq_zero_of_le (by omega)]
  simp

lemma length_writeAt (hole : α) (h : off + s.length ≤ f.length) :
    (writeAt hole f off s).length = f.length := by
  rw [writeAt_eq hole h]
  simp only [List.length_append, List.length_take, List.length_drop]
  omega

lemma readAt_writeAt (hole : α) (h : off + s.length ≤ f.length) :
    readAt (writeAt hole f off s) off s.length = s := by
  have hoff : (f.take off).length = off := by
    rw [List.length_take]
    omega
  rw [writeAt_eq hole h]
  conv_lhs => rw [← hoff]
  simpa [hoff] using readAt_mid (f.take off) s (f.drop (off + s.length))

lemma getElem?_writeAt_of_outside (hole : α) (h : off + s.length ≤ f.length) {i : ℕ}
    (hi : i < off ∨ off + s.length ≤ i) : (writeAt hole f off s)[i]? = f[i]? := by
  have hlen : (f.take off).length = off := by
    rw [List.length_take]
    omega
  rw [writeAt_eq hole h]
  rcases hi with hi | hi
  · rw [List.append_assoc, List.getElem?_append_left (by omega), List.getElem?_take_of_lt hi]
  · rw [List.getElem?_append_right (by rw [List.length_append]; omega), List.getElem?_drop]
    congr 1
    rw [List.length_append]
    omega

/-- **A write does not change what is read elsewhere.** -/
lemma readAt_writeAt_of_apart (hole : α) (h : off + s.length ≤ f.length)
    (hap : off' + n ≤ off ∨ off + s.length ≤ off') :
    readAt (writeAt hole f off s) off' n = readAt f off' n := by
  refine List.ext_getElem? fun i => ?_
  rw [readAt, readAt, List.getElem?_take, List.getElem?_take]
  split
  · rw [List.getElem?_drop, List.getElem?_drop,
      getElem?_writeAt_of_outside hole h (by omega)]
  · rfl

lemma readAt_append (h : off + n ≤ f.length) : readAt (f ++ s) off n = readAt f off n := by
  rw [readAt, readAt, List.drop_append_of_le_length (by omega),
    List.take_append_of_le_length (by rw [List.length_drop]; omega)]

end Zinzhi.Files
