import Mathlib.Data.ZMod.Defs

/-!
A ring of `n` slots with a position to take from and a position to put at.

The slots from `head` up to `tail` are pending. Equal positions mean an empty ring, so at most
`n - 1` slots can be pending and putting one element more empties it.
-/

namespace Zinzhi.RingBuffer

structure Ring (α : Type*) (n : ℕ) where
  slots : Fin n → α
  head : Fin n
  tail : Fin n

namespace Ring

variable {α : Type*} {n : ℕ} [NeZero n]

def put (r : Ring α n) (x : α) : Ring α n :=
  { r with slots := Function.update r.slots r.tail x, tail := r.tail + 1 }

def drop (r : Ring α n) : Ring α n := { r with head := r.head + 1 }

/-- Putting an element would make the ring look empty. -/
def Full (r : Ring α n) : Prop := r.tail + 1 = r.head

instance (r : Ring α n) : Decidable r.Full := inferInstanceAs (Decidable (_ = _))

/-- The `k` slots from `i` on. -/
def slice (slots : Fin n → α) (i : Fin n) : ℕ → List α
  | 0 => []
  | k + 1 => slots i :: slice slots (i + 1) k

def pending (r : Ring α n) : List α := slice r.slots r.head (r.tail - r.head).val

lemma slice_succ (slots : Fin n → α) (i : Fin n) (k : ℕ) :
    slice slots i (k + 1) = slice slots i k ++ [slots (i + Fin.ofNat n k)] := by
  induction k generalizing i with
  | zero => simp [slice]
  | succ k ih =>
    have hpos : i + 1 + Fin.ofNat n k = i + Fin.ofNat n (k + 1) := by
      rw [add_assoc, add_comm 1]
      congr 1
      ext
      simp [Fin.val_add]
    rw [slice, ih, hpos]
    rfl

/-- The slots are read up to, but not at, the one that is written. -/
lemma slice_update (slots : Fin n → α) (i t : Fin n) (x : α) {k : ℕ} (hk : k ≤ (t - i).val) :
    slice (Function.update slots t x) i k = slice slots i k := by
  induction k generalizing i with
  | zero => rfl
  | succ k ih =>
    have hne : t - i ≠ 0 := by
      intro h
      rw [h] at hk
      exact Nat.not_succ_le_zero k hk
    have hk' : k ≤ (t - (i + 1)).val := by
      rw [sub_add_eq_sub_sub, Fin.val_sub_one_of_ne_zero hne]
      omega
    rw [slice, slice, ih _ hk', Function.update_of_ne (sub_ne_zero.mp hne).symm]

lemma pending_of_ne {r : Ring α n} (h : r.head ≠ r.tail) :
    r.pending = r.slots r.head :: r.drop.pending := by
  have hne : r.tail - r.head ≠ 0 := sub_ne_zero.mpr h.symm
  have hpos : 0 < (r.tail - r.head).val := Nat.pos_of_ne_zero (Fin.val_ne_zero_iff.mpr hne)
  have hlen : (r.tail - r.head).val = (r.tail - (r.head + 1)).val + 1 := by
    rw [sub_add_eq_sub_sub, Fin.val_sub_one_of_ne_zero hne]
    omega
  rw [pending, hlen]
  rfl

/-- **A ring that is not full takes one element more**, behind those pending. -/
theorem pending_put {r : Ring α n} (x : α) (h : ¬r.Full) :
    (r.put x).pending = r.pending ++ [x] := by
  have hlen : (r.tail + 1 - r.head).val = (r.tail - r.head).val + 1 := by
    have hne : r.tail + 1 - r.head ≠ 0 := sub_ne_zero.mpr h
    have hpos : 0 < (r.tail + 1 - r.head).val := Nat.pos_of_ne_zero (Fin.val_ne_zero_iff.mpr hne)
    have hsub : r.tail - r.head = r.tail + 1 - r.head - 1 := by
      rw [add_sub_right_comm, add_sub_cancel_right]
    rw [hsub, Fin.val_sub_one_of_ne_zero hne]
    omega
  have hlast : r.head + Fin.ofNat n (r.tail - r.head).val = r.tail := by
    rw [Fin.ofNat_val_eq_self, add_sub_cancel]
  simp only [pending, put]
  rw [hlen, slice_succ, slice_update _ _ _ _ le_rfl, hlast, Function.update_self]

/-- **A full ring loses what is pending**, and the new element with it. -/
theorem pending_put_full {r : Ring α n} (x : α) (h : r.Full) : (r.put x).pending = [] := by
  have hzero : r.tail + 1 - r.head = 0 := sub_eq_zero.mpr h
  simp [pending, put, hzero, slice]

end Ring

end Zinzhi.RingBuffer
