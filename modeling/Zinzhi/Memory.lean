import Mathlib.Data.List.GetD
import Mathlib.Data.Nat.Notation

/-!
A memory of cells by their addresses: what `memcpy` writes, and what it reads.
-/

namespace Zinzhi.Memory

variable {β : Type*} {mem : ℕ → β} {a b n : ℕ} {data : List β}

def read (mem : ℕ → β) (a n : ℕ) : List β := (List.range n).map fun i => mem (a + i)

def write (mem : ℕ → β) (a : ℕ) (data : List β) (x : ℕ) : β :=
  if a ≤ x then data.getD (x - a) (mem x) else mem x

@[simp] lemma read_write_self : read (write mem a data) a data.length = data := by
  refine List.ext_getElem (by simp [read]) fun i hi hi' => ?_
  simp [read, write, List.getElem?_eq_getElem hi']

/-- What is written does not change what is read elsewhere. -/
lemma read_write_of_disjoint (h : b + n ≤ a ∨ a + data.length ≤ b) :
    read (write mem a data) b n = read mem b n := by
  refine List.map_congr_left fun i hi => ?_
  have hi := List.mem_range.mp hi
  unfold write
  split
  · exact List.getD_eq_default _ _ (by omega)
  · rfl

end Zinzhi.Memory
