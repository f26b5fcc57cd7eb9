import Zinzhi.MmCalls

/-!
What the heap checker of `mm.c` prints.
-/

namespace Zinzhi.MmAlloc

open Zinzhi.WordMemory Zinzhi.BoundaryTags Zinzhi.Rows

variable {M : Memlib} {h : Heap} {bs pre post : List Block} {b : Block} {c fuel : ℕ}

namespace Layout

variable (hL : Layout M h bs)

include hL

lemma get_tags (hat : At (M.memHeap + 4) (prologue :: bs) c b) :
    8 ∣ c + 4 ∧ b.Sized ∧ b.size < 2 ^ 32 ∧ get M h c = some b.tag ∧
      get M h (c + b.size - 4) = some b.tag := by
  rcases at_cons.mp hat with ⟨rfl, rfl⟩ | hat
  · obtain ⟨hhdr, hftr⟩ := hL.get_prologue
    have h8 : 8 ∣ M.memHeap + 4 + 4 := by
      have := M.aligned
      omega
    exact ⟨h8, prologue_sized, by decide, hhdr, hftr⟩
  · have hlt := hL.size_lt hat.mem
    exact ⟨hL.aligned_at hat, hL.sized b hat.mem, by omega, hL.get_hdr hat, hL.get_ftr hat⟩

lemma checkblock_eq (hat : At (M.memHeap + 4) (prologue :: bs) c b) :
    checkblock M h (c + 4) = some [] := by
  obtain ⟨h8, hb, hlt, hhdr, hftr⟩ := hL.get_tags hat
  have hp := ftrp_of_getSize (getSize_of_get hhdr hb.1 hlt)
  simp [checkblock, hhdr, hp, hftr, Nat.mod_eq_zero_of_dvd h8]

/-- The loop ends behind the last block, and prints nothing if no block has something printed. -/
lemma checkLoop_eq {each : ℕ → Option (List Print)}
    (heach : ∀ c b, At (M.memHeap + 4) (prologue :: bs) c b → each (c + 4) = some [])
    (hrow : prologue :: bs = pre ++ post) (hfuel : post.length < fuel) :
    checkLoop M h each fuel (M.memHeap + 4 + span pre + 4) = some ([], h.memBrk) := by
  induction post generalizing pre fuel with
  | nil =>
    obtain ⟨fuel, rfl⟩ := Nat.exists_eq_succ_of_ne_zero (Nat.ne_of_gt hfuel)
    rw [List.append_nil] at hrow
    have hend : M.memHeap + 4 + span pre = M.firstHdr + span bs := by
      rw [← hrow, span_block, ← Nat.add_assoc]
      rfl
    rw [hend, checkLoop, hdrp_add, hL.getSize_epilogue, hL.brk]
    rfl
  | cons b post ih =>
    obtain ⟨fuel, rfl⟩ := Nat.exists_eq_succ_of_ne_zero (Nat.ne_of_gt (Nat.zero_lt_of_lt hfuel))
    have hat : At (M.memHeap + 4) (prologue :: bs) (M.memHeap + 4 + span pre) b :=
      hrow ▸ at_mid pre b post _
    obtain ⟨-, hb, hlt, hhdr, -⟩ := hL.get_tags hat
    have hsize := getSize_of_get hhdr hb.1 hlt
    have hpos : 0 < b.size := by
      have := hb.2
      omega
    have hrow' : prologue :: bs = pre ++ [b] ++ post := by simpa using hrow
    have hrest := ih hrow' (Nat.lt_of_succ_lt_succ hfuel)
    simp only [span_append, span_block, span_nil, Nat.add_zero, ← Nat.add_assoc] at hrest
    simp [checkLoop, hsize, hpos, heach _ b hat, nextBlkp_of_getSize hsize, hrest]

/-- The check of the whole heap, if `printblock` prints nothing about the blocks. -/
lemma checkheapWith_eq (hfuel : M.Fuelled fuel) {printer : Option (ℕ → Option (List Print))}
    {last : List Print}
    (hprinter : ∀ c b, At (M.memHeap + 4) (prologue :: bs) c b →
      verbosely printer (c + 4) = some [])
    (hlast : verbosely printer h.memBrk = some last) :
    checkheapWith M fuel h printer =
      some ((if printer.isSome then [⟨"Heap (%p):\n", [h.heapListp]⟩] else []) ++ last) := by
  have hfirst : At (M.memHeap + 4) (prologue :: bs) (M.memHeap + 4) prologue :=
    at_cons.mpr (.inl ⟨rfl, rfl⟩)
  obtain ⟨-, hb, hlt, hhdr, -⟩ := hL.get_tags hfirst
  have heach (c : ℕ) (b : Block) (hat : At (M.memHeap + 4) (prologue :: bs) c b) :
      checkEach M h printer (c + 4) = some [] := by
    simp [checkEach, hprinter c b hat, hL.checkblock_eq hat]
  have hloop : checkLoop M h _ fuel (M.memHeap + 4 + span [] + 4) = _ :=
    hL.checkLoop_eq heach rfl (hL.fuelled hfuel)
  have hlistp : h.heapListp = M.memHeap + 4 + 4 := hL.listp
  have hend : hdrp h.memBrk = M.firstHdr + span bs := by
    rw [hL.brk, hdrp_add]
  rw [span_nil, Nat.add_zero, ← hlistp] at hloop
  have hsize : getSize M h (hdrp h.heapListp) = some 8 := by
    rw [hlistp, hdrp_add]
    exact getSize_of_get hhdr hb.1 hlt
  have halloc : getAlloc M h (hdrp h.heapListp) = some 1 := by
    rw [hlistp, hdrp_add]
    exact getAlloc_of_get hhdr hb.1
  have hcheck : checkblock M h h.heapListp = some [] := by
    rw [hlistp]
    exact hL.checkblock_eq hfirst
  simp [checkheapWith, hsize, halloc, hcheck, hloop, hlast, hend, hL.getSize_epilogue,
    hL.getAlloc_epilogue]

lemma checkheapWith_none (hfuel : M.Fuelled fuel) : checkheapWith M fuel h none = some [] :=
  hL.checkheapWith_eq hfuel (fun _ _ _ => rfl) rfl

lemma printblock_eq (hfuel : M.Fuelled fuel) (hat : At (M.memHeap + 4) (prologue :: bs) c b) :
    printblock M fuel h (c + 4) = some [] := by
  obtain ⟨-, hb, hlt, hhdr, hftr⟩ := hL.get_tags hat
  have hsize := getSize_of_get hhdr hb.1 hlt
  have hne : b.size ≠ 0 := by
    have := hb.2
    omega
  simp [printblock, hL.checkheapWith_none hfuel, hsize, getAlloc_of_get hhdr hb.1,
    ftrp_of_getSize hsize, getSize_of_get hftr hb.1 hlt, getAlloc_of_get hftr hb.1, hne]

/-- The footer of the epilogue is the word in front of its header. -/
lemma printblock_epilogue (hfuel : M.Fuelled fuel) :
    printblock M fuel h h.memBrk = some [⟨"%p: EOL\n", [h.memBrk]⟩] := by
  have hfirst : M.firstHdr = M.memHeap + 12 := rfl
  have hsize := hL.getSize_epilogue
  have hftr := ftrp_of_getSize hsize
  have hget : get M h (M.firstHdr + span bs - 4) = some (word h.mem _) :=
    hL.get_in (by omega) (by omega)
  rw [hL.brk]
  simp [printblock, hL.checkheapWith_none hfuel, hsize, hL.getAlloc_epilogue, hftr,
    show getSize M h (M.firstHdr + span bs - 4) = some _ from congrArg _ hget,
    show getAlloc M h (M.firstHdr + span bs - 4) = some _ from congrArg _ hget]

end Layout

/-- **The checker finds nothing wrong**, and says so if it is verbose. -/
theorem checkheap_eq (hL : Layout M h bs) (hfuel : M.Fuelled fuel) (verbose : Bool) :
    checkheap M fuel h verbose = some (if verbose then
      [⟨"Heap (%p):\n", [h.heapListp]⟩, ⟨"%p: EOL\n", [h.memBrk]⟩] else []) := by
  cases verbose with
  | false => exact hL.checkheapWith_none hfuel
  | true =>
    exact hL.checkheapWith_eq hfuel (fun c b hat => hL.printblock_eq hfuel hat)
      (hL.printblock_epilogue hfuel)

end Zinzhi.MmAlloc
