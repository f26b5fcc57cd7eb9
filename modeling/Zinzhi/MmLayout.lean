import Zinzhi.MmAlloc
import Mathlib.Data.List.Chain

/-!
What the functions of `mm.c` do to the row of blocks.

The heap is a word of padding, the prologue block, a row of blocks, and the header of the
epilogue. Every function replaces a stretch of the row by another of the same length, or puts a
block at its end. Outside that stretch it changes no byte.
-/

namespace Zinzhi.MmAlloc

open Zinzhi.WordMemory Zinzhi.BoundaryTags Zinzhi.Rows

def prologue : Block := ⟨8, true⟩

/-- The address of the header of the first block behind the prologue. -/
def Memlib.firstHdr (M : Memlib) : ℕ := M.memHeap + 12

def Proper (b : Block) : Prop := 8 ∣ b.size ∧ 16 ≤ b.size

/-- The heap consists of these blocks. -/
structure Layout (M : Memlib) (h : Heap) (bs : List Block) : Prop where
  listp : h.heapListp = M.memHeap + 8
  tags : Tags h.mem (M.memHeap + 4) (prologue :: bs)
  epilogue : word h.mem (M.firstHdr + span bs) = 1
  brk : h.memBrk = M.firstHdr + span bs + 4
  room : h.memBrk ≤ M.memMaxAddr
  proper : ∀ b ∈ bs, Proper b

/-- No two free blocks stand next to each other. -/
def Merged (bs : List Block) : Prop := bs.IsChain fun a b => a.alloc = true ∨ b.alloc = true

variable {M : Memlib} {h h' : Heap} {bs pre mid mid' post : List Block} {b p n : Block}
  {c q s v : ℕ}

lemma Proper.sized (hb : Proper b) : b.Sized := ⟨hb.1, by have := hb.2; omega⟩

lemma prologue_sized : prologue.Sized := ⟨by decide, by decide⟩

lemma sizeT_of_lt (hv : v < 2 ^ 64) : sizeT v = v := Nat.mod_eq_of_lt hv

lemma unsignedInt_of_lt (hv : v < 2 ^ 32) : unsignedInt v = v := Nat.mod_eq_of_lt hv

lemma sizeSub_of_le {a b : ℕ} (ha : a < 2 ^ 64) (hb : b ≤ a) : sizeSub a b = a - b := by
  rw [sizeSub, sizeT, show a + (2 ^ 64 - b) = a - b + 2 ^ 64 by omega, Nat.add_mod_right,
    Nat.mod_eq_of_lt (by omega)]

/-! ### Single reads and writes -/

lemma get_eq (hlo : M.memHeap ≤ q) (hhi : q + 4 ≤ h.memBrk) : get M h q = some (word h.mem q) :=
  if_pos ⟨hlo, hhi⟩

lemma put_eq (hlo : M.memHeap ≤ q) (hhi : q + 4 ≤ h.memBrk) (v : ℕ) :
    put M h q v = some (h.set q v) :=
  if_pos ⟨hlo, hhi⟩

@[simp] lemma set_memBrk (h : Heap) (q v : ℕ) : (h.set q v).memBrk = h.memBrk := rfl
@[simp] lemma set_heapListp (h : Heap) (q v : ℕ) : (h.set q v).heapListp = h.heapListp := rfl
@[simp] lemma set_mem (h : Heap) (q v : ℕ) : (h.set q v).mem = setWord h.mem q v := rfl

lemma get_set_of_apart (hap : Apart q c) : get M (h.set q v) c = get M h c := by
  rw [get, get, set_mem, word_setWord_of_apart hap]
  rfl

lemma getSize_set_of_apart (hap : Apart q c) : getSize M (h.set q v) c = getSize M h c := by
  rw [getSize, getSize, get_set_of_apart hap]

lemma get_set_tag (hlo : M.memHeap ≤ q) (hhi : q + 4 ≤ h.memBrk) (h8 : 8 ∣ b.size)
    (hlt : b.size < 2 ^ 32) : get M (h.set q b.tag) q = some b.tag := by
  rw [get_eq (h := h.set q b.tag) hlo hhi, set_mem, word_setWord_of_lt _ _ (tag_lt h8 hlt)]

@[simp] lemma hdrp_add (c : ℕ) : hdrp (c + 4) = c := Nat.add_sub_cancel ..

/-- Both tags of a block written. -/
def Heap.setTags (h : Heap) (c : ℕ) (b : Block) : Heap :=
  (h.set c b.tag).set (c + b.size - 4) b.tag

@[simp] lemma setTags_memBrk (h : Heap) (c : ℕ) (b : Block) : (h.setTags c b).memBrk = h.memBrk :=
  rfl

@[simp] lemma setTags_heapListp (h : Heap) (c : ℕ) (b : Block) :
    (h.setTags c b).heapListp = h.heapListp := rfl

lemma setTags_of_outside (hb : b.Sized) (hq : q < c ∨ c + b.size ≤ q) :
    (h.setTags c b).mem q = h.mem q := by
  have := hb.2
  rw [Heap.setTags, set_mem, set_mem, setWord_of_outside (by omega), setWord_of_outside (by omega)]

lemma tags_setTags (hb : b.Sized) (hlt : b.size < 2 ^ 32) : Tags (h.setTags c b).mem c [b] := by
  have hge := hb.2
  have htag (m : Bytes) (q : ℕ) : word (setWord m q b.tag) q = b.tag :=
    word_setWord_of_lt m q (tag_lt hb.1 hlt)
  refine ⟨?_, htag _ _, trivial⟩
  rw [Heap.setTags, set_mem, word_setWord_of_apart (.inr (by omega))]
  exact htag _ _

/-- The order in which the tags are written does not matter. -/
lemma set_footer_first (h : Heap) (c : ℕ) (hb : b.Sized) :
    (h.set (c + b.size - 4) b.tag).set c b.tag = h.setTags c b := by
  have hge := hb.2
  have hmem : setWord (setWord h.mem (c + b.size - 4) b.tag) c b.tag =
      setWord (setWord h.mem c b.tag) (c + b.size - 4) b.tag := by
    funext q
    by_cases hq : c ≤ q ∧ q < c + 4
    · rw [setWord_of_outside (p := c + b.size - 4) (by omega)]
      simp only [setWord, if_pos hq]
    · rw [setWord_of_outside (p := c) (by omega)]
      by_cases hq' : c + b.size - 4 ≤ q ∧ q < c + b.size - 4 + 4
      · simp only [setWord, if_pos hq']
      · rw [setWord_of_outside (by omega), setWord_of_outside (by omega),
          setWord_of_outside (by omega)]
  rw [Heap.setTags, Heap.set, Heap.set, Heap.set, Heap.set, ← hmem]

lemma getSize_of_get (hget : get M h q = some b.tag) (h8 : 8 ∣ b.size) (hlt : b.size < 2 ^ 32) :
    getSize M h q = some b.size := by
  rw [getSize, hget, Option.map_some, sizeBits_tag h8 hlt]

lemma getAlloc_of_get (hget : get M h q = some b.tag) (h8 : 8 ∣ b.size) :
    getAlloc M h q = some b.alloc.toNat := by
  rw [getAlloc, hget, Option.map_some, flagBit_tag h8]

lemma ftrp_of_getSize (hs : getSize M h c = some s) : ftrp M h (c + 4) = some (c + s - 4) := by
  rw [ftrp, hdrp_add, hs, Option.map_some, show DSIZE = 8 from rfl]
  congr 1
  omega

lemma nextBlkp_of_getSize (hs : getSize M h c = some s) :
    nextBlkp M h (c + 4) = some (c + s + 4) := by
  rw [nextBlkp, Nat.add_sub_cancel, hs, Option.map_some]
  congr 1
  omega

/-- Writing the header of a block and then, where the header says that it ends, its footer. -/
lemma put_tags (hlo : M.memHeap ≤ c) (hhi : c + b.size ≤ h.memBrk) (hb : b.Sized)
    (hlt : b.size < 2 ^ 32) :
    put M h c b.tag = some (h.set c b.tag) ∧
      ftrp M (h.set c b.tag) (c + 4) = some (c + b.size - 4) ∧
      put M (h.set c b.tag) (c + b.size - 4) b.tag = some (h.setTags c b) := by
  obtain ⟨h8, hge⟩ := hb
  have hsize : getSize M (h.set c b.tag) c = some b.size :=
    getSize_of_get (get_set_tag hlo (by omega) h8 hlt) h8 hlt
  exact ⟨put_eq hlo (by omega) _, ftrp_of_getSize hsize,
    put_eq (by omega) (by rw [set_memBrk]; omega) _⟩

/-! ### Reading the tags of a layout -/

namespace Layout

section

variable (hL : Layout M h bs)

include hL

lemma sized : ∀ b ∈ bs, b.Sized := fun b hb => (hL.proper b hb).sized

lemma pos : ∀ b ∈ bs, 0 < b.size := fun b hb => (hL.sized b hb).pos

lemma span_le : span bs + 16 ≤ M.MAX_HEAP := by
  have hbrk := hL.brk
  have hroom := hL.room
  rw [Memlib.firstHdr] at hbrk
  rw [Memlib.memMaxAddr] at hroom
  omega

lemma size_lt (hb : b ∈ bs) : b.size < 2 ^ 31 := by
  have := hL.span_le
  have := M.small
  have : b.size ≤ span bs := extent_le_span hb
  omega

lemma rowTags : Tags h.mem M.firstHdr bs := hL.tags.2.2

lemma get_in (hlo : M.memHeap ≤ q) (hhi : q ≤ M.firstHdr + span bs) :
    get M h q = some (word h.mem q) :=
  get_eq hlo (by rw [hL.brk]; omega)

lemma get_hdr (hat : At M.firstHdr bs c b) : get M h c = some b.tag := by
  have hle := block_le hat
  have hfirst : M.firstHdr = M.memHeap + 12 := rfl
  rw [hL.get_in (by omega) (by omega), (tags_at hL.rowTags hat).1]

lemma get_ftr (hat : At M.firstHdr bs c b) : get M h (c + b.size - 4) = some b.tag := by
  have hle := block_le hat
  have hfirst : M.firstHdr = M.memHeap + 12 := rfl
  have hsize := (hL.proper b hat.mem).2
  rw [hL.get_in (by omega) (by omega), (tags_at hL.rowTags hat).2]

lemma getSize_hdr (hat : At M.firstHdr bs c b) : getSize M h c = some b.size := by
  have := hL.size_lt hat.mem
  exact getSize_of_get (hL.get_hdr hat) (hL.proper b hat.mem).1 (by omega)

lemma getAlloc_hdr (hat : At M.firstHdr bs c b) : getAlloc M h c = some b.alloc.toNat :=
  getAlloc_of_get (hL.get_hdr hat) (hL.proper b hat.mem).1

lemma getSize_ftr (hat : At M.firstHdr bs c b) : getSize M h (c + b.size - 4) = some b.size := by
  have := hL.size_lt hat.mem
  exact getSize_of_get (hL.get_ftr hat) (hL.proper b hat.mem).1 (by omega)

lemma getAlloc_epilogue : getAlloc M h (M.firstHdr + span bs) = some 1 := by
  have hget := hL.get_in (q := M.firstHdr + span bs) (by rw [Memlib.firstHdr]; omega) le_rfl
  rw [getAlloc, hget, hL.epilogue]
  rfl

lemma getSize_epilogue : getSize M h (M.firstHdr + span bs) = some 0 := by
  have hget := hL.get_in (q := M.firstHdr + span bs) (by rw [Memlib.firstHdr]; omega) le_rfl
  rw [getSize, hget, hL.epilogue]
  rfl

/-- Both tags of the prologue. -/
lemma get_prologue : get M h (M.memHeap + 4) = some prologue.tag ∧
    get M h (M.memHeap + 8) = some prologue.tag := by
  obtain ⟨hhdr, hftr, -⟩ := hL.tags
  have hfirst : M.firstHdr = M.memHeap + 12 := rfl
  rw [hL.get_in (by omega) (by omega), hL.get_in (by omega) (by omega), hhdr]
  exact ⟨rfl, congrArg some hftr⟩

end

/-! ### The neighbours of a block -/

/-- The block in front, which may be the prologue: how long it is, and whether it is in use. -/
lemma prev_eq (hL : Layout M h (pre ++ post)) (hc : c = M.firstHdr + span pre) :
    let p := pre.getLast?.getD prologue
    prevBlkp M h (c + 4) = some (c - p.size + 4) ∧
      ftrp M h (c - p.size + 4) = some (c - 4) ∧ getAlloc M h (c - 4) = some p.alloc.toNat ∧
      getSize M h (c - p.size) = some p.size ∧ p.size ≤ c := by
  intro p
  have hfirst : M.firstHdr = M.memHeap + 12 := rfl
  have htags : get M h (c - p.size) = some p.tag ∧ get M h (c - 4) = some p.tag := by
    rcases List.eq_nil_or_concat' pre with rfl | ⟨pre, d, rfl⟩
    · -- the prologue
      have := hL.get_prologue
      obtain rfl : c = M.memHeap + 12 := by simpa [hfirst] using hc
      exact this
    · -- the last block of `pre`
      have hp : p = d := by simp [p]
      have hat : At M.firstHdr (pre ++ [d] ++ post) (M.firstHdr + span pre) d := by
        simpa using at_mid pre d post M.firstHdr
      rw [span_append, span_block, span_nil] at hc
      rw [hp, show c - d.size = M.firstHdr + span pre by omega,
        show c - 4 = M.firstHdr + span pre + d.size - 4 by omega]
      exact ⟨hL.get_hdr hat, hL.get_ftr hat⟩
  have hp : p.Sized ∧ p.size < 2 ^ 32 ∧ p.size ≤ c := by
    rcases List.eq_nil_or_concat' pre with rfl | ⟨pre, d, rfl⟩
    · have hp : p = prologue := rfl
      rw [hp]
      exact ⟨prologue_sized, by decide, show 8 ≤ c by omega⟩
    · have hp : p = d := by simp [p]
      have hd : d ∈ pre ++ [d] ++ post := by simp
      have := hL.size_lt hd
      rw [span_append, span_block, span_nil] at hc
      rw [hp]
      exact ⟨hL.sized d hd, by omega, by omega⟩
  obtain ⟨⟨h8, hge⟩, hlt, hle⟩ := hp
  have hsize := getSize_of_get htags.1 h8 hlt
  refine ⟨?_, ?_, getAlloc_of_get htags.2 h8, hsize, hle⟩
  · rw [prevBlkp, show c + 4 - DSIZE = c - 4 from Nat.add_sub_add_right c 4 4,
      getSize_of_get htags.2 h8 hlt, Option.map_some]
    congr 1
    omega
  · rw [ftrp_of_getSize hsize]
    congr 1
    omega

/-- Whether the block behind is in use, which may be the epilogue. -/
lemma nextAlloc_eq (hL : Layout M h (pre ++ post)) (hc : c = M.firstHdr + span pre) :
    getAlloc M h c = some (post.head?.elim true Block.alloc).toNat := by
  subst hc
  cases post with
  | nil =>
    rw [List.append_nil] at hL
    exact hL.getAlloc_epilogue
  | cons n post => exact hL.getAlloc_hdr (at_mid pre n post M.firstHdr)

/-- **Replacing a stretch of the row** by another of the same length, in a heap that changed there
only. -/
lemma replace (hL : Layout M h (pre ++ mid ++ post)) (hlistp : h'.heapListp = h.heapListp)
    (hbrk : h'.memBrk = h.memBrk)
    (hsame : ∀ q, q < M.firstHdr + span pre ∨ M.firstHdr + span pre + span mid ≤ q →
      h'.mem q = h.mem q)
    (hmid : Tags h'.mem (M.firstHdr + span pre) mid') (hspan : span mid' = span mid)
    (hproper : ∀ b ∈ mid', Proper b) : Layout M h' (pre ++ mid' ++ post) := by
  have hfirst : M.memHeap + 4 + prologue.size = M.firstHdr := rfl
  have hspans : span (pre ++ mid' ++ post) = span (pre ++ mid ++ post) := by
    simp only [span_append, hspan]
  refine ⟨hlistp.trans hL.listp, ?_, ?_, ?_, hbrk.le.trans hL.room, ?_⟩
  · have hsized : ∀ b ∈ prologue :: (pre ++ mid ++ post), b.Sized := by
      simpa using ⟨prologue_sized, fun b hb => hL.sized b (by simpa using hb)⟩
    have hold : Tags h.mem (M.memHeap + 4) ((prologue :: pre) ++ mid ++ post) := by
      simpa using hL.tags
    have hstart : M.memHeap + 4 + span (prologue :: pre) = M.firstHdr + span pre := by
      rw [span_block, ← Nat.add_assoc, hfirst]
    have hnew := hold.replace (by simpa using hsized) (hstart ▸ hsame) (hstart ▸ hmid) hspan
    simpa using hnew
  · rw [hspans, word_congr, hL.epilogue]
    intro q hle hlt
    refine hsame q (.inr ?_)
    simp only [span_append] at hle
    omega
  · rw [hbrk, hspans, hL.brk]
  · intro b hb
    rcases List.mem_append.mp hb with hb | hb
    · rcases List.mem_append.mp hb with hb | hb
      · exact hL.proper b (by simp [hb])
      · exact hproper b hb
    · exact hL.proper b (by simp [hb])

end Layout

/-! ### Joining free blocks -/

lemma tag_free (s : ℕ) : pack s 0 = Block.tag ⟨s, false⟩ := rfl

lemma tag_used (s : ℕ) : pack s 1 = Block.tag ⟨s, true⟩ := rfl

/-- The stretch `mid` of free blocks has become one block. -/
structure Coalesced (M : Memlib) (h : Heap) (bs : List Block) (h' : Heap)
    (l mid r : List Block) : Prop where
  split : bs = l ++ mid ++ r
  free : ∀ b ∈ mid, b.alloc = false
  layout : Layout M h' (l ++ ⟨span mid, false⟩ :: r)
  merged : Merged (l ++ ⟨span mid, false⟩ :: r)
  same : ∀ q, q < M.firstHdr + span l ∨ M.firstHdr + span l + span mid ≤ q → h'.mem q = h.mem q

lemma merged_mid {l r : List Block} (hl : Merged l) (hr : Merged r)
    (hlast : ∀ x ∈ l.getLast?, x.alloc = true) (hhead : ∀ y ∈ r.head?, y.alloc = true) :
    Merged (l ++ b :: r) := by
  refine List.isChain_append.mpr ⟨hl, List.isChain_cons.mpr ⟨fun y hy => ?_, hr⟩,
    fun x hx y _ => ?_⟩
  · exact .inr (hhead y hy)
  · exact .inl (hlast x hx)

lemma Merged.init (hm : Merged (pre ++ [p])) (hp : p.alloc = false) :
    Merged pre ∧ ∀ x ∈ pre.getLast?, x.alloc = true := by
  obtain ⟨hpre, -, hlink⟩ := List.isChain_append.mp hm
  refine ⟨hpre, fun x hx => (hlink x hx p (by simp)).resolve_right (by simp [hp])⟩

lemma Merged.tail (hm : Merged (n :: post)) (hn : n.alloc = false) :
    Merged post ∧ ∀ y ∈ post.head?, y.alloc = true := by
  obtain ⟨hlink, hpost⟩ := List.isChain_cons.mp hm
  exact ⟨hpost, fun y hy => (hlink y hy).resolve_left (by simp [hn])⟩

/-- **A stretch of free blocks** gets the tags of one block. -/
lemma Layout.coalesced {l r : List Block} (hL : Layout M h (l ++ mid ++ r))
    (hfree : ∀ b ∈ mid, b.alloc = false) (hne : mid ≠ [])
    (hmerged : Merged (l ++ ⟨span mid, false⟩ :: r)) :
    Coalesced M h (l ++ mid ++ r) (h.setTags (M.firstHdr + span l) ⟨span mid, false⟩) l mid r := by
  have hproper : Proper ⟨span mid, false⟩ := by
    obtain ⟨b, hb⟩ := List.exists_mem_of_ne_nil mid hne
    refine ⟨dvd_span fun b hb => (hL.sized b (by simp [hb])).1, ?_⟩
    exact (hL.proper b (by simp [hb])).2.trans (extent_le_span hb)
  have hlt : span mid < 2 ^ 32 := by
    have hspan := hL.span_le
    have := M.small
    simp only [span_append] at hspan
    omega
  have hsame (q : ℕ) (hq : q < M.firstHdr + span l ∨ M.firstHdr + span l + span mid ≤ q) :
      (h.setTags (M.firstHdr + span l) ⟨span mid, false⟩).mem q = h.mem q :=
    setTags_of_outside hproper.sized hq
  have hnew : Layout M (h.setTags (M.firstHdr + span l) ⟨span mid, false⟩) _ :=
    hL.replace rfl rfl hsame (tags_setTags hproper.sized hlt) (by simp) (by simpa using hproper)
  exact ⟨rfl, hfree, by simpa using hnew, hmerged, hsame⟩

section Coalesce

variable (hL : Layout M h (pre ++ ⟨s, false⟩ :: post)) (hc : c = M.firstHdr + span pre)

include hL hc

/-- What the first three lines of `coalesce` read. -/
lemma coalesce_reads :
    let p := pre.getLast?.getD prologue
    prevBlkp M h (c + 4) = some (c - p.size + 4) ∧ ftrp M h (c - p.size + 4) = some (c - 4) ∧
      getAlloc M h (c - 4) = some p.alloc.toNat ∧ getSize M h (c - p.size) = some p.size ∧
      nextBlkp M h (c + 4) = some (c + s + 4) ∧
      getAlloc M h (c + s) = some (post.head?.elim true Block.alloc).toNat ∧
      getSize M h c = some s ∧ ftrp M h (c + 4) = some (c + s - 4) := by
  obtain ⟨hprev, hftr, halloc, hsize, -⟩ := hL.prev_eq hc
  have hat : At M.firstHdr (pre ++ ⟨s, false⟩ :: post) c ⟨s, false⟩ := hc ▸ at_mid ..
  have hcur := hL.getSize_hdr hat
  have hL' : Layout M h ((pre ++ [⟨s, false⟩]) ++ post) := by simpa using hL
  have hnext := hL'.nextAlloc_eq (c := c + s) (by simp [hc]; omega)
  exact ⟨hprev, hftr, halloc, hsize, nextBlkp_of_getSize hcur, hnext, hcur, ftrp_of_getSize hcur⟩

/-- Case 1: neither neighbour is free. -/
lemma coalesce_none (hp : (pre.getLast?.getD prologue).alloc = true)
    (hn : post.head?.elim true Block.alloc = true) :
    coalesce M h (c + 4) = some (h, c + 4) := by
  obtain ⟨hprev, hpftr, hpalloc, -, hnext, hnalloc, hcur, -⟩ := coalesce_reads hL hc
  simp [coalesce, hprev, hpftr, hpalloc, hnext, hnalloc, hcur, hp, hn]

end Coalesce

/-- Case 2: the block behind is free. -/
lemma coalesce_next (hL : Layout M h (pre ++ ⟨s, false⟩ :: n :: post))
    (hc : c = M.firstHdr + span pre) (hp : (pre.getLast?.getD prologue).alloc = true)
    (hn : n.alloc = false) :
    coalesce M h (c + 4) = some (h.setTags c ⟨s + n.size, false⟩, c + 4) := by
  obtain ⟨hprev, hpftr, hpalloc, -, hnext, hnalloc, hcur, -⟩ := coalesce_reads hL hc
  have hspan := hL.span_le
  have hsmall := M.small
  have hbrk := hL.brk
  have hfirst : M.firstHdr = M.memHeap + 12 := rfl
  simp only [span_append, span_block] at hspan hbrk
  have hat : At M.firstHdr (pre ++ ⟨s, false⟩ :: n :: post) (c + s) n :=
    ⟨pre ++ [⟨s, false⟩], post, by simp, by simp [hc]; omega⟩
  have hnsize := hL.getSize_hdr hat
  have hsized : Block.Sized ⟨s + n.size, false⟩ :=
    ⟨Nat.dvd_add (hL.proper ⟨s, false⟩ (by simp)).1 (hL.proper n hat.mem).1,
      (hL.sized n hat.mem).2.trans (Nat.le_add_left _ _)⟩
  have hmod : sizeT (s + n.size) = s + n.size := sizeT_of_lt (by omega)
  obtain ⟨hput₁, hftr, hput₂⟩ := put_tags (M := M) (h := h) (c := c) (by omega)
    (show c + (s + n.size) ≤ _ by omega) hsized (show s + n.size < _ by omega)
  simp [coalesce, hprev, hpftr, hpalloc, hnext, hnalloc, hcur, hp, hn, hnsize, hmod, tag_free,
    hput₁, hftr, hput₂]

/-- Case 3: the block in front is free. -/
lemma coalesce_prev (hL : Layout M h (pre ++ p :: ⟨s, false⟩ :: post))
    (hc : c = M.firstHdr + span pre) (hp : p.alloc = false)
    (hn : post.head?.elim true Block.alloc = true) :
    coalesce M h (c + p.size + 4) = some (h.setTags c ⟨s + p.size, false⟩, c + 4) := by
  have hL' : Layout M h ((pre ++ [p]) ++ ⟨s, false⟩ :: post) := by simpa using hL
  have hreads := coalesce_reads hL' (c := c + p.size) (by simp [hc]; omega)
  simp only [List.getLast?_append, List.getLast?_singleton, Option.some_or, Option.getD_some,
    Nat.add_sub_cancel] at hreads
  obtain ⟨hprev, hpftr, hpalloc, hpsize, hnext, hnalloc, hcur, hftr⟩ := hreads
  have hspan := hL.span_le
  have hsmall := M.small
  have hbrk := hL.brk
  have hfirst : M.firstHdr = M.memHeap + 12 := rfl
  simp only [span_append, span_block] at hspan hbrk
  have hge : 8 ∣ s ∧ 16 ≤ s := hL.proper ⟨s, false⟩ (by simp)
  have hgep : 8 ∣ p.size ∧ 16 ≤ p.size := hL.proper p (by simp)
  have hmod : sizeT (s + p.size) = s + p.size := sizeT_of_lt (by omega)
  have htags := set_footer_first h c (b := ⟨s + p.size, false⟩)
    ⟨Nat.dvd_add hge.1 hgep.1, show 8 ≤ s + p.size by omega⟩
  rw [show c + Block.size ⟨s + p.size, false⟩ - 4 = c + p.size + s - 4 by simp only; omega]
    at htags
  obtain ⟨t, ht⟩ : ∃ t, t = Block.tag ⟨s + p.size, false⟩ := ⟨_, rfl⟩
  rw [← ht] at htags
  have hput₁ : put M h (c + p.size + s - 4) t = _ := put_eq (by omega) (by omega) t
  -- The tag in front is still there when it is read again.
  have hagain (q : ℕ) (hq : Apart q (c + p.size - 4)) (g : Heap)
      (hg : prevBlkp M g (c + p.size + 4) = some (c + 4)) :
      prevBlkp M (g.set q t) (c + p.size + 4) = some (c + 4) := by
    rw [← hg, prevBlkp, prevBlkp, show c + p.size + 4 - DSIZE = c + p.size - 4 from
      Nat.add_sub_add_right _ 4 4, getSize_set_of_apart hq]
  have hprev₁ := hagain (c + p.size + s - 4) (.inr (by omega)) h hprev
  have hput₂ : put M (h.set (c + p.size + s - 4) t) c t = _ :=
    put_eq (by omega) (by rw [set_memBrk]; omega) t
  have hprev₂ := hagain c (.inl (by omega)) _ hprev₁
  rw [htags] at hput₂ hprev₂
  simp [coalesce, hprev, hpftr, hpalloc, hpsize, hnext, hnalloc, hcur, hftr, hp, hn, hmod, tag_free,
    ← ht, hput₁, hprev₁, hput₂, hprev₂]

/-- Case 4: both are. -/
lemma coalesce_both (hL : Layout M h (pre ++ p :: ⟨s, false⟩ :: n :: post))
    (hc : c = M.firstHdr + span pre) (hp : p.alloc = false) (hn : n.alloc = false) :
    coalesce M h (c + p.size + 4) =
      some (h.setTags c ⟨s + (p.size + n.size), false⟩, c + 4) := by
  have hL' : Layout M h ((pre ++ [p]) ++ ⟨s, false⟩ :: n :: post) := by simpa using hL
  have hreads := coalesce_reads hL' (c := c + p.size) (by simp [hc]; omega)
  simp only [List.getLast?_append, List.getLast?_singleton, Option.some_or, Option.getD_some,
    Nat.add_sub_cancel] at hreads
  obtain ⟨hprev, hpftr, hpalloc, hpsize, hnext, hnalloc, hcur, hftr⟩ := hreads
  have hspan := hL.span_le
  have hsmall := M.small
  have hbrk := hL.brk
  have hfirst : M.firstHdr = M.memHeap + 12 := rfl
  simp only [span_append, span_block] at hspan hbrk
  have hat : At M.firstHdr (pre ++ p :: ⟨s, false⟩ :: n :: post) (c + p.size + s) n :=
    ⟨pre ++ [p, ⟨s, false⟩], post, by simp, by simp [hc]; omega⟩
  have hge : 16 ≤ s := (hL.proper ⟨s, false⟩ (by simp)).2
  have hgep : 16 ≤ p.size := (hL.proper p (by simp)).2
  have hgen : 16 ≤ n.size := (hL.proper n (by simp)).2
  have hnftr := ftrp_of_getSize (hL.getSize_hdr hat)
  have hnsize := hL.getSize_ftr hat
  have hmod : sizeT (s + unsignedInt (p.size + n.size)) = s + (p.size + n.size) := by
    rw [unsignedInt_of_lt (by omega), sizeT_of_lt (by omega)]
  have htags : h.setTags c ⟨s + (p.size + n.size), false⟩ =
      (h.set c (Block.tag ⟨s + (p.size + n.size), false⟩)).set (c + p.size + s + n.size - 4)
        (Block.tag ⟨s + (p.size + n.size), false⟩) := by
    rw [Heap.setTags]
    congr 1
    simp only
    omega
  obtain ⟨t, ht⟩ : ∃ t, t = Block.tag ⟨s + (p.size + n.size), false⟩ := ⟨_, rfl⟩
  rw [← ht] at htags
  have hput₁ : put M h c t = _ := put_eq (by omega) (by omega) t
  -- Of the tags that are read again, none is written before.
  have hsame (q : ℕ) (hq : Apart c q) : getSize M (h.set c t) q = getSize M h q :=
    getSize_set_of_apart hq
  have hnext₁ : nextBlkp M (h.set c t) (c + p.size + 4) = some (c + p.size + s + 4) := by
    rw [← hnext, nextBlkp, nextBlkp, Nat.add_sub_cancel, hsame _ (.inl (by omega))]
  have hnftr₁ : ftrp M (h.set c t) (c + p.size + s + 4) = some (c + p.size + s + n.size - 4) := by
    rw [← hnftr, ftrp, ftrp, hdrp_add, hsame _ (.inl (by omega))]
  have hput₂ : put M (h.set c t) (c + p.size + s + n.size - 4) t = _ :=
    put_eq (by omega) (by rw [set_memBrk]; omega) t
  have hprev₂ : prevBlkp M ((h.set c t).set (c + p.size + s + n.size - 4) t) (c + p.size + 4) =
      some (c + 4) := by
    rw [← hprev, prevBlkp, prevBlkp, show c + p.size + 4 - DSIZE = c + p.size - 4 from
      Nat.add_sub_add_right _ 4 4, getSize_set_of_apart (.inr (by omega)),
      hsame _ (.inl (by omega))]
  simp [coalesce, hprev, hpftr, hpalloc, hpsize, hnext, hnalloc, hcur, hp, hn, hmod, hnsize,
    hnftr, tag_free, htags, ← ht, hput₁, hnext₁, hnftr₁, hput₂, hprev₂]

lemma exists_next_free (hn : post.head?.elim true Block.alloc = false) :
    ∃ n rest, post = n :: rest ∧ n.alloc = false := by
  cases post with
  | nil => cases hn
  | cons n rest => exact ⟨n, rest, rfl, hn⟩

lemma exists_prev_free (hp : (pre.getLast?.getD prologue).alloc = false) :
    ∃ rest p, pre = rest ++ [p] ∧ p.alloc = false := by
  rcases List.eq_nil_or_concat' pre with rfl | ⟨rest, p, rfl⟩
  · cases hp
  · exact ⟨rest, p, rfl, by simpa using hp⟩

lemma used_of_next (hn : post.head?.elim true Block.alloc = true) :
    ∀ y ∈ post.head?, y.alloc = true := fun y hy => by
  rw [Option.mem_def.mp hy] at hn
  exact hn

lemma used_of_prev (hp : (pre.getLast?.getD prologue).alloc = true) :
    ∀ x ∈ pre.getLast?, x.alloc = true := fun x hx => by
  rw [Option.mem_def.mp hx] at hp
  exact hp

/-- **`coalesce` joins a free block with its free neighbours.** -/
theorem coalesce_spec (hL : Layout M h (pre ++ ⟨s, false⟩ :: post))
    (hc : c = M.firstHdr + span pre) (hpre : Merged pre) (hpost : Merged post) :
    ∃ h' l mid r, coalesce M h (c + 4) = some (h', M.firstHdr + span l + 4) ∧
      Coalesced M h (pre ++ ⟨s, false⟩ :: post) h' l mid r ∧ ⟨s, false⟩ ∈ mid ∧ r <:+ post := by
  subst hc
  cases hp : (pre.getLast?.getD prologue).alloc with
  | true =>
    have hlast := used_of_prev hp
    cases hn : post.head?.elim true Block.alloc with
    | true =>
      refine ⟨h, pre, [⟨s, false⟩], post, coalesce_none hL rfl hp hn, ?_, by simp, List.suffix_rfl⟩
      have hm := merged_mid (b := ⟨s, false⟩) hpre hpost hlast (used_of_next hn)
      exact ⟨by simp, by simp, by simpa using hL, by simpa using hm, fun _ _ => rfl⟩
    | false =>
      obtain ⟨n, rest, rfl, hn⟩ := exists_next_free hn
      obtain ⟨hrest, hhead⟩ := hpost.tail hn
      have hL' : Layout M h (pre ++ [⟨s, false⟩, n] ++ rest) := by simpa using hL
      refine ⟨_, pre, [⟨s, false⟩, n], rest, coalesce_next hL rfl hp hn, ?_, by simp,
        List.suffix_cons n rest⟩
      have h' := hL'.coalesced (by simpa using hn) (by simp)
        (merged_mid hpre hrest hlast hhead)
      simpa using h'
  | false =>
    obtain ⟨pre, p, rfl, hpfree⟩ := exists_prev_free hp
    obtain ⟨hinit, hlast⟩ := hpre.init hpfree
    have hc : M.firstHdr + span (pre ++ [p]) = M.firstHdr + span pre + p.size := by
      simp [Nat.add_assoc]
    rw [hc]
    cases hn : post.head?.elim true Block.alloc with
    | true =>
      have hL' : Layout M h (pre ++ [p, ⟨s, false⟩] ++ post) := by simpa using hL
      refine ⟨_, pre, [p, ⟨s, false⟩], post,
        coalesce_prev (by simpa using hL) rfl hpfree hn, ?_, by simp, List.suffix_rfl⟩
      have h' := hL'.coalesced (by simpa using hpfree) (by simp)
        (merged_mid hinit hpost hlast (used_of_next hn))
      simpa [Nat.add_comm s, Nat.add_assoc] using h'
    | false =>
      obtain ⟨n, rest, rfl, hn⟩ := exists_next_free hn
      obtain ⟨hrest, hhead⟩ := hpost.tail hn
      have hL' : Layout M h (pre ++ [p, ⟨s, false⟩, n] ++ rest) := by simpa using hL
      refine ⟨_, pre, [p, ⟨s, false⟩, n], rest,
        coalesce_both (by simpa using hL) rfl hpfree hn, ?_, by simp, List.suffix_cons n rest⟩
      have h' := hL'.coalesced (by simpa using ⟨hpfree, hn⟩) (by simp)
        (merged_mid hinit hrest hlast hhead)
      simpa [Nat.add_left_comm s, Nat.add_assoc] using h'

/-! ### Placing a block -/

/-- What a free block of `csize` bytes becomes when `asize` of them are needed. -/
def placed (csize asize : ℕ) : List Block :=
  if 16 ≤ csize - asize then [⟨asize, true⟩, ⟨csize - asize, false⟩] else [⟨csize, true⟩]

section Place

variable {cs asize : ℕ} (hL : Layout M h (pre ++ ⟨cs, false⟩ :: post))
  (hc : c = M.firstHdr + span pre)

include hL hc

lemma place_split (h8 : 8 ∣ asize) (hge : 8 ≤ asize) (hsplit : 16 ≤ cs - asize) :
    place M h (c + 4) asize =
      some ((h.setTags c ⟨asize, true⟩).setTags (c + asize) ⟨cs - asize, false⟩) := by
  have hat : At M.firstHdr (pre ++ ⟨cs, false⟩ :: post) c ⟨cs, false⟩ := hc ▸ at_mid ..
  have hcur : getSize M h c = some cs := hL.getSize_hdr hat
  have hlt : cs < 2 ^ 31 := hL.size_lt hat.mem
  have hbrk := hL.brk
  have hfirst : M.firstHdr = M.memHeap + 12 := rfl
  simp only [span_append, span_block] at hbrk
  have hused : Block.Sized ⟨asize, true⟩ := ⟨h8, hge⟩
  have hfree : Block.Sized ⟨cs - asize, false⟩ :=
    ⟨Nat.dvd_sub (hL.proper _ hat.mem).1 h8, show 8 ≤ cs - asize by omega⟩
  have hrest : sizeSub cs asize = cs - asize := sizeSub_of_le (by omega) (by omega)
  obtain ⟨hput₁, hftr₁, hput₂⟩ := put_tags (M := M) (h := h) (c := c) (by omega)
    (show c + asize ≤ _ by omega) hused (show asize < _ by omega)
  have hnext : nextBlkp M (h.setTags c ⟨asize, true⟩) (c + 4) = some (c + asize + 4) := by
    refine nextBlkp_of_getSize (getSize_of_get (b := ⟨asize, true⟩) ?_ h8 (show asize < _ by omega))
    rw [get_eq (by omega) (by rw [setTags_memBrk]; omega),
      (tags_setTags hused (show asize < _ by omega)).1]
  obtain ⟨hput₃, hftr₃, hput₄⟩ := put_tags (M := M) (h := h.setTags c ⟨asize, true⟩)
    (c := c + asize) (by omega) (show c + asize + (cs - asize) ≤ h.memBrk by omega) hfree
    (show cs - asize < _ by omega)
  simp [place, hcur, hrest, tag_free, tag_used, hput₁, hftr₁, hput₂, hnext, hput₃, hftr₃, hput₄,
    show 2 * DSIZE ≤ cs - asize from hsplit]

lemma place_whole (hle : asize ≤ cs) (hwhole : ¬16 ≤ cs - asize) :
    place M h (c + 4) asize = some (h.setTags c ⟨cs, true⟩) := by
  have hat : At M.firstHdr (pre ++ ⟨cs, false⟩ :: post) c ⟨cs, false⟩ := hc ▸ at_mid ..
  have hcur : getSize M h c = some cs := hL.getSize_hdr hat
  have hlt : cs < 2 ^ 31 := hL.size_lt hat.mem
  have hbrk := hL.brk
  have hfirst : M.firstHdr = M.memHeap + 12 := rfl
  simp only [span_append, span_block] at hbrk
  have hrest : sizeSub cs asize = cs - asize := sizeSub_of_le (by omega) hle
  obtain ⟨hput₁, hftr₁, hput₂⟩ := put_tags (M := M) (h := h) (c := c) (b := ⟨cs, true⟩) (by omega)
    (show c + cs ≤ _ by omega) (show Block.Sized ⟨cs, true⟩ from hL.sized ⟨cs, false⟩ hat.mem)
    (show cs < _ by omega)
  simp [place, hcur, hrest, tag_used, hput₁, hftr₁, hput₂,
    show ¬2 * DSIZE ≤ cs - asize from hwhole]

/-- **`place` takes what it needs from the front** of a free block, all of it if what is left would
be no block. -/
theorem place_spec (h8 : 8 ∣ asize) (hge : 16 ≤ asize) (hle : asize ≤ cs) :
    ∃ h', place M h (c + 4) asize = some h' ∧
    Layout M h' (pre ++ placed cs asize ++ post) ∧
    ∀ q, q < c ∨ c + cs ≤ q → h'.mem q = h.mem q := by
  have hmem : ⟨cs, false⟩ ∈ pre ++ ⟨cs, false⟩ :: post := by simp
  have hcs : 8 ∣ cs := (hL.proper _ hmem).1
  have hlt : cs < 2 ^ 31 := hL.size_lt hmem
  have hL' : Layout M h (pre ++ [⟨cs, false⟩] ++ post) := by simpa using hL
  by_cases hsplit : 16 ≤ cs - asize
  · -- what is left is a block of its own
    have hused : Proper ⟨asize, true⟩ := ⟨h8, hge⟩
    have hfree : Proper ⟨cs - asize, false⟩ := ⟨Nat.dvd_sub hcs h8, hsplit⟩
    have hsame (q : ℕ) (hq : q < c ∨ c + cs ≤ q) :
        ((h.setTags c ⟨asize, true⟩).setTags (c + asize) ⟨cs - asize, false⟩).mem q = h.mem q := by
      rw [setTags_of_outside hfree.sized (by simp only; omega),
        setTags_of_outside hused.sized (by simp only; omega)]
    refine ⟨_, place_split hL hc h8 (by omega) hsplit, ?_, hsame⟩
    rw [placed, if_pos hsplit]
    refine hL'.replace rfl rfl (by simpa [← hc] using hsame) ?_ (by simp; omega)
      (by simpa using ⟨hused, hfree⟩)
    rw [← hc, ← List.singleton_append, tags_append]
    refine ⟨?_, ?_⟩
    · refine (tags_setTags hused.sized (show asize < _ by omega)).congr (by simpa using hused.sized)
        fun q _ hq => setTags_of_outside hfree.sized (.inl ?_)
      simpa using hq
    · exact tags_setTags hfree.sized (show cs - asize < _ by omega)
  · -- all of it is taken
    have hused : Proper ⟨cs, true⟩ := ⟨hcs, hge.trans hle⟩
    have hsame (q : ℕ) (hq : q < c ∨ c + cs ≤ q) : (h.setTags c ⟨cs, true⟩).mem q = h.mem q :=
      setTags_of_outside hused.sized hq
    refine ⟨_, place_whole hL hc hle hsplit, ?_, hsame⟩
    rw [placed, if_neg hsplit]
    refine hL'.replace rfl rfl (by simpa [← hc] using hsame) ?_ (by simp) (by simpa using hused)
    rw [← hc]
    exact tags_setTags hused.sized (show cs < _ by omega)

end Place

/-- A free block has used neighbours, so what it is cut into has. -/
lemma Merged.placed {cs asize : ℕ} (hm : Merged (pre ++ ⟨cs, false⟩ :: post)) :
    Merged (pre ++ placed cs asize ++ post) := by
  obtain ⟨hpre, hcons, hlink⟩ := List.isChain_append.mp hm
  obtain ⟨hhead, hpost⟩ := List.isChain_cons.mp hcons
  have hlast : ∀ x ∈ pre.getLast?, x.alloc = true := fun x hx =>
    (hlink x hx ⟨cs, false⟩ (by simp)).resolve_right (by simp)
  have hnext : ∀ y ∈ post.head?, y.alloc = true := fun y hy => (hhead y hy).resolve_left (by simp)
  rw [MmAlloc.placed]
  split
  · have hrest : Merged (⟨cs - asize, false⟩ :: post) :=
      List.isChain_cons.mpr ⟨fun y hy => .inr (hnext y hy), hpost⟩
    rw [List.append_assoc]
    exact List.isChain_append.mpr ⟨hpre, List.isChain_cons.mpr ⟨fun y _ => .inl rfl, hrest⟩,
      fun x hx y _ => .inl (hlast x hx)⟩
  · rw [List.append_assoc]
    exact merged_mid hpre hpost hlast hnext

/-! ### Looking for a free block -/

def Fits (asize : ℕ) (b : Block) : Prop := b.alloc = false ∧ asize ≤ b.size

instance (asize : ℕ) (b : Block) : Decidable (Fits asize b) := inferInstanceAs (Decidable (_ ∧ _))

/-- The first block of a row that fits. -/
def firstFit (asize : ℕ) : ℕ → List Block → ℕ
  | _, [] => NULL
  | c, b :: bs => if Fits asize b then c + 4 else firstFit asize (c + b.size) bs

lemma findFitLoop_eq {asize fuel : ℕ} (hL : Layout M h (pre ++ post))
    (hfuel : post.length < fuel) :
    findFitLoop M h asize fuel (M.firstHdr + span pre + 4) =
      some (firstFit asize (M.firstHdr + span pre) post) := by
  induction post generalizing pre fuel with
  | nil =>
    -- the epilogue ends the loop
    obtain ⟨fuel, rfl⟩ := Nat.exists_eq_succ_of_ne_zero (Nat.ne_of_gt hfuel)
    rw [List.append_nil] at hL
    simp [findFitLoop, hL.getSize_epilogue, firstFit]
  | cons b post ih =>
    obtain ⟨fuel, rfl⟩ := Nat.exists_eq_succ_of_ne_zero (Nat.ne_of_gt (Nat.zero_lt_of_lt hfuel))
    have hat := at_mid pre b post M.firstHdr
    have hpos : 0 < b.size := Nat.lt_of_lt_of_le (by omega) (hL.proper b hat.mem).2
    have hL' : Layout M h (pre ++ [b] ++ post) := by simpa using hL
    have hrest := ih hL' (Nat.lt_of_succ_lt_succ hfuel)
    simp only [span_append, span_block, span_nil, Nat.add_zero, ← Nat.add_assoc] at hrest
    have halloc : b.alloc.toNat = 0 ↔ b.alloc = false := by cases b.alloc <;> simp
    have hnext := nextBlkp_of_getSize (hL.getSize_hdr hat)
    by_cases hfits : b.alloc = false ∧ asize ≤ b.size
    · simp [findFitLoop, hL.getSize_hdr hat, hL.getAlloc_hdr hat, firstFit, Fits, hpos, hfits]
    · simp [findFitLoop, hL.getSize_hdr hat, hL.getAlloc_hdr hat, halloc, hnext, hrest, firstFit,
        Fits, hpos, hfits]

/-- **`find_fit` walks over the whole row.** -/
theorem findFit_spec {asize fuel : ℕ} (hL : Layout M h bs) (hfuel : bs.length + 1 < fuel) :
    findFit M fuel h asize = some (firstFit asize M.firstHdr bs) := by
  obtain ⟨fuel, rfl⟩ := Nat.exists_eq_succ_of_ne_zero (Nat.ne_of_gt (Nat.zero_lt_of_lt hfuel))
  obtain ⟨hhdr, -⟩ := hL.get_prologue
  have hsize : getSize M h (M.memHeap + 4) = some 8 :=
    getSize_of_get hhdr prologue_sized.1 (by decide)
  have halloc : getAlloc M h (M.memHeap + 4) = some 1 := getAlloc_of_get hhdr prologue_sized.1
  have hloop : findFitLoop M h asize fuel (M.firstHdr + span [] + 4) = _ :=
    findFitLoop_eq hL (Nat.lt_of_succ_lt_succ hfuel)
  have hnext : nextBlkp M h (M.memHeap + 4 + 4) = some (M.firstHdr + 4) := by
    rw [nextBlkp_of_getSize hsize]
    rfl
  rw [findFit, hL.listp, findFitLoop, show M.memHeap + 8 = M.memHeap + 4 + 4 from rfl, hdrp_add,
    hnext]
  simpa [hsize, halloc] using hloop

/-- What `firstFit` finds. -/
lemma firstFit_cases (asize c : ℕ) (bs : List Block) :
    (firstFit asize c bs = NULL ∧ ∀ b ∈ bs, ¬Fits asize b) ∨
      ∃ pre b post, bs = pre ++ b :: post ∧ firstFit asize c bs = c + span pre + 4 ∧
        Fits asize b ∧ ∀ b' ∈ pre, ¬Fits asize b' := by
  induction bs generalizing c with
  | nil => exact .inl ⟨rfl, by simp⟩
  | cons b bs ih =>
    by_cases hb : Fits asize b
    · exact .inr ⟨[], b, bs, rfl, by simp [firstFit, hb], hb, by simp⟩
    · rcases ih (c + b.size) with ⟨hnull, hnone⟩ | ⟨pre, b', post, rfl, haddr, hfits, hnone⟩
      · exact .inl ⟨by simp [firstFit, hb, hnull], by simpa using ⟨hb, hnone⟩⟩
      · refine .inr ⟨b :: pre, b', post, rfl, ?_, hfits, by simpa using ⟨hb, hnone⟩⟩
        rw [firstFit, if_neg hb, haddr, span_block]
        omega

/-! ### Growing the heap -/

lemma toInt_of_lt (hv : v < 2 ^ 31) : toInt v = v := by
  rw [toInt, BitVec.toInt_eq_toNat_of_lt] <;>
    rw [BitVec.toNat_ofNat, Nat.mod_eq_of_lt (by omega)]
  omega

def Heap.grown (h : Heap) (n : ℕ) : Heap := { h with memBrk := h.memBrk + n }

lemma memSbrk_ok (hv : h.memBrk + v ≤ M.memMaxAddr) :
    memSbrk M h (v : ℤ) = (h.grown v, h.memBrk) := by
  rw [memSbrk, if_neg (by omega)]
  rfl

lemma memSbrk_failed (hv : M.memMaxAddr < h.memBrk + v) :
    memSbrk M h (v : ℤ) = (h, minusOne) := by
  rw [memSbrk, if_pos (by omega)]

lemma memBrk_ne_minusOne (hL : Layout M h bs) : h.memBrk ≠ minusOne := by
  have hroom := hL.room
  have hfits := M.fits
  rw [Memlib.memMaxAddr] at hroom
  rw [minusOne]
  omega

/-- The three words that `extend_heap` writes. -/
lemma Layout.grow (hL : Layout M h bs) (hb : Proper b) (hroom : h.memBrk + b.size ≤ M.memMaxAddr) :
    Layout M (((h.grown b.size).setTags (M.firstHdr + span bs) b).set
      (M.firstHdr + span bs + b.size) (pack 0 1)) (bs ++ [b]) := by
  have hge := hb.2
  have hlt : b.size < 2 ^ 32 := by
    have := M.small
    have := hL.brk
    rw [Memlib.memMaxAddr] at hroom
    rw [Memlib.firstHdr] at this
    omega
  refine ⟨hL.listp, ?_, ?_, ?_, hroom, ?_⟩
  · rw [← List.cons_append, tags_append, span_block,
      show M.memHeap + 4 + (prologue.size + span bs) = M.firstHdr + span bs by
        simp [prologue, Memlib.firstHdr]; omega]
    refine ⟨hL.tags.congr ?_ fun q _ hq => ?_, ?_⟩
    · simpa using ⟨prologue_sized, hL.sized⟩
    · have hq' : q < M.firstHdr + span bs := by
        have : prologue.size = 8 := rfl
        rw [span_block] at hq
        rw [Memlib.firstHdr]
        omega
      rw [set_mem, setWord_of_outside (by omega), setTags_of_outside hb.sized (.inl hq')]
      rfl
    · refine (tags_setTags (h := h.grown b.size) hb.sized hlt).congr (by simpa using hb.sized)
        fun q _ hq => ?_
      rw [set_mem, setWord_of_outside]
      exact .inl (by simpa using hq)
  · rw [span_append, span_block, span_nil, Nat.add_zero, ← Nat.add_assoc, set_mem,
      word_setWord_of_lt _ _ (by decide)]
    rfl
  · rw [span_append, span_block, span_nil, Nat.add_zero]
    show h.memBrk + b.size = _
    rw [hL.brk]
    omega
  · simpa [or_imp, forall_and] using ⟨hL.proper, hb⟩

/-- **`extend_heap`** puts a free block at the end of the row, joined with a free one in front of
it, or changes nothing. -/
theorem extendHeap_spec {size : ℕ} (hL : Layout M h bs) (hm : Merged bs) (h8 : 8 ∣ size)
    (hge : 16 ≤ size) (hlt : size < 2 ^ 31) :
    (M.memMaxAddr < h.memBrk + size ∧ extendHeap M h (size / WSIZE) = some (h, NULL)) ∨
      h.memBrk + size ≤ M.memMaxAddr ∧ ∃ h' l mid, bs ++ [⟨size, false⟩] = l ++ mid ∧
        extendHeap M h (size / WSIZE) = some (h', M.firstHdr + span l + 4) ∧
        Layout M h' (l ++ [⟨span mid, false⟩]) ∧ Merged (l ++ [⟨span mid, false⟩]) ∧
        (∀ b ∈ mid, b.alloc = false) ∧ size ≤ span mid ∧
        ∀ q, q < M.firstHdr + span l → h'.mem q = h.mem q := by
  have hwords : sizeT (if size / WSIZE % 2 ≠ 0 then (size / WSIZE + 1) * WSIZE
      else size / WSIZE * WSIZE) = size := by
    rw [show WSIZE = 4 from rfl, if_neg (by omega), sizeT_of_lt (by omega)]
    omega
  rcases Nat.lt_or_ge M.memMaxAddr (h.memBrk + size) with hfull | hroom
  · -- `mem_sbrk` fails
    refine .inl ⟨hfull, ?_⟩
    simp only [extendHeap, hwords, toInt_of_lt hlt, memSbrk_failed hfull, if_true]
    rfl
  · -- the new block starts with the old epilogue
    have hb : Proper ⟨size, false⟩ := ⟨h8, hge⟩
    have hbrk := hL.brk
    have hfirst : M.firstHdr = M.memHeap + 12 := rfl
    obtain ⟨c, hc⟩ : ∃ c, c = M.firstHdr + span bs := ⟨_, rfl⟩
    have hgrown : (h.grown size).memBrk = c + 4 + size := by
      show h.memBrk + size = _
      omega
    obtain ⟨hput₁, hftr, hput₂⟩ := put_tags (M := M) (h := h.grown size) (c := c)
      (b := ⟨size, false⟩) (by omega) (show c + size ≤ _ by omega) hb.sized (show size < _ by omega)
    have hnext : nextBlkp M ((h.grown size).setTags c ⟨size, false⟩) (c + 4) =
        some (c + size + 4) := by
      refine nextBlkp_of_getSize (getSize_of_get (b := ⟨size, false⟩) ?_ h8
        (show size < _ by omega))
      rw [get_eq (by omega) (by rw [setTags_memBrk]; omega),
        (tags_setTags hb.sized (show size < _ by omega)).1]
    have hput₃ := put_eq (M := M) (h := (h.grown size).setTags c ⟨size, false⟩) (q := c + size)
      (by omega) (by rw [setTags_memBrk]; omega) (pack 0 1)
    have hL' := hL.grow hb hroom
    rw [← hc] at hL'
    obtain ⟨h', l, mid, r, hcoal, hC, hmid, hr⟩ := coalesce_spec hL' hc hm List.isChain_nil
    obtain rfl : r = [] := List.suffix_nil.mp hr
    refine .inr ⟨hroom, h', l, mid, by simpa using hC.split, ?_, hC.layout, hC.merged, hC.free,
      extent_le_span hmid, fun q hq => ?_⟩
    · have hne := memBrk_ne_minusOne hL
      rw [show h.memBrk = c + 4 by omega] at hne
      simp only [extendHeap, hwords, toInt_of_lt hlt, memSbrk_ok hroom,
        show h.memBrk = c + 4 by omega]
      simp [hne, tag_free, hput₁, hftr, hput₂, hnext, hput₃, hcoal]
    · have hlast : span l ≤ span bs := by
        have hspans := congrArg span hC.split
        have hsize : size ≤ span mid := extent_le_span hmid
        simp only [span_append, span_block, span_nil] at hspans
        omega
      rw [hC.same q (.inl hq), set_mem, setWord_of_outside (by omega),
        setTags_of_outside hb.sized (by simp only; omega)]
      rfl

end Zinzhi.MmAlloc
