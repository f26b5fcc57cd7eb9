import Zinzhi.MmLayout

/-!
What `mm_init`, `mm_malloc`, `mm_free` and `mm_realloc` do to the blocks in use.
-/

namespace Zinzhi.MmAlloc

open Zinzhi.WordMemory Zinzhi.BoundaryTags Zinzhi.Rows

variable {M : Memlib} {h h' : Heap} {bs bs' pre mid mid' post : List Block} {b : Block}
  {c p s size asize fuel : ℕ}

/-! ### The blocks in use -/

def Used (M : Memlib) (bs : List Block) (c s : ℕ) : Prop := At M.firstHdr bs c ⟨s, true⟩

/-- The heap is a row of blocks in which no free block stands next to another. -/
structure Rep (M : Memlib) (h : Heap) (bs : List Block) : Prop where
  layout : Layout M h bs
  merged : Merged bs

def Kept (M : Memlib) (bs : List Block) (h h' : Heap) : Prop :=
  ∀ c s, Used M bs c s → ∀ q, c ≤ q → q < c + s → h'.mem q = h.mem q

/-- A block is in use that was not, and nothing else has changed. -/
structure Taken (M : Memlib) (h : Heap) (bs : List Block) (h' : Heap) (bs' : List Block)
    (c s : ℕ) : Prop where
  rep : Rep M h' bs'
  fresh : ∀ s', ¬Used M bs c s'
  used : ∀ c' s', Used M bs' c' s' ↔ Used M bs c' s' ∨ c' = c ∧ s' = s
  kept : Kept M bs h h'

structure Freed (M : Memlib) (h : Heap) (bs : List Block) (h' : Heap) (bs' : List Block)
    (c : ℕ) : Prop where
  rep : Rep M h' bs'
  used : ∀ c' s', Used M bs' c' s' ↔ Used M bs c' s' ∧ c' ≠ c
  kept : Kept M bs' h h'

/-- Enough fuel for a walk over any row that fits into memory. -/
def Memlib.Fuelled (M : Memlib) (fuel : ℕ) : Prop := M.MAX_HEAP ≤ fuel

lemma Layout.fuelled (hL : Layout M h bs) (hfuel : M.Fuelled fuel) : bs.length + 1 < fuel := by
  have hlen := length_le_span hL.pos
  have hspan := hL.span_le
  rw [Memlib.Fuelled] at hfuel
  omega

lemma Layout.aligned_at (hL : Layout M h bs) (hat : At M.firstHdr bs c b) : 8 ∣ c + 4 := by
  obtain ⟨pre, post, rfl, rfl⟩ := hat
  have hpre : 8 ∣ span pre := dvd_span fun b hb => (hL.sized b (by simp [hb])).1
  have := M.aligned
  rw [Memlib.firstHdr]
  omega

lemma not_at_free (hfree : ∀ b ∈ mid, b.alloc = false) (q : ℕ) : ¬At q mid c ⟨s, true⟩ :=
  fun hat => absurd (hfree _ hat.mem) (by simp)

lemma used_append_free (hfree : ∀ b ∈ mid, b.alloc = false) :
    Used M (bs ++ mid) c s ↔ Used M bs c s := by
  simp [Used, at_append, not_at_free hfree]

lemma used_replace (hfree : ∀ b ∈ mid, b.alloc = false) (hspan : span mid' = span mid) :
    Used M (pre ++ mid' ++ post) c s ↔
      Used M (pre ++ mid ++ post) c s ∨ At (M.firstHdr + span pre) mid' c ⟨s, true⟩ := by
  simp only [Used, at_append, span_append, hspan, not_at_free hfree, or_false]
  tauto

lemma kept_of_free (hfree : ∀ b ∈ mid, b.alloc = false)
    (hsame : ∀ q, q < M.firstHdr + span pre ∨ M.firstHdr + span pre + span mid ≤ q →
      h'.mem q = h.mem q) : Kept M (pre ++ mid ++ post) h h' := by
  intro c s hused q hle hlt
  simp only [Used, at_append, span_append, not_at_free hfree, or_false] at hused
  rcases hused with hat | hat
  · have := (block_le hat).2
    simp only at this
    exact hsame q (.inl (by omega))
  · have := hat.le.1
    exact hsame q (.inr (by omega))

lemma Kept.trans {h₂ : Heap} (hk : Kept M bs h h') (hk' : Kept M bs h' h₂) : Kept M bs h h₂ :=
  fun c s hused q hle hlt => (hk' c s hused q hle hlt).trans (hk c s hused q hle hlt)

lemma Kept.mono (hk : Kept M bs h h') (hsub : ∀ c s, Used M bs' c s → Used M bs c s) :
    Kept M bs' h h' :=
  fun c s hused => hk c s (hsub c s hused)

lemma Used.apart {c' s' : ℕ} (hu : Used M bs c s) (hu' : Used M bs c' s') :
    (c = c' ∧ s = s') ∨ c + s ≤ c' ∨ c' + s' ≤ c := by
  rcases At.apart hu hu' with ⟨hc, hs⟩ | hlt | hlt
  · exact .inl ⟨hc, by simpa using hs⟩
  · exact .inr (.inl hlt)
  · exact .inr (.inr hlt)

namespace Rep

variable (hR : Rep M h bs)

include hR

lemma initOnce_eq : initOnce M h = some h := by
  have := hR.layout.listp
  rw [initOnce, if_neg (by omega)]

lemma used_facts (hu : Used M bs c s) :
    8 ∣ c + 4 ∧ 8 ∣ s ∧ 16 ≤ s ∧ M.firstHdr ≤ c ∧ c + s + 4 ≤ h.memBrk := by
  obtain ⟨h8, hge⟩ := hR.layout.proper _ (At.mem hu)
  have hle := block_le hu
  have hbrk := hR.layout.brk
  exact ⟨hR.layout.aligned_at hu, h8, hge, hle.1, by simp only at hle; omega⟩

/-- **Writing between the tags** of a block in use. -/
lemma write (hu : Used M bs c s) {m : Bytes}
    (hsame : ∀ q, q < c + 4 ∨ c + s - 4 ≤ q → m q = h.mem q) : Rep M { h with mem := m } bs := by
  have hge := (hR.used_facts hu).2.2.1
  obtain ⟨hhdr, hftr⟩ := tags_at hR.layout.rowTags hu
  obtain ⟨pre, post, rfl, rfl⟩ := hu
  obtain ⟨hL, hm⟩ := hR
  have hL' : Layout M h (pre ++ [⟨s, true⟩] ++ post) := by simpa using hL
  have hproper : Proper ⟨s, true⟩ := hL.proper _ (by simp)
  have hrep : Layout M { h with mem := m } (pre ++ [⟨s, true⟩] ++ post) := by
    refine hL'.replace rfl rfl (fun q hq => hsame q ?_) ⟨?_, ?_, trivial⟩ rfl
      (by simpa using hproper)
    · simp only [span_block, span_nil] at hq
      omega
    · rw [← hhdr]
      exact word_congr fun q _ hlt => hsame q (.inl hlt)
    · rw [← hftr]
      exact word_congr fun q hle _ => hsame q (.inr hle)
  exact ⟨by simpa using hrep, hm⟩

end Rep

/-! ### The first call -/

structure Fresh (M : Memlib) (h : Heap) : Prop where
  listp : h.heapListp = 0
  brk : h.memBrk = M.memHeap

/-- The padding, the prologue and the epilogue. -/
def emptyHeap (M : Memlib) (h : Heap) : Heap where
  mem := setWord (setWord (setWord (setWord h.mem M.memHeap 0) (M.memHeap + 4) (pack 8 1))
    (M.memHeap + 8) (pack 8 1)) (M.memHeap + 12) (pack 0 1)
  memBrk := M.memHeap + 16
  heapListp := M.memHeap + 8

lemma layout_emptyHeap (M : Memlib) (h : Heap) : Layout M (emptyHeap M h) [] := by
  refine ⟨rfl, ⟨?_, ?_, trivial⟩, ?_, rfl, ?_, by simp⟩
  · rw [emptyHeap, word_setWord_of_apart (.inr (by omega)),
      word_setWord_of_apart (.inr (by omega)), word_setWord_of_lt _ _ (by decide)]
    rfl
  · rw [emptyHeap, show M.memHeap + 4 + prologue.size - 4 = M.memHeap + 8 from rfl,
      word_setWord_of_apart (.inr (by omega)), word_setWord_of_lt _ _ (by decide)]
    rfl
  · rw [emptyHeap, show M.firstHdr + span [] = M.memHeap + 12 from rfl,
      word_setWord_of_lt _ _ (by decide)]
    rfl
  · have := M.enough
    show M.memHeap + 16 ≤ M.memHeap + M.MAX_HEAP
    omega

lemma mmInit_eq (hf : Fresh M h) :
    mmInit M h = (extendHeap M (emptyHeap M h) (CHUNKSIZE / WSIZE)).map fun r =>
      (r.1, if r.2 = NULL then -1 else 0) := by
  have hsbrk : memSbrk M h ((4 * WSIZE : ℕ) : ℤ) = (h.grown 16, M.memHeap) := by
    rw [← hf.brk]
    refine memSbrk_ok ?_
    rw [hf.brk, Memlib.memMaxAddr, show 4 * WSIZE = 16 from rfl]
    have := M.enough
    omega
  have hne : M.memHeap ≠ minusOne := by
    have := M.fits
    rw [minusOne]
    omega
  have hput (m : Bytes) (i v : ℕ) (hi : i ≤ 3) :
      put M ⟨m, M.memHeap + 16, M.memHeap⟩ (M.memHeap + i * WSIZE) v =
        some ⟨setWord m (M.memHeap + i * 4) v, M.memHeap + 16, M.memHeap⟩ :=
    put_eq (Nat.le_add_right _ _) (show M.memHeap + i * 4 + 4 ≤ M.memHeap + 16 by omega) v
  have hfirst : put M ⟨h.mem, M.memHeap + 16, M.memHeap⟩ M.memHeap 0 = _ :=
    hput h.mem 0 0 (by omega)
  have hgrown : h.grown 16 = ⟨h.mem, M.memHeap + 16, h.heapListp⟩ := by rw [← hf.brk]; rfl
  unfold mmInit
  rw [hsbrk, hgrown]
  simp only [hne, if_false, Option.bind_eq_bind, hfirst]
  rw [Option.bind_some, hput _ 1 _ (by omega), Option.bind_some, hput _ 2 _ (by omega),
    Option.bind_some, hput _ 3 _ le_rfl, Option.bind_some]
  change (extendHeap M (emptyHeap M h) (CHUNKSIZE / WSIZE)).bind _ = _
  cases extendHeap M (emptyHeap M h) (CHUNKSIZE / WSIZE) with
  | none => rfl
  | some r =>
    simp only [Option.bind_some, Option.map_some]
    split <;> rfl

/-- **The first call** makes a heap of free memory, also if `mm_init` fails. -/
theorem initOnce_fresh (hf : Fresh M h) :
    ∃ h' bs, initOnce M h = some h' ∧ Rep M h' bs ∧ (∀ b ∈ bs, b.alloc = false) ∧
      (16 + CHUNKSIZE ≤ M.MAX_HEAP → bs ≠ []) := by
  have hL := layout_emptyHeap M h
  have hstart {r : Heap × ℕ} (hr : extendHeap M (emptyHeap M h) (CHUNKSIZE / WSIZE) = some r) :
      initOnce M h = some r.1 := by
    rw [initOnce, if_pos hf.listp, mmInit_eq hf, hr]
    rfl
  rcases extendHeap_spec hL List.isChain_nil (show 8 ∣ CHUNKSIZE by decide) (by decide)
    (by decide) with ⟨hfull, hext⟩ | ⟨-, h', l, mid, hsplit, hext, hL', hm', -, -⟩
  · -- there is no memory for the first chunk
    refine ⟨_, [], hstart hext, ⟨hL, List.isChain_nil⟩, by simp, fun hroom => ?_⟩
    have hbrk : (emptyHeap M h).memBrk = M.memHeap + 16 := rfl
    rw [Memlib.memMaxAddr, hbrk] at hfull
    omega
  · -- the first chunk is one free block
    refine ⟨h', _, hstart hext, ⟨hL', hm'⟩, fun b hb => ?_, by simp⟩
    rcases List.mem_append.mp hb with hb | hb
    · have hmem : b ∈ [⟨CHUNKSIZE, false⟩] := by
        rw [← List.nil_append [_], hsplit]
        exact List.mem_append_left _ hb
      rw [List.mem_singleton.mp hmem]
    · rw [List.mem_singleton.mp hb]

/-! ### `mm_malloc` -/

/-- The block has room for what was asked for and for the two tags. -/
lemma adjust_facts (hlt : size + 16 ≤ 2 ^ 32) :
    8 ∣ adjust size ∧ 16 ≤ adjust size ∧ size + 8 ≤ adjust size ∧ adjust size < 2 ^ 32 := by
  rw [adjust, show DSIZE = 8 from rfl]
  split
  · omega
  · rw [sizeT_of_lt (show size + 8 + (8 - 1) < _ by omega), sizeT_of_lt (by omega)]
    omega

lemma place_taken {cs : ℕ} (hR : Rep M h (pre ++ ⟨cs, false⟩ :: post)) (h8 : 8 ∣ asize)
    (hge : 16 ≤ asize) (hle : asize ≤ cs) :
    ∃ h' s, place M h (M.firstHdr + span pre + 4) asize = some h' ∧ asize ≤ s ∧
      h'.memBrk = h.memBrk ∧ Taken M h (pre ++ ⟨cs, false⟩ :: post) h'
        (pre ++ placed cs asize ++ post) (M.firstHdr + span pre) s := by
  obtain ⟨h', hplace, hL', hsame⟩ := place_spec hR.layout rfl h8 hge hle
  have hspan : span (placed cs asize) = span [(⟨cs, false⟩ : Block)] := by
    rw [placed]
    split
    · simp only [span_block, span_nil]
      omega
    · rfl
  have hbrk : h'.memBrk = h.memBrk := by
    rw [hL'.brk, hR.layout.brk]
    simp [hspan]
  have hkept : Kept M (pre ++ ⟨cs, false⟩ :: post) h h' := by
    have := @kept_of_free M h h' pre [⟨cs, false⟩] post (by simp) (by simpa using hsame)
    simpa using this
  refine ⟨h', if 16 ≤ cs - asize then asize else cs, hplace, ?_, hbrk, ⟨hL', hR.merged.placed⟩,
    fun s' hu => ?_, fun c' s' => ?_, hkept⟩
  · split <;> omega
  · exact absurd (At.unique hR.layout.pos hu (at_mid ..)) (by simp)
  · have := @used_replace M pre [⟨cs, false⟩] (placed cs asize) post c' s' (by simp) hspan
    rw [this, List.append_assoc, List.singleton_append, placed]
    refine or_congr_right ?_
    split
    · simp only [at_cons, not_at_nil, Block.mk.injEq, or_false]
      tauto
    · simp only [at_cons, not_at_nil, Block.mk.injEq, or_false]
      tauto

/-- **A request is served from the first free block that fits**, without growing the heap. -/
lemma mmMalloc_fit (hR : Rep M h bs) (hfuel : M.Fuelled fuel) (hpos : 0 < size)
    (hlt : size + 16 ≤ 2 ^ 32) (hfits : ∃ b ∈ bs, Fits (adjust size) b) :
    ∃ h' bs' c s, mmMalloc M fuel h size = some (h', c + 4) ∧ adjust size ≤ s ∧
      c + 4 = firstFit (adjust size) M.firstHdr bs ∧ h'.memBrk = h.memBrk ∧
      Taken M h bs h' bs' c s := by
  obtain ⟨h8, hge, -⟩ := adjust_facts hlt
  have hfind : findFit M fuel h (adjust size) = _ :=
    findFit_spec hR.layout (hR.layout.fuelled hfuel)
  rcases firstFit_cases (adjust size) M.firstHdr bs with
    ⟨-, hnone⟩ | ⟨pre, ⟨cs, a⟩, post, rfl, haddr, ⟨rfl, hle⟩, -⟩
  · obtain ⟨b, hb, hfit⟩ := hfits
    exact absurd hfit (hnone b hb)
  · obtain ⟨h', s, hplace, hs, hbrk, htaken⟩ := place_taken hR h8 hge hle
    refine ⟨h', _, _, s, ?_, hs, haddr.symm, hbrk, htaken⟩
    rw [haddr] at hfind
    simp [mmMalloc, hR.initOnce_eq, Nat.ne_of_gt hpos, hfind, hplace, NULL]

/-- A request for two gigabytes or more is turned down: as an `int` it is negative. -/
lemma extendHeap_huge (h8 : 8 ∣ size) (hge : 2 ^ 31 ≤ size) (hlt : size < 2 ^ 32) :
    extendHeap M h (size / WSIZE) = some (h, NULL) := by
  have hwords : sizeT (if size / WSIZE % 2 ≠ 0 then (size / WSIZE + 1) * WSIZE
      else size / WSIZE * WSIZE) = size := by
    rw [show WSIZE = 4 from rfl, if_neg (by omega), sizeT_of_lt (by omega)]
    omega
  have hneg : toInt size < 0 := by
    rw [toInt, BitVec.toInt_eq_toNat_bmod, BitVec.toNat_ofNat, Nat.mod_eq_of_lt hlt]
    simp only [Int.bmod]
    omega
  simp only [extendHeap, hwords, memSbrk, hneg, true_or, if_true]
  rfl

lemma extendHeap_taken (hR : Rep M h bs) (h8 : 8 ∣ asize) (hge : 16 ≤ asize) {es : ℕ}
    (hes : 8 ∣ es) (hle : asize ≤ es) (hlt : es < 2 ^ 31)
    (hroom : h.memBrk + es ≤ M.memMaxAddr) :
    ∃ h' h'' bs' c s, extendHeap M h (es / WSIZE) = some (h', c + 4) ∧
      place M h' (c + 4) asize = some h'' ∧ asize ≤ s ∧ h''.memBrk = h.memBrk + es ∧
      Taken M h bs h'' bs' c s := by
  rcases extendHeap_spec hR.layout hR.merged hes (hge.trans hle) hlt with
    ⟨hfull, -⟩ | ⟨-, h', l, mid, hsplit, hext, hL', hm', hfree, hsize, hsame⟩
  · omega
  obtain ⟨h'', s, hplace, hs, hbrk, hrep, hfresh, hused, hkept⟩ :=
    place_taken ⟨hL', hm'⟩ h8 hge (hle.trans hsize)
  have hold (c' s' : ℕ) : Used M bs c' s' ↔ Used M l c' s' := by
    have hes : ∀ b ∈ [Block.mk es false], b.alloc = false := by simp
    rw [← used_append_free hes, hsplit, used_append_free hfree]
  have hgrown (c' s' : ℕ) : Used M (l ++ [⟨span mid, false⟩]) c' s' ↔ Used M bs c' s' := by
    rw [used_append_free (by simp), hold]
  refine ⟨h', h'', _, _, s, hext, hplace, hs, ?_, hrep, fun s' hu => ?_, fun c' s' => ?_, ?_⟩
  · have hspans := congrArg span hsplit
    simp only [span_append, span_block, span_nil] at hspans
    rw [hbrk, hL'.brk, hR.layout.brk]
    simp only [span_append, span_block, span_nil]
    omega
  · exact hfresh s' ((hgrown _ s').mpr hu)
  · rw [hused, hgrown]
  · refine Kept.trans (fun c' s' hu q _ hq => hsame q ?_)
      (hkept.mono fun c' s' => (hgrown c' s').mpr)
    have hle := (block_le ((hold c' s').mp hu)).2
    simp only at hle
    omega

lemma findFit_none (hR : Rep M h bs) (hfuel : M.Fuelled fuel) (hnone : ∀ b ∈ bs, ¬Fits asize b) :
    findFit M fuel h asize = some NULL := by
  rw [findFit_spec hR.layout (hR.layout.fuelled hfuel)]
  rcases firstFit_cases asize M.firstHdr bs with ⟨hnull, -⟩ | ⟨pre, b, post, rfl, -, hfit, -⟩
  · rw [hnull]
  · exact absurd hfit (hnone b (by simp))

lemma dvd_extendsize (h8 : 8 ∣ asize) : 8 ∣ max asize CHUNKSIZE := by
  rcases max_choice asize CHUNKSIZE with hmax | hmax
  · rw [hmax]
    exact h8
  · rw [hmax]
    decide

/-- **A request that no free block fits** makes the heap grow. -/
lemma mmMalloc_grow (hR : Rep M h bs) (hfuel : M.Fuelled fuel) (hpos : 0 < size)
    (hlt : size + 16 ≤ 2 ^ 32) (hnone : ∀ b ∈ bs, ¬Fits (adjust size) b)
    (hroom : h.memBrk + max (adjust size) CHUNKSIZE ≤ M.memMaxAddr) :
    ∃ h' bs' c s, mmMalloc M fuel h size = some (h', c + 4) ∧ adjust size ≤ s ∧
      h'.memBrk = h.memBrk + max (adjust size) CHUNKSIZE ∧ Taken M h bs h' bs' c s := by
  obtain ⟨h8, hge, -⟩ := adjust_facts hlt
  have hes : max (adjust size) CHUNKSIZE < 2 ^ 31 := by
    have hsmall := M.small
    have hbrk := hR.layout.brk
    rw [Memlib.firstHdr] at hbrk
    rw [Memlib.memMaxAddr] at hroom
    omega
  obtain ⟨h', h'', bs', c, s, hext, hplace, hs, hbrk, htaken⟩ :=
    extendHeap_taken hR h8 hge (dvd_extendsize h8) (le_max_left _ _) hes hroom
  refine ⟨h'', bs', c, s, ?_, hs, hbrk, htaken⟩
  simp [mmMalloc, hR.initOnce_eq, Nat.ne_of_gt hpos, findFit_none hR hfuel hnone, hext,
    hplace, NULL]

/-- **A request is turned down** if no free block fits and the heap cannot grow. -/
lemma mmMalloc_full (hR : Rep M h bs) (hfuel : M.Fuelled fuel) (hlt : size + 16 ≤ 2 ^ 32)
    (hnone : ∀ b ∈ bs, ¬Fits (adjust size) b)
    (hfull : M.memMaxAddr < h.memBrk + max (adjust size) CHUNKSIZE) :
    mmMalloc M fuel h size = some (h, NULL) := by
  obtain ⟨h8, hge, -, hlt'⟩ := adjust_facts hlt
  have hext : extendHeap M h (max (adjust size) CHUNKSIZE / WSIZE) = some (h, NULL) := by
    rcases Nat.lt_or_ge (max (adjust size) CHUNKSIZE) (2 ^ 31) with hes | hes
    · rcases extendHeap_spec hR.layout hR.merged (dvd_extendsize h8)
        (hge.trans (le_max_left _ _)) hes with ⟨-, hext⟩ | ⟨hroom, -⟩
      · exact hext
      · omega
    · exact extendHeap_huge (dvd_extendsize h8) hes (max_lt hlt' (by decide))
  have hfind := findFit_none hR hfuel hnone
  by_cases hpos : size = 0
  · simp [mmMalloc, hR.initOnce_eq, hpos]
  · simp [mmMalloc, hR.initOnce_eq, hpos, hfind, hext, NULL]

theorem mmMalloc_spec (hR : Rep M h bs) (hfuel : M.Fuelled fuel) (hlt : size + 16 ≤ 2 ^ 32) :
    mmMalloc M fuel h size = some (h, NULL) ∨
      0 < size ∧ ∃ h' bs' c s, mmMalloc M fuel h size = some (h', c + 4) ∧ adjust size ≤ s ∧
        Taken M h bs h' bs' c s := by
  rcases Nat.eq_zero_or_pos size with rfl | hpos
  · exact .inl (by simp [mmMalloc, hR.initOnce_eq])
  by_cases hfits : ∃ b ∈ bs, Fits (adjust size) b
  · obtain ⟨h', bs', c, s, hmalloc, hs, -, -, htaken⟩ := mmMalloc_fit hR hfuel hpos hlt hfits
    exact .inr ⟨hpos, h', bs', c, s, hmalloc, hs, htaken⟩
  · have hnone : ∀ b ∈ bs, ¬Fits (adjust size) b := fun b hb hfit => hfits ⟨b, hb, hfit⟩
    rcases Nat.lt_or_ge M.memMaxAddr (h.memBrk + max (adjust size) CHUNKSIZE) with hfull | hroom
    · exact .inl (mmMalloc_full hR hfuel hlt hnone hfull)
    · obtain ⟨h', bs', c, s, hmalloc, hs, -, htaken⟩ := mmMalloc_grow hR hfuel hpos hlt hnone hroom
      exact .inr ⟨hpos, h', bs', c, s, hmalloc, hs, htaken⟩

/-! ### Requests that wrap around -/

lemma sizeT_wraps {n : ℕ} (hlo : 2 ^ 64 ≤ n) (hhi : n < 2 ^ 65) : sizeT n = n - 2 ^ 64 := by
  rw [sizeT, Nat.mod_eq_sub_mod hlo, Nat.mod_eq_of_lt (by omega)]

/-- `size + DSIZE + (DSIZE-1)` is too large for a `size_t`. -/
lemma adjust_wraps (hlo : 2 ^ 64 - 15 ≤ size) (hhi : size < 2 ^ 64) :
    adjust size = 0 ∨ adjust size = 8 := by
  have hsum : sizeT (size + 8 + (8 - 1)) = size + 15 - 2 ^ 64 := sizeT_wraps (by omega) (by omega)
  rw [adjust, show DSIZE = 8 from rfl, if_neg (by omega), hsum, sizeT_of_lt (by omega)]
  omega

/-- `place` with a size of zero overwrites the footer of the block in front. -/
lemma place_zero {cs z : ℕ} (hL : Layout M h (pre ++ ⟨cs, false⟩ :: post))
    (hc : c = M.firstHdr + span pre) (hz : z = 0) : ∃ h', place M h (c + 4) z = some h' := by
  have hat : At M.firstHdr (pre ++ ⟨cs, false⟩ :: post) c ⟨cs, false⟩ := hc ▸ at_mid ..
  have hcur : getSize M h c = some cs := hL.getSize_hdr hat
  obtain ⟨h8, hge⟩ := hL.proper _ hat.mem
  have hlt : cs < 2 ^ 31 := hL.size_lt hat.mem
  have hbrk := hL.brk
  have hfirst : M.firstHdr = M.memHeap + 12 := rfl
  simp only [span_append, span_block] at hbrk h8 hge
  have hrest : sizeSub cs z = cs := by
    rw [sizeSub_of_le (by omega) (by omega), hz, Nat.sub_zero]
  have hzero : getSize M (h.set c (Block.tag ⟨z, true⟩)) c = some z :=
    getSize_of_get
      (get_set_tag (b := ⟨z, true⟩) (by omega) (by omega) (by simp [hz]) (by simp [hz]))
      (by simp [hz]) (by simp [hz])
  have hput₁ := put_eq (M := M) (h := h) (q := c) (by omega) (by omega) (Block.tag ⟨z, true⟩)
  have hftr : ftrp M (h.set c (Block.tag ⟨z, true⟩)) (c + 4) = some (c - 4) := by
    rw [ftrp_of_getSize hzero, hz, Nat.add_zero]
  have hput₂ := put_eq (M := M) (h := h.set c (Block.tag ⟨z, true⟩)) (q := c - 4) (by omega)
    (by rw [set_memBrk]; omega) (Block.tag ⟨z, true⟩)
  obtain ⟨h₂, hh₂⟩ : ∃ h₂, h₂ = (h.set c (Block.tag ⟨z, true⟩)).set (c - 4) (Block.tag ⟨z, true⟩) :=
    ⟨_, rfl⟩
  have hnext : nextBlkp M h₂ (c + 4) = some (c + 4) := by
    have hsize : getSize M h₂ c = some z := by
      rw [hh₂, getSize_set_of_apart (.inl (by omega)), hzero]
    rw [nextBlkp_of_getSize hsize, hz, Nat.add_zero]
  obtain ⟨hput₃, hftr₃, hput₄⟩ := put_tags (M := M) (h := h₂) (c := c) (b := ⟨cs, false⟩) (by omega)
    (by rw [hh₂, set_memBrk, set_memBrk]; show c + cs ≤ _; omega) (hL.sized _ hat.mem)
    (show cs < _ by omega)
  refine ⟨h₂.setTags c ⟨cs, false⟩, ?_⟩
  simp [place, hcur, hrest, tag_free, tag_used, hput₁, hftr, hput₂, ← hh₂, hnext, hput₃, hftr₃,
    hput₄, show 2 * DSIZE ≤ cs from hge]

/-- **A request of nearly `2 ^ 64` bytes** is served from the first free block. -/
lemma mmMalloc_wraps (hR : Rep M h bs) (hfuel : M.Fuelled fuel) (hlo : 2 ^ 64 - 15 ≤ size)
    (hhi : size < 2 ^ 64) (hfree : ∃ b ∈ bs, b.alloc = false) :
    ∃ h' c b, mmMalloc M fuel h size = some (h', c + 4) ∧ At M.firstHdr bs c b := by
  have hfind : findFit M fuel h (adjust size) = _ :=
    findFit_spec hR.layout (hR.layout.fuelled hfuel)
  have hsize := adjust_wraps hlo hhi
  rcases firstFit_cases (adjust size) M.firstHdr bs with
    ⟨-, hnone⟩ | ⟨pre, ⟨cs, a⟩, post, rfl, haddr, ⟨rfl, hle⟩, -⟩
  · -- any free block is large enough
    obtain ⟨b, hb, hfree⟩ := hfree
    have hge := (hR.layout.proper b hb).2
    exact absurd ⟨hfree, by omega⟩ (hnone b hb)
  · have hplace : ∃ h', place M h (M.firstHdr + span pre + 4) (adjust size) = some h' := by
      rcases hsize with hsize | hsize
      · exact place_zero hR.layout rfl hsize
      · rw [hsize] at hle ⊢
        by_cases hsplit : 16 ≤ cs - 8
        · exact ⟨_, place_split hR.layout rfl (by decide) le_rfl hsplit⟩
        · exact ⟨_, place_whole hR.layout rfl hle hsplit⟩
    obtain ⟨h', hplace⟩ := hplace
    refine ⟨h', _, _, ?_, at_mid pre ⟨cs, false⟩ post M.firstHdr⟩
    rw [haddr] at hfind
    simp [mmMalloc, hR.initOnce_eq, show size ≠ 0 by omega, hfind, hplace, NULL]

/-! ### `mm_free` -/

lemma used_unmark (hL : Layout M h (pre ++ [⟨s, false⟩] ++ post)) (c' s' : ℕ) :
    Used M (pre ++ [⟨s, false⟩] ++ post) c' s' ↔
      Used M (pre ++ [⟨s, true⟩] ++ post) c' s' ∧ c' ≠ M.firstHdr + span pre := by
  have hfree : At M.firstHdr (pre ++ [⟨s, false⟩] ++ post) (M.firstHdr + span pre) ⟨s, false⟩ := by
    simpa using at_mid pre ⟨s, false⟩ post M.firstHdr
  have hiff := @used_replace M pre [⟨s, false⟩] [⟨s, true⟩] post c' s' (by simp) rfl
  simp only [at_cons, not_at_nil, or_false] at hiff
  rw [hiff]
  constructor
  · intro hu
    refine ⟨.inl hu, ?_⟩
    rintro rfl
    exact absurd (At.unique hL.pos hu hfree) (by simp)
  · rintro ⟨hu | ⟨-, hc⟩, hne⟩
    · exact hu
    · exact absurd hc hne

/-- **`mm_free`** gives the block back and leaves the others alone. -/
theorem mmFree_spec (hR : Rep M h bs) (hu : Used M bs c s) :
    ∃ h' bs', mmFree M h (c + 4) = some h' ∧ Freed M h bs h' bs' c := by
  obtain ⟨-, h8, hge, hfirst, hend⟩ := hR.used_facts hu
  have hsize : getSize M h c = some s := hR.layout.getSize_hdr hu
  have hinit := hR.initOnce_eq
  have hlt : s < 2 ^ 31 := hR.layout.size_lt (At.mem hu)
  have hfirst' : M.firstHdr = M.memHeap + 12 := rfl
  have hsized : Block.Sized ⟨s, false⟩ := ⟨h8, show 8 ≤ s by omega⟩
  obtain ⟨hput₁, hftr, hput₂⟩ := put_tags (M := M) (h := h) (c := c) (b := ⟨s, false⟩) (by omega)
    (show c + s ≤ h.memBrk by omega) hsized (show s < _ by omega)
  obtain ⟨pre, post, rfl, hc⟩ := hu
  obtain ⟨hL, hm⟩ := hR
  obtain ⟨hpre, hcons, -⟩ := List.isChain_append.mp hm
  have hL' : Layout M h (pre ++ [⟨s, true⟩] ++ post) := by simpa using hL
  have hsame (q : ℕ) (hq : q < M.firstHdr + span pre ∨ M.firstHdr + span pre + s ≤ q) :
      (h.setTags c ⟨s, false⟩).mem q = h.mem q :=
    setTags_of_outside hsized (by simp only; omega)
  have hnew : Layout M (h.setTags c ⟨s, false⟩) (pre ++ [⟨s, false⟩] ++ post) := by
    refine hL'.replace rfl rfl (by simpa using hsame) ?_ (by simp) (by simpa using ⟨h8, hge⟩)
    rw [← hc]
    exact tags_setTags hsized (show s < _ by omega)
  -- the neighbours are joined, which touches no block in use
  obtain ⟨h', l, mid, r, hcoal, hC, -, -⟩ := coalesce_spec (by simpa using hnew) hc hpre
    (List.isChain_cons.mp hcons).2
  have hsplit : pre ++ [⟨s, false⟩] ++ post = l ++ mid ++ r := by simpa using hC.split
  have hjoined (c' s' : ℕ) : Used M (l ++ ⟨span mid, false⟩ :: r) c' s' ↔
      Used M (pre ++ [⟨s, false⟩] ++ post) c' s' := by
    have hiff := @used_replace M l mid [⟨span mid, false⟩] r c' s' hC.free (by simp)
    rw [or_iff_left (not_at_free (by simp) _), List.append_assoc, List.singleton_append] at hiff
    rw [hiff, hsplit]
  have hkept₁ : Kept M (pre ++ [⟨s, false⟩] ++ post) h (h.setTags c ⟨s, false⟩) :=
    kept_of_free (by simp) (by simpa using hsame)
  have hkept₂ : Kept M (l ++ mid ++ r) (h.setTags c ⟨s, false⟩) h' := kept_of_free hC.free hC.same
  refine ⟨h', l ++ ⟨span mid, false⟩ :: r, ?_, ⟨hC.layout, hC.merged⟩, fun c' s' => ?_, ?_⟩
  · simp [mmFree, hsize, hinit, tag_free, hput₁, hftr, hput₂, hcoal]
  · rw [hjoined, used_unmark hnew, ← hc]
    simp
  · rw [← hsplit] at hkept₂
    exact (hkept₁.trans hkept₂).mono fun c' s' => (hjoined c' s').mp

/-! ### `mm_realloc` -/

/-- Two blocks in use do not overlap, not even with the tag behind. -/
lemma memcpy_eq {c' s' n : ℕ} (hR : Rep M h bs) (hu : Used M bs c s) (hu' : Used M bs c' s')
    (hne : c' ≠ c) (hn : n ≤ s) (hn' : n + 8 ≤ s') :
    memcpy M h (c' + 4) (c + 4) n = some { h with mem := copyBytes h.mem (c' + 4) (c + 4) n } := by
  obtain ⟨-, -, -, hlo, hhi⟩ := hR.used_facts hu
  obtain ⟨-, -, -, hlo', hhi'⟩ := hR.used_facts hu'
  have hfirst : M.firstHdr = M.memHeap + 12 := rfl
  rw [memcpy, if_pos]
  refine ⟨⟨by omega, by omega⟩, ⟨by omega, by omega⟩, ?_⟩
  rcases hu.apart hu' with ⟨hc, -⟩ | hlt | hlt
  · exact absurd hc.symm hne
  · omega
  · omega

/-- **`mm_realloc`** moves a block: what was between its tags is in the new one as far as it fits,
then the old one is given back. -/
theorem mmRealloc_spec (hR : Rep M h bs) (hfuel : M.Fuelled fuel) (hu : Used M bs c s)
    (hpos : 0 < size) (hlt : size + 16 ≤ 2 ^ 32) :
    mmRealloc M fuel h (c + 4) size = some (h, NULL) ∨
      ∃ h₁ bs₁ c' s' h' bs', mmRealloc M fuel h (c + 4) size = some (h', c' + 4) ∧
        adjust size ≤ s' ∧ Taken M h bs h₁ bs₁ c' s' ∧
        (∀ i, i < size → i + 8 < s → h₁.mem (c' + 4 + i) = h.mem (c + 4 + i)) ∧
        Freed M h₁ bs₁ h' bs' c := by
  have hsize0 : size ≠ 0 := Nat.ne_of_gt hpos
  rcases mmMalloc_spec hR hfuel hlt with hnull | ⟨-, h₁, bs₁, c', s', hmalloc, hs', hT⟩
  · exact .inl (by simp [mmRealloc, hsize0, hnull, NULL])
  obtain ⟨-, -, hroom, -⟩ := adjust_facts hlt
  have hnew : Used M bs₁ c' s' := (hT.used c' s').mpr (.inr ⟨rfl, rfl⟩)
  have hold : Used M bs₁ c s := (hT.used c s).mpr (.inl hu)
  have hne : c' ≠ c := fun hc => hT.fresh s (hc ▸ hu)
  have hget : getSize M h₁ c = some s := hT.rep.layout.getSize_hdr hold
  obtain ⟨n, hn⟩ : ∃ n, n = if size < s then size else s := ⟨_, rfl⟩
  have hn' : n ≤ s ∧ n ≤ size ∧ (n = size ∨ n = s) := by
    rw [hn]
    split <;> omega
  have hcopy := memcpy_eq hT.rep hold hnew hne hn'.1 (by omega)
  -- the copy stays between the tags of the new block
  have hT' : Taken M h bs { h₁ with mem := copyBytes h₁.mem (c' + 4) (c + 4) n } bs₁ c' s' := by
    refine ⟨hT.rep.write hnew fun q hq => if_neg (by omega), hT.fresh, hT.used,
      fun x y hxy q hle hq => ?_⟩
    rw [← hT.kept x y hxy q hle hq]
    refine if_neg ?_
    rcases Used.apart ((hT.used x y).mpr (.inl hxy)) hnew with ⟨rfl, -⟩ | hlt | hlt
    · exact absurd hxy (hT.fresh y)
    · omega
    · omega
  obtain ⟨h', bs', hfree, hF⟩ := mmFree_spec hT'.rep hold
  refine .inr ⟨_, bs₁, c', s', h', bs', ?_, hs', hT', fun i hi his => ?_, hF⟩
  · simp [mmRealloc, hsize0, hmalloc, NULL, hget, ← hn, hcopy, hfree]
  · rw [← hT.kept c s hu (c + 4 + i) (by omega) (by omega)]
    simp only [copyBytes]
    rw [if_pos (by omega), Nat.add_sub_cancel_left]

end Zinzhi.MmAlloc
