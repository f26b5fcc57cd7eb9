import Zinzhi.Clients
import Zinzhi.MmCheck

/-!
Whole runs of the allocator.

A program that uses the allocator knows the blocks it holds and what it has written into them. The
contract of the allocator is told in these terms; `mm.c` keeps it on every run.
-/

namespace Zinzhi.MmAlloc

open Zinzhi.WordMemory Zinzhi.BoundaryTags Zinzhi.Rows Zinzhi.Clients

/-! ### The contract -/

/-- Calls, and the accesses to what they return. -/
inductive Call
  | malloc (size : ℕ)
  | free (ptr : ℕ)
  | realloc (ptr size : ℕ)
  | store (ptr i : ℕ) (v : UInt8)
  | load (ptr i : ℕ)

/-- The blocks that a program holds, by their address, with the bytes it has written. -/
abbrev Live : Type := ℕ → Option (List (Option UInt8))

/-- `n` bytes, those of `xs` as far as there are any. -/
def resize (n : ℕ) (xs : List (Option UInt8)) : List (Option UInt8) :=
  xs.take n ++ List.replicate (n - xs.length) none

/-- A block of `size` bytes that is apart from all others. -/
structure NewBlock (live : Live) (size ptr : ℕ) : Prop where
  ne : ptr ≠ NULL
  aligned : 8 ∣ ptr
  fresh : live ptr = none
  apart : ∀ q ys, live q = some ys → ptr + size ≤ q ∨ q + ys.length ≤ ptr

def contract : Contract Call ℕ Live where
  start := fun _ => none
  legal live
    | .malloc size => size + 16 ≤ 2 ^ 32
    | .free ptr => ptr = NULL ∨ live ptr ≠ none
    | .realloc ptr size => size + 16 ≤ 2 ^ 32 ∧ (ptr = NULL ∨ live ptr ≠ none)
    | .store ptr i _ => ∃ xs, live ptr = some xs ∧ i < xs.length
    | .load ptr i => ∃ xs, live ptr = some xs ∧ i < xs.length
  allowed live
    | .malloc size, r => r = NULL ∨ 0 < size ∧ NewBlock live size r
    | .free _, _ => True
    | .realloc _ size, r => r = NULL ∨ 0 < size ∧ NewBlock live size r
    | .store _ _ _, _ => True
    | .load ptr i, r => ∀ xs v, live ptr = some xs → xs[i]? = some (some v) → r = v.toNat
  after live
    | .malloc size, r =>
      if r = NULL then live else Function.update live r (some (resize size []))
    | .free ptr, _ => Function.update live ptr none
    | .realloc ptr size, r =>
      if size = 0 then Function.update live ptr none
      else if r = NULL then live
      else Function.update (Function.update live ptr none) r
        (some (resize size ((live ptr).getD [])))
    | .store ptr i v, _ => Function.update live ptr ((live ptr).map fun xs => xs.set i (some v))
    | .load _ _, _ => live

/-! ### The program -/

def exec (M : Memlib) (fuel : ℕ) (h : Heap) : Call → Option (Heap × ℕ)
  | .malloc size => mmMalloc M fuel h size
  | .free ptr => (mmFree M h ptr).map fun h => (h, 0)
  | .realloc ptr size => mmRealloc M fuel h ptr size
  | .store ptr i v =>
    if InHeap M h (ptr + i) 1 then some ({ h with mem := Function.update h.mem (ptr + i) v }, 0)
    else none
  | .load ptr i => if InHeap M h (ptr + i) 1 then some (h, (h.mem (ptr + i)).toNat) else none

variable {M : Memlib} {h h' : Heap} {bs bs' : List Block} {live : Live} {c s fuel size ptr i : ℕ}
  {xs : List (Option UInt8)}

/-- Between the tags of the block at `c` are the bytes that have been written. -/
structure Content (h : Heap) (c s : ℕ) (xs : List (Option UInt8)) : Prop where
  room : xs.length + 8 ≤ s
  bytes : ∀ i v, xs[i]? = some (some v) → h.mem (c + 4 + i) = v

/-- The blocks in use are those that the program holds. -/
structure Holds (M : Memlib) (h : Heap) (bs : List Block) (live : Live) : Prop where
  rep : Rep M h bs
  pointer : ∀ p, live p ≠ none → ∃ c s, p = c + 4 ∧ Used M bs c s
  block : ∀ c s, Used M bs c s → ∃ xs, live (c + 4) = some xs ∧ Content h c s xs

lemma Content.congr (hx : Content h c s xs) (hsame : ∀ q, c ≤ q → q < c + s → h'.mem q = h.mem q) :
    Content h' c s xs := by
  refine ⟨hx.room, fun i v hi => ?_⟩
  have hlen := (List.getElem?_eq_some_iff.mp hi).1
  have := hx.room
  rw [hsame _ (by omega) (by omega), hx.bytes i v hi]

lemma length_resize (n : ℕ) (xs : List (Option UInt8)) : (resize n xs).length = n := by
  simp [resize]
  omega

lemma getElem?_resize {n i : ℕ} {v : UInt8} (hi : (resize n xs)[i]? = some (some v)) :
    i < n ∧ xs[i]? = some (some v) := by
  have hlt := (List.getElem?_eq_some_iff.mp hi).1
  rw [length_resize] at hlt
  refine ⟨hlt, ?_⟩
  rw [resize, List.getElem?_append] at hi
  split at hi
  · simpa [hlt] using hi
  · have := List.getElem?_eq_some_iff.mp hi
    simp at this

namespace Holds

variable (hH : Holds M h bs live)

include hH

lemma used_of_live (hxs : live ptr = some xs) :
    ∃ c s, ptr = c + 4 ∧ Used M bs c s ∧ Content h c s xs := by
  obtain ⟨c, s, rfl, hu⟩ := hH.pointer ptr (by simp [hxs])
  obtain ⟨ys, hys, hcontent⟩ := hH.block c s hu
  obtain rfl : ys = xs := by simpa [hxs] using hys.symm
  exact ⟨c, s, rfl, hu, hcontent⟩

lemma live_null : live NULL = none := by
  by_contra hne
  obtain ⟨c, s, hc, -⟩ := hH.pointer NULL hne
  simp [NULL] at hc

lemma newBlock (hT : Taken M h bs h' bs' c s) (hs : size + 8 ≤ s) :
    NewBlock live size (c + 4) := by
  have hu := (hT.used c s).mpr (.inr ⟨rfl, rfl⟩)
  refine ⟨by simp [NULL], (hT.rep.used_facts hu).1, ?_, fun q ys hq => ?_⟩
  · by_contra hne
    obtain ⟨c', s', hc, hu'⟩ := hH.pointer _ hne
    obtain rfl : c = c' := by omega
    exact hT.fresh s' hu'
  · obtain ⟨c', s', rfl, hu', hcontent⟩ := hH.used_of_live hq
    have := hcontent.room
    rcases Used.apart hu ((hT.used c' s').mpr (.inl hu')) with ⟨rfl, -⟩ | hlt | hlt
    · exact absurd hu' (hT.fresh s')
    · omega
    · omega

lemma taken (hT : Taken M h bs h' bs' c s) (hs : xs.length + 8 ≤ s)
    (hbytes : ∀ i v, xs[i]? = some (some v) → h'.mem (c + 4 + i) = v) :
    Holds M h' bs' (Function.update live (c + 4) (some xs)) := by
  refine ⟨hT.rep, fun p hp => ?_, fun c' s' hu => ?_⟩
  · by_cases hpc : p = c + 4
    · exact ⟨c, s, hpc, (hT.used c s).mpr (.inr ⟨rfl, rfl⟩)⟩
    · rw [Function.update_of_ne hpc] at hp
      obtain ⟨c', s', rfl, hu⟩ := hH.pointer p hp
      exact ⟨c', s', rfl, (hT.used c' s').mpr (.inl hu)⟩
  · rcases (hT.used c' s').mp hu with hu' | ⟨rfl, rfl⟩
    · have hne : c' + 4 ≠ c + 4 := fun heq => hT.fresh s' (by
        obtain rfl : c' = c := by omega
        exact hu')
      obtain ⟨ys, hys, hcontent⟩ := hH.block c' s' hu'
      exact ⟨ys, by rw [Function.update_of_ne hne, hys], hcontent.congr (hT.kept c' s' hu')⟩
    · exact ⟨xs, Function.update_self .., hs, hbytes⟩

lemma freed (hF : Freed M h bs h' bs' c) : Holds M h' bs' (Function.update live (c + 4) none) := by
  refine ⟨hF.rep, fun p hp => ?_, fun c' s' hu => ?_⟩
  · by_cases hpc : p = c + 4
    · simp [hpc] at hp
    · rw [Function.update_of_ne hpc] at hp
      obtain ⟨c', s', rfl, hu⟩ := hH.pointer p hp
      exact ⟨c', s', rfl, (hF.used c' s').mpr ⟨hu, by omega⟩⟩
  · obtain ⟨hu', hne⟩ := (hF.used c' s').mp hu
    obtain ⟨ys, hys, hcontent⟩ := hH.block c' s' hu'
    exact ⟨ys, by rw [Function.update_of_ne (by omega), hys], hcontent.congr (hF.kept c' s' hu)⟩

lemma stored (hxs : live ptr = some xs) (hi : i < xs.length) (v : UInt8) :
    InHeap M h (ptr + i) 1 ∧ Holds M { h with mem := Function.update h.mem (ptr + i) v } bs
      (Function.update live ptr (some (xs.set i (some v)))) := by
  obtain ⟨c, s, rfl, hu, hcontent⟩ := hH.used_of_live hxs
  obtain ⟨-, -, -, hlo, hhi⟩ := hH.rep.used_facts hu
  have hroom := hcontent.room
  have hfirst : M.firstHdr = M.memHeap + 12 := rfl
  refine ⟨⟨by omega, by omega⟩, ?_, fun p hp => ?_, fun c' s' hu' => ?_⟩
  · exact hH.rep.write hu fun q hq => Function.update_of_ne (by omega) ..
  · by_cases hpc : p = c + 4
    · exact ⟨c, s, hpc, hu⟩
    · rw [Function.update_of_ne hpc] at hp
      exact hH.pointer p hp
  · obtain ⟨ys, hys, hcontent'⟩ := hH.block c' s' hu'
    rcases Used.apart hu hu' with ⟨rfl, rfl⟩ | hapart
    · -- the block that is written to
      refine ⟨_, Function.update_self .., by simpa using hroom, fun j w hj => ?_⟩
      rw [List.getElem?_set] at hj
      split at hj
      · next hij =>
        subst hij
        simpa using hj
      · exact (Function.update_of_ne (by omega) ..).trans (hcontent.bytes j w hj)
    · -- another one
      have := (hH.rep.used_facts hu').2.2.1
      refine ⟨ys, by rw [Function.update_of_ne (by omega), hys], hcontent'.congr fun q hle hq => ?_⟩
      exact Function.update_of_ne (by omega) ..

lemma loaded (hxs : live ptr = some xs) (hi : i < xs.length) :
    InHeap M h (ptr + i) 1 ∧ ∀ v, xs[i]? = some (some v) → h.mem (ptr + i) = v := by
  obtain ⟨c, s, rfl, hu, hcontent⟩ := hH.used_of_live hxs
  obtain ⟨-, -, -, hlo, hhi⟩ := hH.rep.used_facts hu
  have hroom := hcontent.room
  have hfirst : M.firstHdr = M.memHeap + 12 := rfl
  exact ⟨⟨by omega, by omega⟩, fun v hv => hcontent.bytes i v hv⟩

end Holds

/-! ### One call -/

/-- Before the first call that sets the heap up, nothing is held. -/
def Tied (M : Memlib) (h : Heap) (live : Live) : Prop :=
  (Fresh M h ∧ live = contract.start) ∨ ∃ bs, Holds M h bs live

lemma Tied.init (ht : Tied M h live) : ∃ h₀ bs, Holds M h₀ bs live ∧
    ∀ size, mmMalloc M fuel h size = mmMalloc M fuel h₀ size := by
  rcases ht with ⟨hf, rfl⟩ | ⟨bs, hH⟩
  · obtain ⟨h₀, bs, hinit, hR, hfree, -⟩ := initOnce_fresh hf
    refine ⟨h₀, bs, ⟨hR, fun p hp => absurd rfl hp, fun c s hu => absurd hu (not_at_free hfree _)⟩,
      fun size => ?_⟩
    simp [mmMalloc, hinit, hR.initOnce_eq]
  · exact ⟨h, bs, hH, fun _ => rfl⟩

lemma malloc_step (hfuel : M.Fuelled fuel) (ht : Tied M h live) (hlt : size + 16 ≤ 2 ^ 32) :
    ∃ h' r, mmMalloc M fuel h size = some (h', r) ∧ contract.allowed live (.malloc size) r ∧
      Tied M h' (contract.after live (.malloc size) r) := by
  obtain ⟨h₀, bs, hH, hmalloc₀⟩ : ∃ h₀ bs, Holds M h₀ bs live ∧
      ∀ size, mmMalloc M fuel h size = mmMalloc M fuel h₀ size := ht.init
  rw [hmalloc₀]
  rcases mmMalloc_spec hH.rep hfuel hlt with hnull | ⟨hpos, h', bs', c, s, hmalloc, hs, hT⟩
  · exact ⟨h₀, NULL, hnull, .inl rfl, .inr ⟨bs, hH⟩⟩
  · have hroom := (adjust_facts hlt).2.2.1
    refine ⟨h', c + 4, hmalloc, .inr ⟨hpos, hH.newBlock hT (by omega)⟩, .inr ⟨bs', ?_⟩⟩
    refine hH.taken hT (by rw [length_resize]; omega) fun i v hi => ?_
    simpa using (getElem?_resize hi).2

lemma Tied.live_null (ht : Tied M h live) : live NULL = none := by
  rcases ht with ⟨-, rfl⟩ | ⟨bs, hH⟩
  · rfl
  · exact hH.live_null

lemma Tied.used (ht : Tied M h live) (hp : live ptr ≠ none) :
    ∃ bs c s, Holds M h bs live ∧ ptr = c + 4 ∧ Used M bs c s := by
  rcases ht with ⟨-, rfl⟩ | ⟨bs, hH⟩
  · exact absurd rfl hp
  · obtain ⟨c, s, hc, hu⟩ := hH.pointer ptr hp
    exact ⟨bs, c, s, hH, hc, hu⟩

lemma free_step (ht : Tied M h live) (hlegal : ptr = NULL ∨ live ptr ≠ none) :
    ∃ h', mmFree M h ptr = some h' ∧ Tied M h' (Function.update live ptr none) := by
  by_cases hnull : ptr = NULL
  · subst hnull
    refine ⟨h, by simp [mmFree, NULL], ?_⟩
    rwa [Function.update_eq_self_iff.mpr ht.live_null.symm]
  · obtain ⟨bs, c, s, hH, rfl, hu⟩ := ht.used (hlegal.resolve_left hnull)
    obtain ⟨h', bs', hfree, hF⟩ := mmFree_spec hH.rep hu
    exact ⟨h', hfree, .inr ⟨bs', hH.freed hF⟩⟩

lemma realloc_step (hfuel : M.Fuelled fuel) (ht : Tied M h live) (hlt : size + 16 ≤ 2 ^ 32)
    (hlegal : ptr = NULL ∨ live ptr ≠ none) :
    ∃ h' r, mmRealloc M fuel h ptr size = some (h', r) ∧
      contract.allowed live (.realloc ptr size) r ∧
      Tied M h' (contract.after live (.realloc ptr size) r) := by
  rcases Nat.eq_zero_or_pos size with rfl | hpos
  · -- a request for nothing is `mm_free`
    obtain ⟨h', hfree, ht'⟩ := free_step ht hlegal
    exact ⟨h', NULL, by simp [mmRealloc, hfree], .inl rfl, by simpa [contract] using ht'⟩
  have hsize0 : size ≠ 0 := Nat.ne_of_gt hpos
  by_cases hnull : ptr = NULL
  · -- without a block it is `mm_malloc`
    subst hnull
    obtain ⟨h', r, hmalloc, hallowed, ht'⟩ := malloc_step hfuel ht hlt
    refine ⟨h', r, by simp [mmRealloc, hsize0, hmalloc], hallowed, ?_⟩
    have hnone := ht.live_null
    have hsame : Function.update live NULL none = live := Function.update_eq_self_iff.mpr hnone.symm
    simpa [contract, hsize0, hnone, hsame] using ht'
  · -- the block is moved
    obtain ⟨bs, c, s, hH, rfl, hu⟩ := ht.used (hlegal.resolve_left hnull)
    rcases mmRealloc_spec hH.rep hfuel hu hpos hlt with
      hnone | ⟨h₁, bs₁, c', s', h', bs', hrealloc, hs', hT, hcopied, hF⟩
    · exact ⟨h, NULL, hnone, .inl rfl, by simpa [contract, hsize0] using ht⟩
    have hroom := (adjust_facts hlt).2.2.1
    obtain ⟨xs, hxs, hcontent⟩ := hH.block c s hu
    refine ⟨h', c' + 4, hrealloc, .inr ⟨hpos, hH.newBlock hT (by omega)⟩, .inr ⟨bs', ?_⟩⟩
    have hH₁ : Holds M h₁ bs₁ (Function.update live (c' + 4) (some (resize size xs))) := by
      refine hH.taken hT (by rw [length_resize]; omega) fun i v hi => ?_
      obtain ⟨hlt', hi'⟩ := getElem?_resize hi
      have hlen := (List.getElem?_eq_some_iff.mp hi').1
      have hle := hcontent.room
      rw [hcopied i hlt' (by omega), hcontent.bytes i v hi']
    have hne : c + 4 ≠ c' + 4 := fun heq => hT.fresh s (by
      obtain rfl : c = c' := by omega
      exact hu)
    have hH' := hH₁.freed hF
    rw [Function.update_comm hne.symm] at hH'
    simpa [contract, hsize0, hxs, NULL] using hH'

/-- **Every legal call keeps the contract.** -/
theorem exec_simulates (hfuel : M.Fuelled fuel) : Simulates contract (exec M fuel) (Tied M) := by
  intro h live call ht hlegal
  cases call with
  | malloc size => exact malloc_step hfuel ht hlegal
  | free ptr =>
    obtain ⟨h', hfree, ht'⟩ := free_step ht hlegal
    exact ⟨h', 0, by simp [exec, hfree], trivial, ht'⟩
  | realloc ptr size => exact realloc_step hfuel ht hlegal.1 hlegal.2
  | store ptr i v =>
    obtain ⟨xs, hxs, hi⟩ := hlegal
    obtain ⟨bs, c, s, hH, -, -⟩ := ht.used (show live ptr ≠ none by simp [hxs])
    obtain ⟨hin, hH'⟩ := hH.stored hxs hi v
    refine ⟨_, 0, by rw [exec, if_pos hin], trivial, .inr ⟨bs, ?_⟩⟩
    simpa [contract, hxs] using hH'
  | load ptr i =>
    obtain ⟨xs, hxs, hi⟩ := hlegal
    obtain ⟨bs, c, s, hH, -, -⟩ := ht.used (show live ptr ≠ none by simp [hxs])
    obtain ⟨hin, hbyte⟩ := hH.loaded hxs hi
    refine ⟨h, _, by rw [exec, if_pos hin], fun ys v hys hv => ?_, ht⟩
    obtain rfl : xs = ys := by simpa [hxs] using hys
    rw [hbyte v hv]

/-! ### Runs -/

/-- A program that takes a block and gives it back, over and over. -/
def takeAndReturn : List ℕ → Call
  | [] => .malloc 100
  | r :: rs => if rs.length % 2 = 0 then .free r else .malloc 100

lemma takeAndReturn_even {rs : List ℕ} (heven : rs.length % 2 = 0) :
    takeAndReturn rs = .malloc 100 := by
  cases rs with
  | nil => rfl
  | cons r rs =>
    rw [List.length_cons] at heven
    rw [takeAndReturn, if_neg (by omega)]

lemma takeAndReturn_obeys : Obeys contract takeAndReturn := by
  intro rs htrace
  cases rs with
  | nil => exact show 100 + 16 ≤ 2 ^ 32 by decide
  | cons r rs =>
    by_cases heven : rs.length % 2 = 0
    · rw [takeAndReturn, if_pos heven, known, takeAndReturn_even heven]
      by_cases hnull : r = NULL
      · exact .inl hnull
      · exact .inr (by simp [contract, hnull])
    · rw [takeAndReturn, if_neg heven]
      exact show 100 + 16 ≤ 2 ^ 32 by decide

/-- A memory system of 20 MB. -/
def memlib : Memlib where
  memHeap := 4096
  MAX_HEAP := 20 * 2 ^ 20
  aligned := by decide
  pos := by decide
  enough := by decide
  small := by decide
  fits := by decide

def startHeap : Heap := ⟨fun _ => 0, 4096, 0⟩

lemma startHeap_fresh : Fresh memlib startHeap := ⟨rfl, rfl⟩

lemma takeAndReturn_two : ∃ h', play (exec memlib (20 * 2 ^ 20)) takeAndReturn startHeap 2 =
    some (h', [0, 4112]) ∧ h'.memBrk = 8208 ∧ h'.heapListp = 4104 := by
  have hrun : (play (exec memlib (20 * 2 ^ 20)) takeAndReturn startHeap 2).map
      (fun r => (r.2, r.1.memBrk, r.1.heapListp)) = some ([0, 4112], 8208, 4104) := by
    decide +kernel
  obtain ⟨⟨h', rs⟩, hplay, hrs⟩ := Option.map_eq_some_iff.mp hrun
  obtain ⟨rfl, hbrk, hlistp⟩ : rs = [0, 4112] ∧ h'.memBrk = 8208 ∧ h'.heapListp = 4104 := by
    simpa using hrs
  exact ⟨h', hplay, hbrk, hlistp⟩

section Runs

variable {client : List ℕ → Call} {n : ℕ} {rs : List ℕ}

lemma play_tied (hfuel : M.Fuelled fuel) (hf : Fresh M h) (hobeys : Obeys contract client)
    (hplay : play (exec M fuel) client h n = some (h', rs)) :
    Tied M h' (known contract client rs) := by
  obtain ⟨h₁, rs₁, hplay₁, -, -, ht⟩ :=
    play_simulates (exec_simulates hfuel) (.inl ⟨hf, rfl⟩) hobeys n
  obtain ⟨rfl, rfl⟩ : h₁ = h' ∧ rs₁ = rs := by simpa [hplay₁] using hplay
  exact ht

/-- **The allocator keeps its contract on every run.** -/
theorem mm_keeps_contract (hfuel : M.Fuelled fuel) (hf : Fresh M h)
    (hobeys : Obeys contract client) (n : ℕ) :
    ∃ h' rs, play (exec M fuel) client h n = some (h', rs) ∧ rs.length = n ∧
      Trace contract client rs := by
  obtain ⟨h', rs, hplay, hlen, htrace, -⟩ :=
    play_simulates (exec_simulates hfuel) (.inl ⟨hf, rfl⟩) hobeys n
  exact ⟨h', rs, hplay, hlen, htrace⟩

theorem takeAndReturn_runs :
    ∃ h' rs, play (exec memlib (20 * 2 ^ 20)) takeAndReturn startHeap 1000 = some (h', rs) ∧
      rs.length = 1000 ∧ Trace contract takeAndReturn rs :=
  mm_keeps_contract (Nat.le_refl _) startHeap_fresh takeAndReturn_obeys 1000

/-- **On every run the heap is a row of blocks**, those in use are the ones that the program holds,
no two free ones are neighbours, and the checker finds nothing wrong. -/
theorem mm_heap_consistent (hfuel : M.Fuelled fuel) (hf : Fresh M h)
    (hobeys : Obeys contract client) (n : ℕ) :
    ∃ h' rs, play (exec M fuel) client h n = some (h', rs) ∧
      (Fresh M h' ∨ ∃ bs, Layout M h' bs ∧ Merged bs ∧
        (∀ p, known contract client rs p ≠ none ↔ ∃ c s, p = c + 4 ∧ Used M bs c s) ∧
        ∀ verbose, checkheap M fuel h' verbose = some (if verbose then
          [⟨"Heap (%p):\n", [h'.heapListp]⟩, ⟨"%p: EOL\n", [h'.memBrk]⟩] else [])) := by
  obtain ⟨h', rs, hplay, -, -, ht⟩ :=
    play_simulates (exec_simulates hfuel) (.inl ⟨hf, rfl⟩) hobeys n
  refine ⟨h', rs, hplay, ?_⟩
  rcases ht with ⟨hf', -⟩ | ⟨bs, hH⟩
  · exact .inl hf'
  refine .inr ⟨bs, hH.rep.layout, hH.rep.merged, fun p => ⟨hH.pointer p, ?_⟩,
    checkheap_eq hH.rep.layout hfuel⟩
  rintro ⟨c, s, rfl, hu⟩
  obtain ⟨xs, hxs, -⟩ := hH.block c s hu
  simp [hxs]

theorem takeAndReturn_consistent :
    ∃ h' rs, play (exec memlib (20 * 2 ^ 20)) takeAndReturn startHeap 3 = some (h', rs) ∧
      (Fresh memlib h' ∨ ∃ bs, Layout memlib h' bs ∧ Merged bs ∧
        (∀ p, known contract takeAndReturn rs p ≠ none ↔ ∃ c s, p = c + 4 ∧ Used memlib bs c s) ∧
        ∀ verbose, checkheap memlib (20 * 2 ^ 20) h' verbose = some (if verbose then
          [⟨"Heap (%p):\n", [h'.heapListp]⟩, ⟨"%p: EOL\n", [h'.memBrk]⟩] else [])) :=
  mm_heap_consistent (Nat.le_refl _) startHeap_fresh takeAndReturn_obeys 3

lemma Merged.eq_singleton (hm : Merged bs) (hfree : ∀ b ∈ bs, b.alloc = false) (hne : bs ≠ []) :
    bs = [⟨span bs, false⟩] := by
  match bs, hne with
  | [⟨s, a⟩], _ =>
    obtain rfl : a = false := hfree ⟨s, a⟩ (List.mem_singleton_self _)
    simp
  | a :: b :: bs, _ =>
    have ha := hfree a (by simp)
    have hb := hfree b (by simp)
    simpa [ha, hb] using (List.isChain_cons_cons.mp hm).1

/-- **Nothing is lost.** When the program has given everything back, the whole heap is one free
block again: a request that fits into the heap gets its first bytes, and the heap does not grow. -/
theorem mm_reuses_all (hfuel : M.Fuelled fuel) (hf : Fresh M h) (hobeys : Obeys contract client)
    (hplay : play (exec M fuel) client h n = some (h', rs))
    (hnone : ∀ p, known contract client rs p = none) (hpos : 0 < size)
    (hlt : size + 16 ≤ 2 ^ 32) (hroom : M.firstHdr + adjust size + 4 ≤ h'.memBrk) :
    ∃ h'', mmMalloc M fuel h' size = some (h'', M.firstHdr + 4) ∧ h''.memBrk = h'.memBrk := by
  have hfirst : M.firstHdr = M.memHeap + 12 := rfl
  rcases play_tied hfuel hf hobeys hplay with ⟨hf', -⟩ | ⟨bs, hH⟩
  · have := hf'.brk
    omega
  have hfree : ∀ b ∈ bs, b.alloc = false := by
    rintro ⟨s, a⟩ hb
    cases a with
    | false => rfl
    | true =>
      obtain ⟨c, hat⟩ := exists_at hb M.firstHdr
      obtain ⟨xs, hxs, -⟩ := hH.block c s hat
      simp [hnone] at hxs
  have hspan : adjust size ≤ span bs := by
    have := hH.rep.layout.brk
    omega
  have hne : bs ≠ [] := by
    rintro rfl
    have := (adjust_facts hlt).2.1
    rw [span_nil] at hspan
    omega
  have hone := hH.rep.merged.eq_singleton hfree hne
  have hfits : Fits (adjust size) ⟨span bs, false⟩ := ⟨rfl, hspan⟩
  obtain ⟨h'', bs', c, s, hmalloc, -, haddr, hbrk, -⟩ := mmMalloc_fit hH.rep hfuel hpos hlt
    ⟨_, by rw [hone]; exact List.mem_singleton_self _, hfits⟩
  refine ⟨h'', ?_, hbrk⟩
  rw [hmalloc, haddr, hone, firstFit, if_pos (by simpa using hfits)]

theorem takeAndReturn_reuses :
    ∃ h' rs h'', play (exec memlib (20 * 2 ^ 20)) takeAndReturn startHeap 2 = some (h', rs) ∧
      mmMalloc memlib (20 * 2 ^ 20) h' 4000 = some (h'', memlib.firstHdr + 4) ∧
      h''.memBrk = h'.memBrk := by
  obtain ⟨h', hplay, hbrk, -⟩ := takeAndReturn_two
  have hnone (p : ℕ) : known contract takeAndReturn [0, 4112] p = none := by
    simp [known, takeAndReturn, contract, NULL]
  obtain ⟨h'', hmalloc⟩ := mm_reuses_all (Nat.le_refl _) startHeap_fresh takeAndReturn_obeys hplay
    hnone (show 0 < 4000 by decide) (by decide) (by rw [hbrk]; decide)
  exact ⟨h', _, h'', hplay, hmalloc⟩

/-- **When a request is turned down**: no free block fits, and the heap cannot grow any more. If a
free block fits, the first one is used. -/
theorem mmMalloc_null_iff (hfuel : M.Fuelled fuel) (hf : Fresh M h) (hobeys : Obeys contract client)
    (hplay : play (exec M fuel) client h n = some (h', rs)) (hset : h'.heapListp ≠ 0) :
    ∃ bs, Layout M h' bs ∧ ∀ size, 0 < size → size + 16 ≤ 2 ^ 32 →
      ((∃ h'', mmMalloc M fuel h' size = some (h'', NULL)) ↔
        (∀ b ∈ bs, ¬Fits (adjust size) b) ∧
          M.memMaxAddr < h'.memBrk + max (adjust size) CHUNKSIZE) ∧
      ((∃ b ∈ bs, Fits (adjust size) b) →
        ∃ h'', mmMalloc M fuel h' size = some (h'', firstFit (adjust size) M.firstHdr bs) ∧
          h''.memBrk = h'.memBrk) := by
  rcases play_tied hfuel hf hobeys hplay with ⟨hf', -⟩ | ⟨bs, hH⟩
  · exact absurd hf'.listp hset
  have hne (c : ℕ) : c + 4 ≠ NULL := by simp [NULL]
  refine ⟨bs, hH.rep.layout, fun size hpos hlt => ⟨⟨?_, ?_⟩, fun hfits => ?_⟩⟩
  · rintro ⟨h'', hnull⟩
    have hnone : ∀ b ∈ bs, ¬Fits (adjust size) b := fun b hb hfit => by
      obtain ⟨h₁, bs', c, s, hmalloc, -⟩ := mmMalloc_fit hH.rep hfuel hpos hlt ⟨b, hb, hfit⟩
      simp [hmalloc, NULL] at hnull
    refine ⟨hnone, Nat.lt_of_not_le fun hroom => ?_⟩
    obtain ⟨h₁, bs', c, s, hmalloc, -⟩ := mmMalloc_grow hH.rep hfuel hpos hlt hnone hroom
    simp [hmalloc, NULL] at hnull
  · rintro ⟨hnone, hfull⟩
    exact ⟨h', mmMalloc_full hH.rep hfuel hlt hnone hfull⟩
  · obtain ⟨h₁, bs', c, s, hmalloc, -, haddr, hbrk, -⟩ := mmMalloc_fit hH.rep hfuel hpos hlt hfits
    exact ⟨h₁, by rw [hmalloc, haddr], hbrk⟩

theorem takeAndReturn_null_iff :
    ∃ h' rs bs, play (exec memlib (20 * 2 ^ 20)) takeAndReturn startHeap 2 = some (h', rs) ∧
      Layout memlib h' bs ∧ ∀ size, 0 < size → size + 16 ≤ 2 ^ 32 →
      ((∃ h'', mmMalloc memlib (20 * 2 ^ 20) h' size = some (h'', NULL)) ↔
        (∀ b ∈ bs, ¬Fits (adjust size) b) ∧
          memlib.memMaxAddr < h'.memBrk + max (adjust size) CHUNKSIZE) ∧
      ((∃ b ∈ bs, Fits (adjust size) b) →
        ∃ h'', mmMalloc memlib (20 * 2 ^ 20) h' size =
            some (h'', firstFit (adjust size) memlib.firstHdr bs) ∧ h''.memBrk = h'.memBrk) := by
  obtain ⟨h', hplay, -, hlistp⟩ := takeAndReturn_two
  obtain ⟨bs, hbs⟩ := mmMalloc_null_iff (Nat.le_refl _) startHeap_fresh takeAndReturn_obeys hplay
    (by rw [hlistp]; decide)
  exact ⟨h', _, bs, hplay, hbs⟩

end Runs

/-- **A request of nearly `2 ^ 64` bytes is not turned down**: the sum that rounds it up wraps
around. -/
theorem mmMalloc_first_wraps (hfuel : M.Fuelled fuel) (hf : Fresh M h)
    (hroom : 16 + CHUNKSIZE ≤ M.MAX_HEAP) (hlo : 2 ^ 64 - 15 ≤ size) (hhi : size < 2 ^ 64) :
    ∃ h' ptr, mmMalloc M fuel h size = some (h', ptr) ∧ ptr ≠ NULL ∧ M.memMaxAddr < ptr + size := by
  obtain ⟨h₀, bs, hinit, hR, hfree, hne⟩ := initOnce_fresh hf
  obtain ⟨b, hb⟩ := List.exists_mem_of_ne_nil bs (hne hroom)
  obtain ⟨h', c, b, hmalloc, hat⟩ := mmMalloc_wraps hR hfuel hlo hhi ⟨b, hb, hfree b hb⟩
  refine ⟨h', c + 4, ?_, by simp [NULL], ?_⟩
  · rw [← hmalloc]
    simp [mmMalloc, hinit, hR.initOnce_eq]
  · have hle := hat.le.1
    have hsmall := M.small
    rw [Memlib.firstHdr] at hle
    rw [Memlib.memMaxAddr]
    omega

theorem mmMalloc_wraps_at_start :
    ∃ h' ptr, mmMalloc memlib (20 * 2 ^ 20) startHeap (2 ^ 64 - 1) = some (h', ptr) ∧ ptr ≠ NULL ∧
      memlib.memMaxAddr < ptr + (2 ^ 64 - 1) :=
  mmMalloc_first_wraps (Nat.le_refl _) startHeap_fresh (by decide) (by decide) (by decide)

end Zinzhi.MmAlloc
