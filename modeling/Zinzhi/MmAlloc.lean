import Zinzhi.BoundaryTags
import Mathlib.Data.Int.Notation

/-!
`mm.c`, an allocator with an implicit free list, first fit and boundary tags, on the simulated
memory of `memlib.c`.

Reading or writing outside the heap has no result. Sizes are computed modulo `2 ^ 64`, a word
keeps 32 bits of what is put into it, and `mem_sbrk` gets its argument as an `int`. The loop of
`find_fit` is given fuel. `MAX_HEAP` and the address that `Malloc` returns in `mem_init` are
parameters.
-/

namespace Zinzhi.MmAlloc

open Zinzhi.WordMemory Zinzhi.BoundaryTags

/-! ### The memory system -/

/-- What `mem_init` sets up. -/
structure Memlib where
  memHeap : ℕ
  MAX_HEAP : ℕ
  aligned : 8 ∣ memHeap
  pos : 0 < memHeap
  enough : 16 ≤ MAX_HEAP
  small : MAX_HEAP < 2 ^ 31
  fits : memHeap + MAX_HEAP < 2 ^ 64 - 1

def Memlib.memMaxAddr (M : Memlib) : ℕ := M.memHeap + M.MAX_HEAP

structure Heap where
  mem : Bytes
  memBrk : ℕ
  heapListp : ℕ

/-- `(void *)-1` -/
def minusOne : ℕ := 2 ^ 64 - 1

def NULL : ℕ := 0

/-- The value of a computation in `size_t`. -/
def sizeT (n : ℕ) : ℕ := n % 2 ^ 64

/-- The value of a computation in `unsigned int`. -/
def unsignedInt (n : ℕ) : ℕ := n % 2 ^ 32

def sizeSub (a b : ℕ) : ℕ := sizeT (a + (2 ^ 64 - b))

/-- The conversion of a `size_t` to an `int`. -/
def toInt (n : ℕ) : ℤ := (BitVec.ofNat 32 n).toInt

variable (M : Memlib)

def memSbrk (h : Heap) (incr : ℤ) : Heap × ℕ :=
  if incr < 0 ∨ h.memBrk + incr > M.memMaxAddr then (h, minusOne)
  else ({ h with memBrk := (h.memBrk + incr).toNat }, h.memBrk)

/-- The `n` bytes from `p` on are part of the heap. -/
def InHeap (h : Heap) (p n : ℕ) : Prop := M.memHeap ≤ p ∧ p + n ≤ h.memBrk

instance (h : Heap) (p n : ℕ) : Decidable (InHeap M h p n) := inferInstanceAs (Decidable (_ ∧ _))

/-! ### Macros -/

abbrev WSIZE : ℕ := 4
abbrev DSIZE : ℕ := 8
abbrev CHUNKSIZE : ℕ := 2 ^ 12

def get (h : Heap) (p : ℕ) : Option ℕ := if InHeap M h p WSIZE then some (word h.mem p) else none

def Heap.set (h : Heap) (p val : ℕ) : Heap := { h with mem := setWord h.mem p val }

def put (h : Heap) (p val : ℕ) : Option Heap :=
  if InHeap M h p WSIZE then some (h.set p val) else none

def getSize (h : Heap) (p : ℕ) : Option ℕ := (get M h p).map sizeBits

def getAlloc (h : Heap) (p : ℕ) : Option ℕ := (get M h p).map flagBit

def hdrp (bp : ℕ) : ℕ := bp - WSIZE

def ftrp (h : Heap) (bp : ℕ) : Option ℕ := (getSize M h (hdrp bp)).map fun s => bp + s - DSIZE

def nextBlkp (h : Heap) (bp : ℕ) : Option ℕ := (getSize M h (bp - WSIZE)).map fun s => bp + s

def prevBlkp (h : Heap) (bp : ℕ) : Option ℕ := (getSize M h (bp - DSIZE)).map fun s => bp - s

/-! ### The functions -/

def coalesce (h : Heap) (bp : ℕ) : Option (Heap × ℕ) := do
  let prevAlloc ← getAlloc M h (← ftrp M h (← prevBlkp M h bp))
  let nextAlloc ← getAlloc M h (hdrp (← nextBlkp M h bp))
  let size ← getSize M h (hdrp bp)
  if prevAlloc ≠ 0 ∧ nextAlloc ≠ 0 then
    return (h, bp)
  else if prevAlloc ≠ 0 ∧ nextAlloc = 0 then
    let size := sizeT (size + (← getSize M h (hdrp (← nextBlkp M h bp))))
    let h ← put M h (hdrp bp) (pack size 0)
    let h ← put M h (← ftrp M h bp) (pack size 0)
    return (h, bp)
  else if prevAlloc = 0 ∧ nextAlloc ≠ 0 then
    let size := sizeT (size + (← getSize M h (hdrp (← prevBlkp M h bp))))
    let h ← put M h (← ftrp M h bp) (pack size 0)
    let h ← put M h (hdrp (← prevBlkp M h bp)) (pack size 0)
    return (h, ← prevBlkp M h bp)
  else
    -- `GET_SIZE` is an `unsigned int`, and so is the sum of two
    let size := sizeT (size + unsignedInt ((← getSize M h (hdrp (← prevBlkp M h bp))) +
      (← getSize M h (← ftrp M h (← nextBlkp M h bp)))))
    let h ← put M h (hdrp (← prevBlkp M h bp)) (pack size 0)
    let h ← put M h (← ftrp M h (← nextBlkp M h bp)) (pack size 0)
    return (h, ← prevBlkp M h bp)

def extendHeap (h : Heap) (words : ℕ) : Option (Heap × ℕ) := do
  let size := sizeT (if words % 2 ≠ 0 then (words + 1) * WSIZE else words * WSIZE)
  let (h, bp) := memSbrk M h (toInt size)
  if bp = minusOne then
    return (h, NULL)
  let h ← put M h (hdrp bp) (pack size 0)
  let h ← put M h (← ftrp M h bp) (pack size 0)
  let h ← put M h (hdrp (← nextBlkp M h bp)) (pack 0 1)
  coalesce M h bp

def mmInit (h : Heap) : Option (Heap × ℤ) := do
  let (h, p) := memSbrk M h (4 * WSIZE : ℕ)
  let h := { h with heapListp := p }
  if p = minusOne then
    return (h, -1)
  let h ← put M h h.heapListp 0
  let h ← put M h (h.heapListp + 1 * WSIZE) (pack DSIZE 1)
  let h ← put M h (h.heapListp + 2 * WSIZE) (pack DSIZE 1)
  let h ← put M h (h.heapListp + 3 * WSIZE) (pack 0 1)
  let h := { h with heapListp := h.heapListp + 2 * WSIZE }
  let (h, bp) ← extendHeap M h (CHUNKSIZE / WSIZE)
  if bp = NULL then
    return (h, -1)
  return (h, 0)

/-- `if (heap_listp == 0) mm_init();` -/
def initOnce (h : Heap) : Option Heap :=
  if h.heapListp = 0 then (mmInit M h).map Prod.fst else some h

def place (h : Heap) (bp asize : ℕ) : Option Heap := do
  let csize ← getSize M h (hdrp bp)
  if sizeSub csize asize ≥ 2 * DSIZE then
    let h ← put M h (hdrp bp) (pack asize 1)
    let h ← put M h (← ftrp M h bp) (pack asize 1)
    let bp ← nextBlkp M h bp
    let h ← put M h (hdrp bp) (pack (sizeSub csize asize) 0)
    put M h (← ftrp M h bp) (pack (sizeSub csize asize) 0)
  else
    let h ← put M h (hdrp bp) (pack csize 1)
    put M h (← ftrp M h bp) (pack csize 1)

def findFitLoop (h : Heap) (asize : ℕ) : (fuel bp : ℕ) → Option ℕ
  | 0, _ => none
  | fuel + 1, bp => do
    let size ← getSize M h (hdrp bp)
    if size > 0 then
      let alloc ← getAlloc M h (hdrp bp)
      if alloc = 0 ∧ asize ≤ size then
        return bp
      findFitLoop h asize fuel (← nextBlkp M h bp)
    else
      return NULL

def findFit (fuel : ℕ) (h : Heap) (asize : ℕ) : Option ℕ :=
  findFitLoop M h asize fuel h.heapListp

/-- The block size for a request of `size` bytes. -/
def adjust (size : ℕ) : ℕ :=
  if size ≤ DSIZE then 2 * DSIZE
  else sizeT (DSIZE * (sizeT (size + DSIZE + (DSIZE - 1)) / DSIZE))

def mmMalloc (fuel : ℕ) (h : Heap) (size : ℕ) : Option (Heap × ℕ) := do
  let h ← initOnce M h
  if size = 0 then
    return (h, NULL)
  let asize := adjust size
  let bp ← findFit M fuel h asize
  if bp ≠ NULL then
    let h ← place M h bp asize
    return (h, bp)
  let extendsize := max asize CHUNKSIZE
  let (h, bp) ← extendHeap M h (extendsize / WSIZE)
  if bp = NULL then
    return (h, NULL)
  let h ← place M h bp asize
  return (h, bp)

def mmFree (h : Heap) (bp : ℕ) : Option Heap := do
  if bp = 0 then
    return h
  let size ← getSize M h (hdrp bp)
  let h ← initOnce M h
  let h ← put M h (hdrp bp) (pack size 0)
  let h ← put M h (← ftrp M h bp) (pack size 0)
  let (h, _) ← coalesce M h bp
  return h

def copyBytes (m : Bytes) (dst src n : ℕ) : Bytes := fun q =>
  if dst ≤ q ∧ q < dst + n then m (src + (q - dst)) else m q

/-- The two areas have to be part of the heap and must not overlap. -/
def memcpy (h : Heap) (dst src n : ℕ) : Option Heap :=
  if InHeap M h dst n ∧ InHeap M h src n ∧ (dst + n ≤ src ∨ src + n ≤ dst) then
    some { h with mem := copyBytes h.mem dst src n }
  else none

def mmRealloc (fuel : ℕ) (h : Heap) (ptr size : ℕ) : Option (Heap × ℕ) := do
  if size = 0 then
    let h ← mmFree M h ptr
    return (h, NULL)
  if ptr = NULL then
    mmMalloc M fuel h size
  else
    let (h, newptr) ← mmMalloc M fuel h size
    if newptr = NULL then
      return (h, NULL)
    let oldsize ← getSize M h (hdrp ptr)
    let oldsize := if size < oldsize then size else oldsize
    let h ← memcpy M h newptr ptr oldsize
    let h ← mmFree M h ptr
    return (h, newptr)

/-! ### The heap checker -/

/-- A call of `printf`. -/
structure Print where
  format : String
  args : List ℕ
  deriving DecidableEq, Repr

def checkblock (h : Heap) (bp : ℕ) : Option (List Print) := do
  let aligned := if bp % 8 ≠ 0 then [⟨"Error: %p is not doubleword aligned\n", [bp]⟩] else []
  let hdr ← get M h (hdrp bp)
  let ftr ← get M h (← ftrp M h bp)
  return aligned ++ if hdr ≠ ftr then [⟨"Error: header does not match footer\n", []⟩] else []

/-- The loop of `checkheap`, with what is done for each block, and the `bp` it ends with. -/
def checkLoop (h : Heap) (each : ℕ → Option (List Print)) :
    (fuel bp : ℕ) → Option (List Print × ℕ)
  | 0, _ => none
  | fuel + 1, bp => do
    let size ← getSize M h (hdrp bp)
    if size > 0 then
      let out ← each bp
      let (rest, last) ← checkLoop h each fuel (← nextBlkp M h bp)
      return (out ++ rest, last)
    else
      return ([], bp)

/-- `if (verbose) printblock(bp);` -/
def verbosely (printer : Option (ℕ → Option (List Print))) (bp : ℕ) : Option (List Print) :=
  printer.elim (some []) fun printblock => printblock bp

/-- The body of the loop. -/
def checkEach (h : Heap) (printer : Option (ℕ → Option (List Print))) (bp : ℕ) :
    Option (List Print) := do
  return (← verbosely printer bp) ++ (← checkblock M h bp)

/-- `checkheap`, given `printblock` if it is verbose. -/
def checkheapWith (fuel : ℕ) (h : Heap) (printer : Option (ℕ → Option (List Print))) :
    Option (List Print) := do
  let banner := if printer.isSome then [⟨"Heap (%p):\n", [h.heapListp]⟩] else []
  let size ← getSize M h (hdrp h.heapListp)
  let alloc ← getAlloc M h (hdrp h.heapListp)
  let prologue := if size ≠ DSIZE ∨ alloc = 0 then [⟨"Bad prologue header\n", []⟩] else []
  let first ← checkblock M h h.heapListp
  let (blocks, bp) ← checkLoop M h (checkEach M h printer) fuel h.heapListp
  let last ← verbosely printer bp
  let size ← getSize M h (hdrp bp)
  let alloc ← getAlloc M h (hdrp bp)
  let epilogue := if size ≠ 0 ∨ alloc = 0 then [⟨"Bad epilogue header\n", []⟩] else []
  return banner ++ prologue ++ first ++ blocks ++ last ++ epilogue

def printblock (fuel : ℕ) (h : Heap) (bp : ℕ) : Option (List Print) := do
  let out ← checkheapWith M fuel h none
  let hsize ← getSize M h (hdrp bp)
  let _ ← getAlloc M h (hdrp bp)
  let _ ← getSize M h (← ftrp M h bp)
  let _ ← getAlloc M h (← ftrp M h bp)
  return out ++ if hsize = 0 then [⟨"%p: EOL\n", [bp]⟩] else []

def checkheap (fuel : ℕ) (h : Heap) (verbose : Bool) : Option (List Print) :=
  checkheapWith M fuel h (if verbose then some (printblock M fuel h) else none)

end Zinzhi.MmAlloc
