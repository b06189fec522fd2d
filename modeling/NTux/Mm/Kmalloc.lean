import NTux.Lib.Regions
import Mathlib.Logic.Function.Basic

/-!
# The kernel heap

`mm/kmalloc.c`: a first-fit free list of blocks with a header each, and a bump area
from which new blocks are cut.  Memory is a function from the addresses of 8-byte
words to their values; a header is the word with the block's size at the block's
address and the word with its successor behind it.  `size_t` and address arithmetic
wraps around at `2 ^ 64` as in the source.

A walk along the free list is given `2 ^ 64` steps, more than there are addresses: one
that uses them up has met a block twice and never ends, and the call does not return.
What `vmm_alloc_pages` answers is an argument of `kmalloc`, read only where the source
calls it.
-/

namespace NTux.Mm

open NTux.Lib

/-- `size_t` arithmetic. -/
def wrap (x : Nat) : Nat := x % 2 ^ 64

/-- `PAGE_SIZE`. -/
def pageSize : Nat := 4096

/-- `HEAP_CHUNK_PAGES`. -/
def heapChunkPages : Nat := 16

/-- `sizeof(kmalloc_block_t)`. -/
def blockHeader : Nat := 16

/-- The statics of `kmalloc.c` and the memory they point into; null is `0`. -/
structure KernelHeap where
  mem : Nat → Nat
  freeList : Nat
  heapCur : Nat
  heapEnd : Nat

/-- `b->next`; the size of a block is the word at its address. -/
def blockNext (mem : Nat → Nat) (b : Nat) : Nat := mem (b + 8)

/-- `b->size = v`. -/
def setSize (mem : Nat → Nat) (b v : Nat) : Nat → Nat := Function.update mem b v

/-- `b->next = v`. -/
def setNext (mem : Nat → Nat) (b v : Nat) : Nat → Nat := Function.update mem (b + 8) v

/-- `align8`. -/
def align8 (size : Nat) : Nat := wrap (size + 7) / 8 * 8

/-- `block_end`. -/
def blockEnd (mem : Nat → Nat) (b : Nat) : Nat := wrap (b + blockHeader + mem b)

/-- The number of steps after which a walk cannot end any more. -/
def walkBound : Nat := 2 ^ 64

/-- Read through `prev`, which points to `free_list` or to a block's `next`. -/
def KernelHeap.loadPrev (h : KernelHeap) (prev : Option Nat) : Nat :=
  match prev with
  | none => h.freeList
  | some p => blockNext h.mem p

/-- Store through `prev`. -/
def KernelHeap.storePrev (h : KernelHeap) (prev : Option Nat) (v : Nat) : KernelHeap :=
  match prev with
  | none => { h with freeList := v }
  | some p => { h with mem := setNext h.mem p v }

/-- `kmalloc_init`. -/
def kmallocInit (mem : Nat → Nat) : KernelHeap := ⟨mem, 0, 0, 0⟩

/-! ## Growing -/

/-- `add_remaining_bump_to_free_list`. -/
def addRemainingBumpToFreeList (h : KernelHeap) : KernelHeap :=
  let remaining := wrap (h.heapEnd + 2 ^ 64 - h.heapCur)
  if blockHeader + 8 ≤ remaining then
    { h with
      mem := setNext (setSize h.mem h.heapCur (remaining - blockHeader)) h.heapCur h.freeList
      freeList := h.heapCur }
  else h

/-- The number of pages `grow_heap` asks for. -/
def growPages (minBytes : Nat) : Nat :=
  max (wrap (minBytes + (pageSize - 1)) / pageSize) heapChunkPages

/-- `grow_heap`, `chunk` being the answer of `vmm_alloc_pages`. -/
def growHeap (h : KernelHeap) (minBytes : Nat) (chunk : Option Nat) : Bool × KernelHeap :=
  let h := addRemainingBumpToFreeList h
  match chunk with
  | none => (false, h)
  | some c =>
      (true, { h with heapCur := c, heapEnd := wrap (c + wrap (growPages minBytes * pageSize)) })

/-! ## Allocating -/

/-- How the search of `kmalloc` along the free list ends. -/
inductive FreeSearch
  | found (prev : Option Nat) (curr : Nat)
  | exhausted
  | endless
  deriving DecidableEq

/-- The search of `kmalloc` for the first block that is large enough. -/
def kmallocSearch (mem : Nat → Nat) (size : Nat) : Nat → Option Nat → Nat → FreeSearch
  | 0, _, _ => .endless
  | fuel + 1, prev, curr =>
      if curr = 0 then .exhausted
      else if size ≤ mem curr then .found prev curr
      else kmallocSearch mem size fuel (some curr) (blockNext mem curr)

/-- Take the block the search found off the free list, its end split off if it makes
a block. -/
def kmallocTake (h : KernelHeap) (size : Nat) (prev : Option Nat) (curr : Nat) : KernelHeap :=
  let remaining := h.mem curr - size
  if blockHeader + 8 ≤ remaining then
    let split := wrap (curr + blockHeader + size)
    let mem := setSize h.mem split (remaining - blockHeader)
    let mem := setNext mem split (blockNext mem curr)
    let h := { h with mem := mem }.storePrev prev split
    { h with mem := setSize h.mem curr size }
  else h.storePrev prev (blockNext h.mem curr)

/-- `need`: where the bump area starts once a block is cut off it. -/
def bumpNeed (h : KernelHeap) (size : Nat) : Nat :=
  wrap (align8 h.heapCur + blockHeader + size)

/-- Cut a block off the bump area, the test of `need` passed. -/
def kmallocBump (h : KernelHeap) (size : Nat) : Nat × KernelHeap :=
  (wrap (align8 h.heapCur + blockHeader),
    { h with mem := setSize h.mem (align8 h.heapCur) size, heapCur := bumpNeed h size })

/-- The part of `kmalloc` after an unsuccessful search. -/
def kmallocFromBump (h : KernelHeap) (size : Nat) (chunk : Option Nat) : Nat × KernelHeap :=
  if h.heapEnd < bumpNeed h size then
    match growHeap h (wrap (blockHeader + size)) chunk with
    | (false, h) => (0, h)
    | (true, h) => if h.heapEnd < bumpNeed h size then (0, h) else kmallocBump h size
  else kmallocBump h size

/-- `kmalloc`: the pointer returned, unless the search does not end. -/
def kmalloc (h : KernelHeap) (size : Nat) (chunk : Option Nat) : Option (Nat × KernelHeap) :=
  if size = 0 then some (0, h)
  else
    match kmallocSearch h.mem (align8 size) walkBound none h.freeList with
    | .endless => none
    | .found prev curr =>
        some (wrap (curr + blockHeader), kmallocTake h (align8 size) prev curr)
    | .exhausted => some (kmallocFromBump h (align8 size) chunk)

/-- The number of pages that `kmalloc` asks `vmm_alloc_pages` for, if it does. -/
def kmallocAsks (h : KernelHeap) (size : Nat) : Option Nat :=
  if size ≠ 0 ∧ kmallocSearch h.mem (align8 size) walkBound none h.freeList = .exhausted ∧
      h.heapEnd < bumpNeed h (align8 size) then
    some (growPages (wrap (blockHeader + align8 size)))
  else none

/-! ## Freeing -/

/-- Where `kfree` links the block in: after the last block of the walk whose address
is smaller. -/
def kfreeSeat (mem : Nat → Nat) (block : Nat) : Nat → Option Nat → Nat → Option (Option Nat)
  | 0, _, _ => none
  | fuel + 1, prev, curr =>
      if curr ≠ 0 ∧ curr < block then kfreeSeat mem block fuel (some curr) (blockNext mem curr)
      else some prev

/-- The walk of `kfree` to the block whose successor is `block`; `0` if there is none. -/
def kfreePred (mem : Nat → Nat) (block : Nat) : Nat → Nat → Option Nat
  | 0, _ => none
  | fuel + 1, p =>
      if p ≠ 0 ∧ blockNext mem p ≠ block then kfreePred mem block fuel (blockNext mem p)
      else some p

/-- Link the block in. -/
def kfreeLink (h : KernelHeap) (prev : Option Nat) (block : Nat) : KernelHeap :=
  { h with mem := setNext h.mem block (h.loadPrev prev) }.storePrev prev block

/-- The block `b` absorbs its successor `n`. -/
def absorb (h : KernelHeap) (b n : Nat) : KernelHeap :=
  let mem := setSize h.mem b (wrap (h.mem b + (blockHeader + h.mem n)))
  { h with mem := setNext mem b (blockNext mem n) }

/-- Merge the block with its successor if it ends where that one starts. -/
def kfreeMergeNext (h : KernelHeap) (block : Nat) : KernelHeap :=
  let next := blockNext h.mem block
  if next ≠ 0 ∧ blockEnd h.mem block = next then absorb h block next else h

/-- Merge the block with its predecessor if that one ends where it starts. -/
def kfreeMergePrev (h : KernelHeap) (block : Nat) : Option KernelHeap :=
  (kfreePred h.mem block walkBound h.freeList).map fun p =>
    if p ≠ 0 ∧ blockEnd h.mem p = block then absorb h p block else h

/-- `kfree`, unless one of its walks does not end. -/
def kfree (h : KernelHeap) (ptr : Nat) : Option KernelHeap :=
  if ptr = 0 then some h
  else
    let block := wrap (ptr + 2 ^ 64 - blockHeader)
    (kfreeSeat h.mem block walkBound none h.freeList).bind fun prev =>
      let h := kfreeMergeNext (kfreeLink h prev block) block
      match prev with
      | none => some h
      | some _ => kfreeMergePrev h block

end NTux.Mm
