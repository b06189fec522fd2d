import NTux.Mm.Kmalloc
import NTux.Lib.Runs

/-!
# The user heap

`mm/umalloc.c`: a first-fit free list of blocks with a header each, ordered by address, in
front of a break that grows page by page.  `ufree` merges a block with its neighbours and
gives the pages of a free block at the end of the heap back.

The free list is the list of its blocks, and the ends of blocks are sums that do not wrap
around, as the blocks lie below the break.  Pages come from `pmm_alloc_page` and
`vmm_map_page`, and how many of them succeed is an argument of `umalloc`; there are no more
than a physical address has room for.
-/

namespace NTux.Mm

open NTux.Lib

/-- `USER_HEAP_START`. -/
def userHeapStart : Nat := 0x400000

/-- A page-table entry holds 52 bits of a physical address. -/
def physicalBytes : Nat := 2 ^ 52

/-- A `umalloc_block_t`: where its header is and the size in it. -/
structure UBlock where
  addr : Nat
  size : Nat
  deriving DecidableEq

/-- `ublock_end`. -/
def UBlock.stop (b : UBlock) : Nat := b.addr + blockHeader + b.size

/-- A block with its header. -/
def UBlock.region (b : UBlock) : Region := ⟨b.addr, b.stop⟩

/-- The statics of `umalloc.c`, and the pages that are mapped, by their numbers. -/
structure UserHeap where
  brk : Nat
  mappedEnd : Nat
  freeList : List UBlock
  pages : Nat → Bool

/-- `umalloc_init`. -/
def umallocInit : UserHeap := ⟨userHeapStart, userHeapStart, [], fun _ => false⟩

/-- `expand_user_heap_to`, `avail` pages being there. -/
def expandUserHeapTo (requiredEnd : Nat) : Nat → UserHeap → Bool × UserHeap
  | 0, h => (requiredEnd ≤ h.mappedEnd, h)
  | avail + 1, h =>
      if h.mappedEnd < requiredEnd then
        if userHeapStart + physicalBytes ≤ h.mappedEnd then (false, h)
        else
          expandUserHeapTo requiredEnd avail
            { h with pages := Function.update h.pages (h.mappedEnd / pageSize) true
                     mappedEnd := h.mappedEnd + pageSize }
      else (true, h)

/-- The walk of `umalloc`: the block it takes and what the list is then. -/
def firstFit (size : Nat) : List UBlock → Option (UBlock × List UBlock)
  | [] => none
  | curr :: l =>
      if size ≤ curr.size then
        let remaining := curr.size - size
        if blockHeader + 8 ≤ remaining then
          let split : UBlock := ⟨curr.addr + blockHeader + size, remaining - blockHeader⟩
          some (⟨curr.addr, size⟩, split :: l)
        else some (curr, l)
      else (firstFit size l).map fun (b, l) => (b, curr :: l)

/-- `umalloc`: the block whose bytes behind the header it returns. -/
def umalloc (h : UserHeap) (size avail : Nat) : Option UBlock × UserHeap :=
  if size = 0 then (none, h)
  else
    let size := align8 size
    match firstFit size h.freeList with
    | some (b, l) => (some b, { h with freeList := l })
    | none =>
        let allocStart := align8 h.brk
        let newBreak := wrap (allocStart + blockHeader + size)
        if newBreak < allocStart then (none, h)
        else
          match expandUserHeapTo newBreak avail h with
          | (false, h) => (none, h)
          | (true, h) => (some ⟨allocStart, size⟩, { h with brk := newBreak })

/-- A block with its successor on the list, where they meet. -/
def joinNext (b : UBlock) : List UBlock → List UBlock
  | n :: l =>
      if b.stop = n.addr then ⟨b.addr, b.size + (blockHeader + n.size)⟩ :: l else b :: n :: l
  | [] => [b]

/-- A block is put on the list, in front of the first one that is not below it, and merged
with the blocks next to it. -/
def insertBlock (b : UBlock) : List UBlock → List UBlock
  | p :: l =>
      if p.addr < b.addr then
        match l with
        | n :: _ => if n.addr < b.addr then p :: insertBlock b l else joinLast p (joinNext b l)
        | [] => joinLast p [b]
      else joinNext b (p :: l)
  | [] => [b]
where
  /-- The block before it takes the block in, where they meet. -/
  joinLast (p : UBlock) : List UBlock → List UBlock
    | b :: l =>
        if p.stop = b.addr then ⟨p.addr, p.size + (blockHeader + b.size)⟩ :: l else p :: b :: l
    | [] => [p]

/-- The end of `ufree`: the pages from the last free block on are given back. -/
def trimHeap (h : UserHeap) : UserHeap :=
  match h.freeList.getLast? with
  | none => h
  | some last =>
      if last.stop = h.mappedEnd then
        let newMapped := last.addr / pageSize * pageSize
        if userHeapStart ≤ newMapped ∧ newMapped < h.mappedEnd then
          { brk := min h.brk newMapped
            mappedEnd := newMapped
            freeList := h.freeList.dropLast
            pages := fun p =>
              if newMapped ≤ p * pageSize ∧ p * pageSize < h.mappedEnd then false
              else h.pages p }
        else h
      else h

/-- `ufree` of the block whose bytes are returned. -/
def ufree (h : UserHeap) (b : UBlock) : UserHeap :=
  trimHeap { h with freeList := insertBlock b h.freeList }

/-! ## Runs -/

/-- A block in use, and how many bytes were asked for. -/
structure LiveBlock where
  block : UBlock
  requested : Nat
  deriving DecidableEq

/-- The heap and the blocks in use. -/
structure HeapUse where
  heap : UserHeap
  live : List LiveBlock

/-- A call: `umalloc` of a size, with the pages there are, or `ufree` of a pointer. -/
inductive HeapCall
  | umalloc (size : Fin (2 ^ 64)) (avail : Nat)
  | ufree (ptr : Nat)

/-- One call.  A pointer that is not in use is not freed. -/
def userHeapStep (x : HeapUse) : HeapCall → HeapUse
  | .umalloc size avail =>
      match umalloc x.heap size avail with
      | (none, h) => ⟨h, x.live⟩
      | (some b, h) => ⟨h, ⟨b, size⟩ :: x.live⟩
  | .ufree ptr =>
      match x.live.find? fun l => l.block.addr + blockHeader = ptr with
      | none => x
      | some l => ⟨ufree x.heap l.block, x.live.erase l⟩

/-- The heap before its first call. -/
def userHeapBoot : HeapUse := ⟨umallocInit, []⟩

/-- The regions of the blocks in use. -/
def HeapUse.liveRegions (x : HeapUse) : List Region := x.live.map fun l => l.block.region

/-- The regions of the free blocks. -/
def HeapUse.freeRegions (x : HeapUse) : List Region := x.heap.freeList.map UBlock.region

/-- The page of an address is mapped. -/
def UserHeap.mapped (h : UserHeap) (a : Nat) : Prop := h.pages (a / pageSize) = true

/-- A heap whose blocks in use are apart from one another and from the free ones, as long as
asked for, and mapped, as are the headers of the free ones, with the break not behind the
end of what is mapped. -/
structure UserHeapSafe (x : HeapUse) : Prop where
  apart : x.liveRegions.Pairwise Region.Apart
  free : ∀ r ∈ x.liveRegions, ∀ f ∈ x.freeRegions, r.Apart f
  long : ∀ l ∈ x.live, l.requested ≤ l.block.size
  liveMapped : ∀ l ∈ x.live, ∀ a, l.block.addr ≤ a → a < l.block.stop → x.heap.mapped a
  headers : ∀ b ∈ x.heap.freeList, ∀ a, b.addr ≤ a → a < b.addr + blockHeader → x.heap.mapped a
  brk : x.heap.brk ≤ x.heap.mappedEnd

/-- A call leaves the heap safe, and unmaps no page of a block in use. -/
def SafeCall (x : HeapUse) (c : HeapCall) : Prop :=
  UserHeapSafe (userHeapStep x c) ∧
    ∀ l ∈ (userHeapStep x c).live, ∀ a, l.block.addr ≤ a → a < l.block.stop →
      x.heap.mapped a → (userHeapStep x c).heap.mapped a

/-- The free block that `ufree` finds at the end of what is mapped. -/
def freeTop (h : UserHeap) (b : UBlock) : Option UBlock :=
  (insertBlock b h.freeList).getLast?.filter fun last => last.stop = h.mappedEnd

/-- The size of `umalloc` can be rounded up and taken with a header, and the free block
that `ufree` makes or extends at the end of what is mapped starts with a page. -/
def FitsPages (x : HeapUse) : HeapCall → Prop
  | .umalloc size _ => size.val ≤ 2 ^ 64 - 24
  | .ufree ptr =>
      ∀ l ∈ x.live.find? fun l => l.block.addr + blockHeader = ptr,
        ∀ last ∈ freeTop x.heap l.block, last.addr % pageSize = 0

instance (x : HeapUse) : (c : HeapCall) → Decidable (FitsPages x c)
  | .umalloc size _ => inferInstanceAs (Decidable (size.val ≤ 2 ^ 64 - 24))
  | .ufree ptr => inferInstanceAs (Decidable
      (∀ l ∈ x.live.find? fun l => l.block.addr + blockHeader = ptr,
        ∀ last ∈ freeTop x.heap l.block, last.addr % pageSize = 0))

end NTux.Mm
