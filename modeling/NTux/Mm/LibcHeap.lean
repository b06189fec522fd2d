import NTux.Mm.UmallocSafe

/-!
# The heap of the C library

`malloc`, `free`, `calloc`, `realloc`, `brk` and `sbrk` of `libc/stdlib.c`: a first-fit free
list ordered by address in a static array, in front of a break that `malloc` and `sbrk` both
move.  What does not fit in the array is asked of the kernel.

A header is the block it describes, and the memory is what the program sees behind the
headers: the program does not write to headers, and a header that lies in a block in use is
not read as part of it.  What `sys_umalloc` returns is an argument of the calls.
-/

namespace NTux.Mm

open NTux.Lib Region

/-- `USER_HEAP_BYTES`. -/
def userHeapBytes : Nat := 32 * 1024 * 1024

/-- Where `g_heap` is. -/
structure StaticHeap where
  base : Nat
  fits : base + userHeapBytes < 2 ^ 64

/-- The array. -/
def StaticHeap.region (g : StaticHeap) : Region := ⟨g.base, g.base + userHeapBytes⟩

/-- The test of `free`: the pointer points into the array. -/
def StaticHeap.holds (g : StaticHeap) (ptr : Nat) : Bool :=
  g.base ≤ ptr && ptr < g.base + userHeapBytes

/-- `g_heap_break` and `g_free`. -/
structure LibcHeap where
  brk : Nat
  freeList : List UBlock

/-- What `malloc` returns for a block. -/
def UBlock.ptr (b : UBlock) : Nat := b.addr + blockHeader

/-! ## The list -/

/-- The walk of `malloc`: the block it takes and what the list is then. -/
def findFit (size : Nat) : List UBlock → Option (UBlock × List UBlock)
  | [] => none
  | cur :: l =>
      if size ≤ cur.size then
        let remaining := cur.size - size
        if blockHeader + 8 ≤ remaining then
          let split : UBlock := ⟨wrap (cur.addr + blockHeader + size), remaining - blockHeader⟩
          some (⟨cur.addr, size⟩, split :: l)
        else some (cur, l)
      else (findFit size l).map fun (b, l) => (b, cur :: l)

/-- A block takes in its successor on the list, where they meet. -/
def takeNext (b : UBlock) : List UBlock → List UBlock
  | n :: l =>
      if wrap b.stop = n.addr then ⟨b.addr, wrap (b.size + (blockHeader + n.size))⟩ :: l
      else b :: n :: l
  | [] => [b]

/-- `free` of a block of the array: it is put in front of the first one that is not below it,
takes in its successor, and is taken in by its predecessor. -/
def putBack (b : UBlock) : List UBlock → List UBlock
  | p :: l =>
      if p.addr < b.addr then
        match l with
        | n :: _ => if n.addr < b.addr then p :: putBack b l else takeNext p (takeNext b l)
        | [] => takeNext p [b]
      else takeNext b (p :: l)
  | [] => [b]

/-! ## The calls -/

/-- `malloc`: the block whose bytes it returns.  `answer` is what `sys_umalloc` returns. -/
def malloc (g : StaticHeap) (h : LibcHeap) (size : Nat) (answer : Option UBlock) :
    Option UBlock × LibcHeap :=
  if size = 0 then (none, h)
  else
    let size := align8 size
    match findFit size h.freeList with
    | some (b, l) => (some b, { h with freeList := l })
    | none =>
        let off := align8 h.brk
        let need := wrap (off + blockHeader + size)
        if need ≤ userHeapBytes then (some ⟨g.base + off, size⟩, { h with brk := need })
        else (answer, h)

/-- `free` of a block that is in use; what is not in the array goes back to the kernel. -/
def free (g : StaticHeap) (h : LibcHeap) (b : UBlock) : LibcHeap :=
  if g.holds b.ptr then { h with freeList := putBack b h.freeList } else h

/-- `brk`; the pointer must point into the array or to its end. -/
def brk (g : StaticHeap) (h : LibcHeap) (addr : Nat) : Int × LibcHeap :=
  if addr = 0 then (0, h)
  else if addr < g.base ∨ g.base + userHeapBytes < addr then (-1, h)
  else (0, { h with brk := addr - g.base })

/-- `sbrk`: the old break, or nothing where it returns -1. -/
def sbrk (g : StaticHeap) (h : LibcHeap) (increment : Int) : Option Nat × LibcHeap :=
  if increment = 0 then (some (g.base + h.brk), h)
  else if increment < 0 then
    if h.brk < increment.natAbs then (none, h)
    else (some (g.base + h.brk), { h with brk := h.brk - increment.natAbs })
  else if userHeapBytes < h.brk + increment.natAbs then (none, h)
  else (some (g.base + h.brk), { h with brk := h.brk + increment.natAbs })

/-! ## Runs -/

/-- The heap, the blocks in use, and what is in the memory. -/
structure LibcUse where
  heap : LibcHeap
  live : List LiveBlock
  mem : Nat → UInt8

/-- The block in use that a pointer was returned for. -/
def LibcUse.block (x : LibcUse) (ptr : Nat) : Option LiveBlock :=
  x.live.find? fun l => l.block.ptr = ptr

/-- `memcpy`. -/
def memcpy (mem : Nat → UInt8) (dst src n : Nat) : Nat → UInt8 := fun a =>
  if dst ≤ a ∧ a < dst + n then mem (src + (a - dst)) else mem a

/-- `memset` to zero. -/
def memclear (mem : Nat → UInt8) (dst n : Nat) : Nat → UInt8 := fun a =>
  if dst ≤ a ∧ a < dst + n then 0 else mem a

/-- `malloc`, which makes the block one in use. -/
def LibcUse.malloc (g : StaticHeap) (x : LibcUse) (size : Nat) (answer : Option UBlock) :
    Option UBlock × LibcUse :=
  match Mm.malloc g x.heap size answer with
  | (none, h) => (none, { x with heap := h })
  | (some b, h) => (some b, { x with heap := h, live := ⟨b, size⟩ :: x.live })

/-- `free` of a block in use. -/
def LibcUse.free (g : StaticHeap) (x : LibcUse) (l : LiveBlock) : LibcUse :=
  { x with heap := Mm.free g x.heap l.block, live := x.live.erase l }

/-- `calloc`. -/
def LibcUse.calloc (g : StaticHeap) (x : LibcUse) (nmemb size : Nat) (answer : Option UBlock) :
    Option UBlock × LibcUse :=
  if nmemb = 0 ∨ size = 0 then x.malloc g 0 answer
  else if (2 ^ 64 - 1) / size < nmemb then (none, x)
  else
    match x.malloc g (nmemb * size) answer with
    | (none, x) => (none, x)
    | (some b, x) => (some b, { x with mem := memclear x.mem b.ptr (nmemb * size) })

/-- `realloc` of a block in use. -/
def LibcUse.realloc (g : StaticHeap) (x : LibcUse) (l : LiveBlock) (size : Nat)
    (answer : Option UBlock) : Option UBlock × LibcUse :=
  if size = 0 then (none, x.free g l)
  else if size ≤ l.block.size then
    (some l.block, { x with live := ⟨l.block, size⟩ :: x.live.erase l })
  else
    match x.malloc g size answer with
    | (none, x) => (none, x)
    | (some n, x) =>
        (some n, LibcUse.free g
          { x with mem := memcpy x.mem n.ptr l.block.ptr l.block.size } l)

/-- A call, or a byte that the program stores. -/
inductive LibcCall
  | malloc (size : Fin (2 ^ 64)) (answer : Option UBlock)
  | calloc (nmemb size : Fin (2 ^ 64)) (answer : Option UBlock)
  | realloc (ptr : Nat) (size : Fin (2 ^ 64)) (answer : Option UBlock)
  | free (ptr : Nat)
  | brk (addr : Nat)
  | sbrk (increment : Int)
  | store (a : Nat) (v : UInt8)

/-- One call.  `realloc` of the null pointer is `malloc`; no other pointer than one in use is
given to `realloc` and `free`. -/
def libcStep (g : StaticHeap) (x : LibcUse) : LibcCall → LibcUse
  | .malloc size answer => (x.malloc g size answer).2
  | .calloc nmemb size answer => (x.calloc g nmemb size answer).2
  | .realloc ptr size answer =>
      if ptr = 0 then (x.malloc g size answer).2
      else
        match x.block ptr with
        | none => x
        | some l => (x.realloc g l size answer).2
  | .free ptr =>
      match x.block ptr with
      | none => x
      | some l => x.free g l
  | .brk addr => { x with heap := (Mm.brk g x.heap addr).2 }
  | .sbrk increment => { x with heap := (Mm.sbrk g x.heap increment).2 }
  | .store a v => { x with mem := Function.update x.mem a v }

/-- The heap of a program that starts. -/
def libcBoot (mem : Nat → UInt8) : LibcUse := ⟨⟨0, []⟩, [], mem⟩

/-! ## Safety -/

/-- The blocks in use that lie in the array. -/
def LibcUse.inside (g : StaticHeap) (x : LibcUse) : List LiveBlock :=
  x.live.filter fun l => g.holds l.block.ptr

/-- The blocks in use in the array are apart from one another and from the free ones, as long
as asked for, and below the break. -/
structure LibcHeapSafe (g : StaticHeap) (x : LibcUse) : Prop where
  apart : ((x.inside g).map fun l => l.block.region).Pairwise Region.Apart
  free : ∀ l ∈ x.inside g, ∀ b ∈ x.heap.freeList, l.block.region.Apart b.region
  long : ∀ l ∈ x.inside g, l.requested ≤ l.block.size
  below : ∀ l ∈ x.inside g, l.block.stop ≤ g.base + x.heap.brk

/-- What `realloc` returns starts with the bytes of the block that it was given, and the two
are apart if they are not the same; `sbrk` does not give out what belongs to a block. -/
def SoundCall (g : StaticHeap) (x : LibcUse) : LibcCall → Prop
  | .realloc ptr size answer =>
      ∀ l ∈ x.block ptr, ∀ n ∈ (x.realloc g l size answer).1,
        (n = l.block ∨ n.region.Apart l.block.region) ∧
        ∀ i, i < l.requested → i < size →
          (x.realloc g l size answer).2.mem (n.ptr + i) = x.mem (ptr + i)
  | .sbrk increment =>
      ∀ old ∈ (Mm.sbrk g x.heap increment).1, ∀ l ∈ x.inside g,
        l.block.region.Apart ⟨old, g.base + (Mm.sbrk g x.heap increment).2.brk⟩
  | _ => True

/-! ## What goes wrong -/

/-- No free block is large enough, and neither is what is left of the array. -/
def AsksKernel (h : LibcHeap) (size : Nat) : Prop :=
  findFit (align8 size) h.freeList = none ∧
    userHeapBytes < wrap (align8 h.brk + blockHeader + align8 size)

/-- The size can be rounded up and taken with a header, or is too large for the array with
what wraps around left out; and if the kernel is asked, what it returns lies outside the
array, apart from the blocks in use, and is as long as asked for. -/
structure FitsMalloc (g : StaticHeap) (x : LibcUse) (size : Nat) (answer : Option UBlock) :
    Prop where
  wraps : size = 0 ∨ AsksKernel x.heap size ∨
    size ≤ 2 ^ 64 - 8 ∧ align8 x.heap.brk + blockHeader + align8 size < 2 ^ 64
  kernel : AsksKernel x.heap size → ∀ b ∈ answer, size ≤ b.size ∧ b.region.Apart g.region ∧
    ∀ l ∈ x.live, b.region.Apart l.block.region

/-- The break is not moved below the end of a block, in use or free. -/
def KeepsBreak (g : StaticHeap) (x : LibcUse) (brk : Nat) : Prop :=
  (∀ l ∈ x.inside g, l.block.stop ≤ g.base + brk) ∧
    ∀ b ∈ x.heap.freeList, b.stop ≤ g.base + brk

/-- The call takes no size that wraps around, and moves the break below no block. -/
def FitsLibc (g : StaticHeap) (x : LibcUse) : LibcCall → Prop
  | .malloc size answer => FitsMalloc g x size answer
  | .calloc nmemb size answer =>
      nmemb.val * size.val < 2 ^ 64 → FitsMalloc g x (nmemb.val * size.val) answer
  | .realloc ptr size answer =>
      (ptr = 0 → FitsMalloc g x size answer) ∧
        ∀ l ∈ x.block ptr, l.block.size < size → FitsMalloc g x size answer
  | .brk addr => KeepsBreak g x (Mm.brk g x.heap addr).2.brk
  | .sbrk increment => KeepsBreak g x (Mm.sbrk g x.heap increment).2.brk
  | _ => True

end NTux.Mm
