import NTux.Lib.Bytes
import NTux.Mm.Kmalloc

/-!
# Physical pages

`mm/pmm.c`: a bitmap with one bit for each physical page, set where the page is in use,
carved from the front of the first usable entry of the memory map that can hold it.
`pmm_alloc_page` reads the bitmap in words of 64 bits, from the word of the last page
handed out on and then again from the first, and looks at the lowest clear bit of each.

The bitmap is the memory from its first byte on.  The last word may extend past it, over
bytes that belong to nobody here.
-/

namespace NTux.Mm

open NTux.Lib NTux.Lib.Bytes

/-- `struct limine_memmap_entry`.  A physical address has at most 52 bits. -/
structure MemmapEntry where
  base : Nat
  length : Nat
  usable : Bool
  fits : base + length ≤ 2 ^ 52
  deriving DecidableEq

/-- The statics of `pmm.c`, and the physical address of the bitmap. -/
structure Pmm where
  bitmap : Bytes
  bitmapPhys : Nat
  bitmapSize : Nat
  totalPages : Nat
  freePages : Nat
  lastAllocPage : Nat

/-! ## The initialisation -/

/-- `highest_addr`. -/
def highestAddr (entries : List MemmapEntry) : Nat :=
  entries.foldl (fun highest e =>
    if highest < e.base + e.length then e.base + e.length else highest) 0

/-- `total_pages`. -/
def totalPagesOf (entries : List MemmapEntry) : Nat := highestAddr entries / pageSize

/-- `bitmap_size`. -/
def bitmapSizeOf (entries : List MemmapEntry) : Nat := totalPagesOf entries / 8 + 1

/-- The entry without its first bytes. -/
def MemmapEntry.carve (e : MemmapEntry) (n : Nat) (le : n ≤ e.length) : MemmapEntry :=
  ⟨e.base + n, e.length - n, e.usable, by have := e.fits; omega⟩

/-- The loop that places the bitmap: its address, and the entries without it. -/
def placeBitmap (size : Nat) : List MemmapEntry → Option (Nat × List MemmapEntry)
  | [] => none
  | e :: rest =>
      if fits : e.usable = true ∧ size ≤ e.length then some (e.base, e.carve size fits.2 :: rest)
      else (placeBitmap size rest).map fun r => (r.1, e :: r.2)

/-- The pages that the loop over an entry steps through. -/
def entryPages (e : MemmapEntry) : List Nat :=
  if e.usable then
    (List.range (e.length / pageSize)).map fun k => (e.base + k * pageSize) / pageSize
  else []

/-- `clear_bit(page)` and `free_pages++`. -/
def markFree (s : Bytes × Nat) (page : Nat) : Bytes × Nat := (clearBit s.1 page, s.2 + 1)

/-- `pmm_init`; `mem` is what the memory holds from the place of the bitmap on.  There is no
bitmap where no entry can hold it. -/
def pmmInit (entries : List MemmapEntry) (mem : Bytes) : Option Pmm :=
  let size := bitmapSizeOf entries
  (placeBitmap size entries).map fun (phys, entries') =>
    let bitmap : Bytes := fun i => if i < size then 0xFF else mem i
    let (bitmap, free) := (entries'.flatMap entryPages).foldl markFree (bitmap, 0)
    let (bitmap, free) := if getBit bitmap 0 then (bitmap, free) else (setBit bitmap 0, free - 1)
    ⟨bitmap, phys, size, totalPagesOf entries, free, 1⟩

/-! ## The pages -/

/-- `__builtin_ctzll`, of a number that is not 0. -/
def ctz (m : Nat) : Nat := ((List.range 64).find? fun i => m.testBit i).getD 64

/-- The page that a word offers. -/
def pageOfWord (s : Pmm) (w : Nat) : Option Nat :=
  let word := rd64 s.bitmap (8 * w)
  if word = 2 ^ 64 - 1 then none
  else
    let page := w * 64 + ctz (2 ^ 64 - 1 - word)
    if page = 0 ∨ s.totalPages ≤ page then none
    else if getBit s.bitmap page then none
    else some page

/-- One pass over the words, from `startWord` on. -/
def searchFrom (s : Pmm) (startWord : Nat) : Option Nat :=
  (List.range' startWord ((s.totalPages + 63) / 64 - startWord)).findSome? (pageOfWord s)

/-- The page that `pmm_alloc_page` takes. -/
def searchPage (s : Pmm) : Option Nat :=
  if s.totalPages = 0 then none
  else (searchFrom s (s.lastAllocPage / 64)).or (searchFrom s 0)

/-- `pmm_alloc_page`: the address of the page, and the state. -/
def pmmAllocPage (s : Pmm) : Option Nat × Pmm :=
  match searchPage s with
  | none => (none, s)
  | some page =>
      (some (page * pageSize), { s with
        bitmap := setBit s.bitmap page
        freePages := s.freePages - 1
        lastAllocPage := if s.totalPages ≤ page + 1 then 1 else page + 1 })

/-- `pmm_free_page`. -/
def pmmFreePage (s : Pmm) (addr : Nat) : Pmm :=
  let page := addr / pageSize
  if page = 0 ∨ s.totalPages ≤ page then s
  else if getBit s.bitmap page then
    { s with bitmap := clearBit s.bitmap page, freePages := s.freePages + 1 }
  else s

end NTux.Mm
