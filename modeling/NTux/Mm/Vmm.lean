import NTux.Mm.Pmm
import Mathlib.Logic.Function.Basic

/-!
# Virtual memory

`mm/vmm.c`: the walk over page tables of four levels, the mapping of a page, and the
allocation of pages from the two areas of addresses that are handed out upwards.

An entry is a word of 64 bits.  The flags of `paging.h` are among its lower twelve bits; the
others are the address, which is what the mask `~0xFFF` leaves.
-/

namespace NTux.Mm

/-- `PAGE_PRESENT`. -/
def pagePresent : BitVec 64 := BitVec.twoPow 64 0

/-- `PAGE_WRITABLE`. -/
def pageWritable : BitVec 64 := BitVec.twoPow 64 1

/-- `PAGE_USER`. -/
def pageUser : BitVec 64 := BitVec.twoPow 64 2

/-- `PAGE_HUGE`. -/
def pageHuge : BitVec 64 := BitVec.twoPow 64 7

/-- `KERNEL_HEAP_VADDR`. -/
def kernelHeapVaddr : BitVec 64 := 0xFFFFA00000000000#64

/-- `USER_MMAP_VADDR`. -/
def userMmapVaddr : BitVec 64 := 0x60000000#64

/-- `e & 0xFFF`. -/
def pageOffset (e : BitVec 64) : BitVec 64 := e &&& 0xFFF#64

/-- `e & ~0xFFF`. -/
def pageAddr (e : BitVec 64) : BitVec 64 := e &&& ~~~0xFFF#64

/-- `e & flag`, as a condition. -/
def hasFlag (flag e : BitVec 64) : Bool := e &&& flag != 0#64

/-- `PT_IDX`, `PD_IDX`, `PDPT_IDX` and `PML4_IDX`, by the level of the table. -/
def ptIdx (virt : BitVec 64) (level : ℕ) : Fin 512 :=
  Fin.ofNat 512 (virt >>> (12 + 9 * level)).toNat

/-- Physical memory, as tables by their addresses, the allocator of its pages, `cr3`, and the
statics of `vmm.c`. -/
structure Vm where
  mem : BitVec 64 → Fin 512 → BitVec 64
  pmm : Pmm
  cr3 : BitVec 64
  kernelHeapCur : BitVec 64
  userMmapCur : BitVec 64

namespace Vm

/-- The statics of `vmm.c` as they start, with one table, which is empty. -/
def start (pmm : Pmm) (cr3 : BitVec 64) : Vm :=
  ⟨fun _ _ => 0#64, pmm, cr3, kernelHeapVaddr, userMmapVaddr⟩

/-- A store to an entry. -/
def store (s : Vm) (table : BitVec 64) (i : Fin 512) (e : BitVec 64) : Vm :=
  { s with mem := Function.update s.mem table (Function.update (s.mem table) i e) }

/-- `memset` of a page to 0. -/
def clear (s : Vm) (page : BitVec 64) : Vm :=
  { s with mem := Function.update s.mem page fun _ => 0#64 }

/-- The table that `cr3` names. -/
def root (s : Vm) : BitVec 64 := pageAddr s.cr3

end Vm

/-- What `walk_pt` comes to: no page for a table, a table that is missing, or an entry of the
last level and its table. -/
inductive Walk where
  | noMemory
  | absent
  | entry (e table : BitVec 64)

/-- The loop of `walk_pt`, from a level on. -/
def walkFrom (create : Bool) (extra virt : BitVec 64) : ℕ → Vm → BitVec 64 → Walk × Vm
  | 0, s, table => (.entry (s.mem table (ptIdx virt 0)) table, s)
  | level + 1, s, table =>
      let i := ptIdx virt (level + 1)
      let e := s.mem table i
      if hasFlag pagePresent e = false then
        if create = false then (.absent, s)
        else
          match pmmAllocPage s.pmm with
          | (none, pmm) => (.noMemory, { s with pmm })
          | (some page, pmm) =>
              let page := BitVec.ofNat 64 page
              let e := page ||| pagePresent ||| pageWritable ||| extra
              walkFrom create extra virt level
                ((Vm.clear { s with pmm } page).store table i e) (pageAddr e)
      else if extra ≠ 0#64 then
        walkFrom create extra virt level (s.store table i (e ||| extra)) (pageAddr e)
      else walkFrom create extra virt level s (pageAddr e)

/-- `walk_pt`. -/
def walkPt (s : Vm) (pml4 virt : BitVec 64) (create : Bool) (extra : BitVec 64) : Walk × Vm :=
  walkFrom create extra virt 3 s pml4

/-- `vmm_map_page`.  It returns `virt`, or `NULL`. -/
def vmmMapPage (s : Vm) (virt phys flags : BitVec 64) : Option (BitVec 64) × Vm :=
  match walkPt s s.root virt true (flags &&& pageUser) with
  | (.entry _ table, s) => (some virt, s.store table (ptIdx virt 0) (pageAddr phys ||| flags))
  | (_, s) => (none, s)

/-- `vmm_unmap_page`. -/
def vmmUnmapPage (s : Vm) (virt : BitVec 64) : Vm :=
  match walkPt s s.root virt false 0#64 with
  | (.entry e table, s) =>
      if hasFlag pagePresent e then s.store table (ptIdx virt 0) 0#64 else s
  | (_, s) => s

/-- `vmm_get_phys_addr`. -/
def vmmGetPhysAddr (s : Vm) (virt : BitVec 64) : Option (BitVec 64) :=
  match (walkPt s s.root virt false 0#64).1 with
  | .entry e _ => if hasFlag pagePresent e then some (pageAddr e ||| pageOffset virt) else none
  | _ => none

/-! ## The two areas -/

/-- Where pages are handed out. -/
inductive VmArea where
  | kernelHeap
  | userMmap
  deriving DecidableEq

namespace VmArea

/-- `kernel_heap_cur` or `user_mmap_cur`. -/
def cur : VmArea → Vm → BitVec 64
  | kernelHeap, s => s.kernelHeapCur
  | userMmap, s => s.userMmapCur

/-- A store to it. -/
def setCur (s : Vm) (virt : BitVec 64) : VmArea → Vm
  | kernelHeap => { s with kernelHeapCur := virt }
  | userMmap => { s with userMmapCur := virt }

/-- The flags that its pages are mapped with. -/
def flags : VmArea → BitVec 64
  | kernelHeap => pagePresent ||| pageWritable
  | userMmap => pagePresent ||| pageWritable ||| pageUser

end VmArea

/-- `start + i * PAGE_SIZE`. -/
def pageAt (start : BitVec 64) (i : ℕ) : BitVec 64 := start + BitVec.ofNat 64 (i * pageSize)

/-- The loops that unmap the first `i` pages. -/
def rollback (s : Vm) (start : BitVec 64) (i : ℕ) : Vm :=
  (List.range i).foldl (fun s j => vmmUnmapPage s (pageAt start j)) s

/-- The loop over the pages, `i` of which are mapped, `n` to go: whether all have been. -/
def allocLoop (flags start : BitVec 64) : ℕ → ℕ → Vm → Bool × Vm
  | 0, _, s => (true, s)
  | n + 1, i, s =>
      match pmmAllocPage s.pmm with
      | (none, pmm) => (false, rollback { s with pmm } start i)
      | (some phys, pmm) =>
          match vmmMapPage { s with pmm } (pageAt start i) (BitVec.ofNat 64 phys) flags with
          | (virt, s) =>
              -- `NULL` is what address 0 looks like, too
              if virt.getD 0#64 = 0#64 then
                (false, rollback { s with pmm := pmmFreePage s.pmm phys } start i)
              else allocLoop flags start n (i + 1) s

/-- `vmm_alloc_pages` and `vmm_alloc_user_pages`, which differ in the area alone. -/
def allocPages (area : VmArea) (s : Vm) (count : ℕ) : Option (BitVec 64) × Vm :=
  let start := area.cur s
  match allocLoop area.flags start count 0 s with
  | (true, s) => (some start, VmArea.setCur s (pageAt start count) area)
  | (false, s) => (none, s)

/-- `vmm_alloc_pages`. -/
def vmmAllocPages : Vm → ℕ → Option (BitVec 64) × Vm := allocPages .kernelHeap

/-- `vmm_alloc_user_pages`. -/
def vmmAllocUserPages : Vm → ℕ → Option (BitVec 64) × Vm := allocPages .userMmap

end NTux.Mm
