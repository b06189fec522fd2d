import NTux.Mm.Allocation
import NTux.Lib.Runs

/-!
# Runs of the kernel heap

A run is any sequence of `kmalloc` and `kfree` calls, between which the owners of
live blocks write into them.  A call of `kmalloc` carries the answer of the page
allocator, which may refuse at any time and otherwise hands out pages apart from all
it handed out before (`HeapCallAllowed`).

`heapStep_inv` is the step: a call that fits leaves a heap whose blocks are laid out
apart, with the live ones among them.  Over a run it gives `kernel_heap_safe_along_run`.
The calls that do not fit break it: one that grows the heap in vain publishes the rest
of the bump area and goes on using it (`kernel_heap_growth_fails`).
-/

namespace NTux.Mm

open NTux.Lib

/-- A block in use: the pointer handed out and the size asked for. -/
structure HeapAlloc where
  ptr : Nat
  size : Nat
  deriving DecidableEq

/-- The header of a block in use. -/
def HeapAlloc.block (a : HeapAlloc) : Nat := a.ptr - blockHeader

/-- The payload of a block in use. -/
def HeapAlloc.payload (mem : Nat → Nat) (a : HeapAlloc) : Region := ⟨a.ptr, a.ptr + mem a.block⟩

/-- The heap with the blocks in use, the pages handed out to it, and whether every call
so far has returned. -/
structure HeapState where
  heap : KernelHeap
  live : List HeapAlloc
  pages : List Region
  returned : Bool

/-- A call, or a word written by the owner of a block. -/
inductive HeapAction
  | kmalloc (size : Nat) (chunk : Option Nat)
  | kfree (ptr : Nat)
  | store (addr value : Nat)

/-- The state after `kmalloc_init`. -/
def heapStart (mem : Nat → Nat) : HeapState := ⟨kmallocInit mem, [], [], true⟩

/-- One action. -/
def heapStep (s : HeapState) : HeapAction → HeapState
  | .kmalloc size chunk =>
      match kmalloc s.heap size chunk with
      | none => { s with returned := false }
      | some (ptr, heap) =>
          { heap := heap
            live := if ptr = 0 then s.live else ⟨ptr, size⟩ :: s.live
            pages := pagesAfter s.pages (kmallocAsks s.heap size) chunk
            returned := s.returned }
  | .kfree ptr =>
      match kfree s.heap ptr with
      | none => { s with returned := false }
      | some heap => { s with heap := heap, live := s.live.eraseP fun a => a.ptr == ptr }
  | .store addr value =>
      { s with heap := { s.heap with mem := Function.update s.heap.mem addr (wrap value) } }

/-- What callers and the page allocator may do: sizes are of type `size_t`, new pages
are fresh, only live pointers are freed, and only live payloads are written to. -/
def HeapCallAllowed (s : HeapState) : HeapAction → Prop
  | .kmalloc size chunk => size < 2 ^ 64 ∧
      ∀ n, kmallocAsks s.heap size = some n → ∀ c, chunk = some c → PagesFresh s.pages c n
  | .kfree ptr => ptr = 0 ∨ ∃ a ∈ s.live, a.ptr = ptr
  | .store addr _ => addr % 8 = 0 ∧ ∃ a ∈ s.live, a.ptr ≤ addr ∧ addr < a.ptr + a.size

/-- An allowed action that, if it is a call of `kmalloc`, fits. -/
def HeapCallFits (s : HeapState) (a : HeapAction) : Prop :=
  HeapCallAllowed s a ∧ ∀ size chunk, a = .kmalloc size chunk → KmallocFits s.heap size chunk

/-- The heap is safe: blocks in use are as large as was asked for, and apart from each
other, from the free blocks and from the bump area; the free list ends, and its blocks
are apart. -/
structure HeapSafe (s : HeapState) : Prop where
  returned : s.returned = true
  sized : ∀ a ∈ s.live, a.size ≤ s.heap.mem a.block
  payloads : s.live.Pairwise fun a b => (a.payload s.heap.mem).Apart (b.payload s.heap.mem)
  bump : ∀ a ∈ s.live, (a.payload s.heap.mem).Apart ⟨s.heap.heapCur, s.heap.heapEnd⟩
  freeList : ∃ free, Chain (nextOf s.heap.mem) (nodeOf s.heap.freeList) free ∧ free.Nodup ∧
    free.Pairwise (fun b c =>
      (blockAt s.heap.mem b).region.Apart (blockAt s.heap.mem c).region) ∧
    ∀ a ∈ s.live, ∀ b ∈ free, (a.payload s.heap.mem).Apart (blockAt s.heap.mem b).region

/-- The invariant of a run whose calls fit. -/
structure HeapInv (s : HeapState) : Prop where
  returned : s.returned = true
  shape : ∃ free, HeapShape s.heap free (s.live.map HeapAlloc.block) s.pages
  live : ∀ a ∈ s.live, a.ptr = a.block + blockHeader ∧ a.size ≤ s.heap.mem a.block

/-! ## One step -/

section Step

variable {s : HeapState}

theorem heapStart_inv (mem : Nat → Nat) : HeapInv (heapStart mem) := by
  refine ⟨rfl, ⟨[], rfl, ?_⟩, by simp [heapStart]⟩
  refine ⟨by simp [heapStart], ?_, by simp [heapStart], by simp [heapStart],
    by simp [heapStart, kmallocInit], by simp [heapStart, kmallocInit]⟩
  rintro r mem x ⟨lower, upper⟩
  obtain rfl : r = ⟨0, 0⟩ := by simpa [heapStart, kmallocInit] using mem
  exact absurd upper (Nat.not_lt_zero x)

theorem heapStep_kmalloc_inv (inv : HeapInv s) {size : Nat} {chunk : Option Nat}
    (fits : KmallocFits s.heap size chunk)
    (fresh : ∀ n, kmallocAsks s.heap size = some n → ∀ c, chunk = some c →
      PagesFresh s.pages c n) : HeapInv (heapStep s (.kmalloc size chunk)) := by
  obtain ⟨free, shape⟩ := inv.shape
  obtain ⟨ptr, h', free', others', call, shape', same, result⟩ := shape.kmalloc_ok fits fresh
  have kept : ∀ a ∈ s.live, a.ptr = a.block + blockHeader ∧ a.size ≤ h'.mem a.block := by
    intro a mem
    rw [same a.block (List.mem_map_of_mem mem)]
    exact inv.live a mem
  simp only [heapStep, call]
  rcases result with ⟨rfl, rfl⟩ | ⟨b, rfl, rfl, enough⟩
  · exact ⟨inv.returned, ⟨free', shape'⟩, kept⟩
  · have notNull : b + blockHeader ≠ 0 := by simp [blockHeader]
    have block : HeapAlloc.block ⟨b + blockHeader, size⟩ = b := Nat.add_sub_cancel ..
    rw [if_neg notNull]
    refine ⟨inv.returned, ⟨free', ?_⟩, fun a mem => ?_⟩
    · rw [List.map_cons, block]
      exact shape'
    · rcases List.mem_cons.1 mem with rfl | mem
      · rw [block]
        exact ⟨rfl, enough⟩
      · exact kept a mem

/-- Null is no block in use. -/
theorem HeapInv.erase_null (inv : HeapInv s) :
    s.live.eraseP (fun a => a.ptr == 0) = s.live := by
  refine List.eraseP_of_forall_not fun a mem => ?_
  have header := (inv.live a mem).1
  simp only [blockHeader] at header
  simp only [beq_iff_eq]
  omega

/-- A block in use that is freed is one of them, and the others stay in use. -/
theorem HeapInv.erase (inv : HeapInv s) {a₀ : HeapAlloc} (mem₀ : a₀ ∈ s.live) :
    ∃ b rest, s.live.eraseP (fun a => a.ptr == a₀.ptr) = rest ∧ a₀.ptr = b + blockHeader ∧
      (∀ a ∈ rest, a ∈ s.live) ∧
      (s.live.map HeapAlloc.block).Perm (b :: rest.map HeapAlloc.block) := by
  obtain ⟨a, L₁, L₂, -, found, split, erased⟩ :=
    List.exists_of_eraseP (p := fun a => a.ptr == a₀.ptr) mem₀ (by simp)
  have ptrEq : a.ptr = a₀.ptr := by simpa using found
  have memA : a ∈ s.live := by simp [split]
  refine ⟨a.block, L₁ ++ L₂, erased, ptrEq ▸ (inv.live a memA).1, fun b mem => ?_, ?_⟩
  · rw [split]
    simp only [List.mem_append, List.mem_cons] at mem ⊢
    tauto
  · rw [split]
    exact (List.perm_middle (a := a)).map HeapAlloc.block

theorem heapStep_kfree_inv (inv : HeapInv s) {ptr : Nat}
    (live : ptr = 0 ∨ ∃ a ∈ s.live, a.ptr = ptr) : HeapInv (heapStep s (.kfree ptr)) := by
  obtain ⟨free, shape⟩ := inv.shape
  rcases live with rfl | ⟨a₀, mem₀, rfl⟩
  · simp only [heapStep, kfree, if_pos, inv.erase_null]
    exact ⟨inv.returned, ⟨free, shape⟩, inv.live⟩
  · obtain ⟨b, rest, erased, ptr, sub, order⟩ := inv.erase mem₀
    obtain ⟨h', free', call, shape', same⟩ := (shape.perm_others order).kfree_ok
    rw [← ptr] at call
    simp only [heapStep, call, erased]
    refine ⟨inv.returned, ⟨free', shape'⟩, fun a mem => ?_⟩
    rw [same a.block (List.mem_map_of_mem mem)]
    exact inv.live a (sub a mem)

/-- A word written to the payload of a block in use is in no header. -/
theorem HeapInv.store_shape (inv : HeapInv s) {addr : Nat} {free : List Nat}
    (owned : ∃ a ∈ s.live, a.ptr ≤ addr ∧ addr < a.ptr + a.size) (value : Nat)
    (shape : HeapShape s.heap free (s.live.map HeapAlloc.block) s.pages) :
    HeapShape { s.heap with mem := Function.update s.heap.mem addr (wrap value) } free
        (s.live.map HeapAlloc.block) s.pages ∧
      ∀ c ∈ free ++ s.live.map HeapAlloc.block,
        Function.update s.heap.mem addr (wrap value) c = s.heap.mem c := by
  obtain ⟨a, mem, lower, upper⟩ := owned
  obtain ⟨header, enough⟩ := inv.live a mem
  have memA : a.block ∈ free ++ s.live.map HeapAlloc.block :=
    List.mem_append_right _ (List.mem_map_of_mem mem)
  have off : ∀ c ∈ free ++ s.live.map HeapAlloc.block, c ≠ addr ∧ c + 8 ≠ addr := by
    intro c memC
    rcases eq_or_ne a.block c with rfl | ne
    · simp only [blockHeader] at header
      omega
    · have apart := shape.apart_of_mem memA memC ne
      simp only [Region.apart_iff, Block.region, blockAt, blockHeader] at apart header
      omega
  have sizes : ∀ c ∈ free ++ s.live.map HeapAlloc.block,
      Function.update s.heap.mem addr (wrap value) c = s.heap.mem c := fun c memC =>
    Function.update_of_ne (off c memC).1 _ _
  have chain : Chain (nextOf (Function.update s.heap.mem addr (wrap value)))
      (nodeOf s.heap.freeList) free := by
    refine shape.chain.congr fun c memC => ?_
    rw [nextOf, blockNext, Function.update_of_ne (off c (List.mem_append_left _ memC)).2]
    rfl
  exact ⟨shape.of_sizes chain (List.Perm.refl _) ⟨rfl, rfl⟩ sizes, sizes⟩

theorem heapStep_store_inv (inv : HeapInv s) {addr value : Nat}
    (owned : ∃ a ∈ s.live, a.ptr ≤ addr ∧ addr < a.ptr + a.size) :
    HeapInv (heapStep s (.store addr value)) := by
  obtain ⟨free, shape⟩ := inv.shape
  obtain ⟨shape', sizes⟩ := inv.store_shape owned value shape
  refine ⟨inv.returned, ⟨free, shape'⟩, fun b memB => ?_⟩
  have same := sizes b.block (List.mem_append_right _ (List.mem_map_of_mem memB))
  simp only [heapStep, same]
  exact inv.live b memB

/-- **An action that fits keeps the invariant.** -/
theorem heapStep_inv (inv : HeapInv s) {a : HeapAction} (fits : HeapCallFits s a) :
    HeapInv (heapStep s a) := by
  cases a with
  | kmalloc size chunk => exact heapStep_kmalloc_inv inv (fits.2 size chunk rfl) fits.1.2
  | kfree ptr => exact heapStep_kfree_inv inv fits.1
  | store addr value => exact heapStep_store_inv inv fits.1.2

/-- A heap that meets the invariant is safe. -/
theorem HeapInv.safe (inv : HeapInv s) : HeapSafe s := by
  obtain ⟨free, shape⟩ := inv.shape
  have part : ∀ a ∈ s.live, (a.payload s.heap.mem).cells ⊆
      (blockAt s.heap.mem a.block).region.cells := by
    intro a mem x
    have header := (inv.live a mem).1
    simp only [HeapAlloc.payload, Region.mem_cells, Block.region, blockAt]
    omega
  have apart := (List.pairwise_cons.1 shape.layout.apart).2
  simp only [List.map_append, List.map_map] at apart
  obtain ⟨freeApart, liveApart, cross⟩ := List.pairwise_append.1 apart
  rw [List.pairwise_map] at freeApart liveApart
  refine ⟨inv.returned, fun a mem => (inv.live a mem).2, ?_, fun a mem => ?_,
    free, shape.chain, shape.chain.nodup, freeApart, fun a mem b memB => ?_⟩
  · refine liveApart.imp_of_mem fun {a b} memA memB away => ?_
    exact ((away.mono (part a memA)).symm.mono (part b memB)).symm
  · have away := shape.layout.apart_bump (b := blockAt s.heap.mem a.block)
      (List.mem_map_of_mem (List.mem_append_right _ (List.mem_map_of_mem mem)))
    exact away.symm.mono (part a mem)
  · have away := cross _ (List.mem_map_of_mem memB) _ (List.mem_map_of_mem mem)
    exact away.symm.mono (part a mem)

end Step

/-! ## Runs -/

/-- **The heap is safe after every run whose calls fit.** -/
theorem kernel_heap_safe_along_run (mem : Nat → Nat) (as : List HeapAction)
    (fits : AllSteps heapStep HeapCallFits (heapStart mem) as) :
    HeapSafe (run heapStep (heapStart mem) as) := by
  have keep : ∀ s a, HeapInv s → HeapCallFits s a → HeapInv (heapStep s a) :=
    fun _ _ inv fits => heapStep_inv inv fits
  exact (run_invariant keep (heapStart_inv mem) fits).safe

/-- A block is allocated on new pages, written to and freed. -/
theorem kernel_heap_safe_alloc_free :
    HeapSafe (run heapStep (heapStart fun _ => 0)
      [.kmalloc 24 (some 0x10000), .store 0x10010 7, .kfree 0x10010]) := by
  refine kernel_heap_safe_along_run _ _ ⟨⟨⟨by decide, ?_⟩, ?_⟩, ⟨⟨by decide, ?_⟩, ?_⟩,
    ⟨Or.inr ?_, ?_⟩, trivial⟩
  · rintro n asks c ⟨⟩
    obtain rfl : 16 = n := Option.some.inj asks
    exact ⟨by decide, by decide, by decide, by simp [heapStart]⟩
  · rintro size chunk ⟨⟩
    exact Or.inr ⟨by decide, Or.inr (Or.inr ⟨by decide, by decide, Or.inl (by decide)⟩)⟩
  · exact ⟨⟨0x10010, 24⟩, List.mem_singleton.2 rfl, by decide, by decide⟩
  · rintro size chunk ⟨⟩
  · exact ⟨⟨0x10010, 24⟩, List.mem_singleton.2 rfl, rfl⟩
  · rintro size chunk ⟨⟩

/-- After a vain attempt to grow, the next block lies in the bump area. -/
theorem kernel_heap_growth_fails :
    ¬ ∀ (mem : Nat → Nat) (as : List HeapAction),
      AllSteps heapStep HeapCallAllowed (heapStart mem) as →
        HeapSafe (run heapStep (heapStart mem) as) := by
  intro always
  have safe := always (fun _ => 0)
    [.kmalloc 8 (some 0x10000), .kmalloc 0x10000 none, .kmalloc 8 none] ⟨⟨by decide, ?_⟩,
      ⟨by decide, fun n _ c eq => by simp at eq⟩, ⟨by decide, fun n _ c eq => by simp at eq⟩,
      trivial⟩
  · have apart := safe.bump ⟨0x10028, 8⟩ (List.mem_cons_self ..)
    exact absurd (Region.apart_iff.1 apart) (by decide)
  · rintro n asks c ⟨⟩
    obtain rfl : 16 = n := Option.some.inj asks
    exact ⟨by decide, by decide, by decide, by simp [heapStart]⟩

end NTux.Mm
