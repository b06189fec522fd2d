import NTux.Mm.Kmalloc
import Mathlib.Data.List.Pairwise

/-!
# The layout of a heap of blocks

The geometry behind `kmalloc.c`, without its memory: blocks with a header and a
payload, and a bump area, are pairwise apart and lie in the pages handed out.  The
allocator changes a layout in four ways: it cuts a block off the bump area
(`HeapLayout.carve`), moves the bump area to new pages (`HeapLayout.refill`), splits
a block (`HeapLayout.split`) and lets a block absorb the one behind it
(`HeapLayout.absorb`).

Headers of blocks that are apart do not overlap (`HeapLayout.away`), so that writing
one leaves the others alone.
-/

namespace NTux.Mm

open NTux.Lib

/-- A block: the address of its header and the size of its payload. -/
structure Block where
  addr : Nat
  size : Nat

/-- The header and the payload of a block. -/
def Block.region (b : Block) : Region := ⟨b.addr, b.addr + blockHeader + b.size⟩

/-- The block whose header is at the address. -/
def blockAt (mem : Nat → Nat) (b : Nat) : Block := ⟨b, mem b⟩

/-- The blocks and the bump area are pairwise apart, aligned, and lie in the pages. -/
structure HeapLayout (bump : Region) (blocks : List Block) (pages : List Region) : Prop where
  apart : (bump :: blocks.map Block.region).Pairwise Region.Apart
  covered : ∀ r ∈ bump :: blocks.map Block.region, r.Covered pages
  bounded : ∀ p ∈ pages, 0 < p.start ∧ p.stop < 2 ^ 64
  aligned : ∀ b ∈ blocks, b.addr % 8 = 0 ∧ b.size % 8 = 0
  bumpAligned : bump.start % 8 = 0 ∧ bump.stop % 8 = 0
  bumpOrdered : bump.start ≤ bump.stop ∧ bump.stop < 2 ^ 64

namespace HeapLayout

variable {bump : Region} {blocks blocks' rest : List Block} {pages : List Region} {b c : Block}

theorem perm (layout : HeapLayout bump blocks pages) (same : blocks.Perm blocks') :
    HeapLayout bump blocks' pages where
  apart := (Region.pairwise_perm ((same.map _).cons _)).1 layout.apart
  covered := fun r mem => layout.covered r (((same.map _).cons _).mem_iff.2 mem)
  bounded := layout.bounded
  aligned := fun b mem => layout.aligned b (same.mem_iff.2 mem)
  bumpAligned := layout.bumpAligned
  bumpOrdered := layout.bumpOrdered

/-- A block lies between address `0` and the end of the address space. -/
theorem bounds (layout : HeapLayout bump blocks pages) (mem : b ∈ blocks) :
    0 < b.addr ∧ b.addr + blockHeader + b.size < 2 ^ 64 := by
  have covered := layout.covered b.region (List.mem_cons_of_mem _ (List.mem_map_of_mem mem))
  have nonempty : b.addr < b.addr + blockHeader + b.size := by
    simp only [blockHeader]
    omega
  obtain ⟨p, memP, first⟩ := covered b.addr ⟨le_rfl, nonempty⟩
  obtain ⟨q, memQ, last⟩ := covered (b.addr + b.size + 15) (by
    simp only [Region.mem_cells, Block.region, blockHeader]
    omega)
  have boundP := layout.bounded p memP
  have boundQ := layout.bounded q memQ
  simp only [Region.mem_cells] at first last
  simp only [blockHeader]
  omega

theorem apart_bump (layout : HeapLayout bump blocks pages) (mem : b ∈ blocks) :
    bump.Apart b.region :=
  Region.apart_of_pairwise layout.apart (List.mem_map_of_mem mem)

/-! ## Changes -/

/-- Some blocks and the bump area are replaced by others that take up no more room. -/
theorem replace {bump' : Region} {olds : List Block}
    (layout : HeapLayout bump (olds ++ rest) pages) (news : List Block)
    (apart : (bump' :: news.map Block.region).Pairwise Region.Apart)
    (covered : ∀ r ∈ bump' :: news.map Block.region,
      r.Covered (bump :: olds.map Block.region))
    (aligned : ∀ b ∈ news, b.addr % 8 = 0 ∧ b.size % 8 = 0)
    (bumpAligned : bump'.start % 8 = 0 ∧ bump'.stop % 8 = 0)
    (bumpOrdered : bump'.start ≤ bump'.stop ∧ bump'.stop < 2 ^ 64) :
    HeapLayout bump' (news ++ rest) pages where
  apart := by
    have old : ((bump :: olds.map Block.region) ++ rest.map Block.region).Pairwise
        Region.Apart := by simpa using layout.apart
    simpa using Region.pairwise_replace old apart covered
  covered := by
    have old : ∀ r ∈ bump :: olds.map Block.region, r.Covered pages := by
      intro r mem
      refine layout.covered r ?_
      simp only [List.map_append, List.mem_cons, List.mem_append] at mem ⊢
      tauto
    intro r mem
    simp only [List.map_append, ← List.cons_append, List.mem_append] at mem
    rcases mem with mem | mem
    · exact (covered r mem).join old
    · exact layout.covered r (by simp [mem])
  bounded := layout.bounded
  aligned := by
    intro b mem
    rcases List.mem_append.1 mem with mem | mem
    · exact aligned b mem
    · exact layout.aligned b (List.mem_append_right _ mem)
  bumpAligned := bumpAligned
  bumpOrdered := bumpOrdered

/-- A block too large for a request is split in two. -/
theorem split {a n size : Nat} (layout : HeapLayout bump (⟨a, n⟩ :: rest) pages)
    (fits : size + (blockHeader + 8) ≤ n) (aligned : size % 8 = 0) :
    HeapLayout bump
      (⟨a, size⟩ :: ⟨a + blockHeader + size, n - size - blockHeader⟩ :: rest) pages := by
  obtain ⟨alignedA, alignedN⟩ : a % 8 = 0 ∧ n % 8 = 0 := layout.aligned ⟨a, n⟩ (by simp)
  have apart := layout.apart_bump (b := ⟨a, n⟩) (by simp)
  have old : HeapLayout bump ([⟨a, n⟩] ++ rest) pages := layout
  simp only [Region.apart_iff, Block.region, blockHeader] at apart fits ⊢
  refine old.replace [_, _] ?_ ?_ ?_ layout.bumpAligned layout.bumpOrdered
  · simp only [List.map_cons, List.map_nil, List.pairwise_cons, List.mem_cons, List.not_mem_nil,
      or_false, forall_eq_or_imp, forall_eq, IsEmpty.forall_iff, implies_true, List.Pairwise.nil,
      and_true, Region.apart_iff, Block.region, blockHeader]
    omega
  · simp only [List.map_cons, List.map_nil, List.forall_mem_cons, List.not_mem_nil,
      IsEmpty.forall_iff, implies_true, and_true]
    refine ⟨Region.covered_of_mem (by simp), ?_, ?_⟩
    · exact Region.covered_of_le (s := Block.region ⟨a, n⟩) (by simp) le_rfl
        (by simp only [Block.region, blockHeader]; omega)
    · exact Region.covered_of_le (s := Block.region ⟨a, n⟩) (by simp)
        (by simp only [Block.region, blockHeader]; omega)
        (by simp only [Block.region, blockHeader]; omega)
  · simp only [List.forall_mem_cons, List.not_mem_nil, IsEmpty.forall_iff, implies_true, and_true]
    omega

/-- A block absorbs the one that starts where it ends. -/
theorem absorb {b m n : Nat}
    (layout : HeapLayout bump (⟨b, m⟩ :: ⟨b + blockHeader + m, n⟩ :: rest) pages) :
    HeapLayout bump (⟨b, m + (blockHeader + n)⟩ :: rest) pages := by
  have first := layout.apart_bump (b := ⟨b, m⟩) (by simp)
  have second := layout.apart_bump (b := ⟨b + blockHeader + m, n⟩) (by simp)
  obtain ⟨alignedB, alignedM⟩ : b % 8 = 0 ∧ m % 8 = 0 := layout.aligned ⟨b, m⟩ (by simp)
  obtain ⟨-, alignedN⟩ : (b + blockHeader + m) % 8 = 0 ∧ n % 8 = 0 :=
    layout.aligned ⟨b + blockHeader + m, n⟩ (by simp)
  have ordered := layout.bumpOrdered
  have old : HeapLayout bump ([⟨b, m⟩, ⟨b + blockHeader + m, n⟩] ++ rest) pages := layout
  simp only [Region.apart_iff, Block.region, blockHeader] at first second ⊢
  refine old.replace [_] ?_ ?_ ?_ layout.bumpAligned layout.bumpOrdered
  · simp only [List.map_cons, List.map_nil, List.pairwise_cons, List.mem_cons, List.not_mem_nil,
      or_false, forall_eq, IsEmpty.forall_iff, implies_true, List.Pairwise.nil, and_true,
      Region.apart_iff, Block.region, blockHeader]
    omega
  · simp only [List.map_cons, List.map_nil, List.forall_mem_cons, List.not_mem_nil,
      IsEmpty.forall_iff, implies_true, and_true]
    refine ⟨Region.covered_of_mem (by simp), ?_⟩
    exact Region.covered_of_adjacent (s := Block.region ⟨b, m⟩)
      (t := Block.region ⟨b + blockHeader + m, n⟩) (by simp) (by simp) le_rfl le_rfl
      (by simp only [Block.region, blockHeader]; omega)
  · simp only [List.forall_mem_cons, List.not_mem_nil, IsEmpty.forall_iff, implies_true, and_true]
    omega

/-- A block is cut off the bump area. -/
theorem carve {cur stop size : Nat} (layout : HeapLayout ⟨cur, stop⟩ blocks pages)
    (fits : cur + blockHeader + size ≤ stop) (aligned : size % 8 = 0) :
    HeapLayout ⟨cur + blockHeader + size, stop⟩ (⟨cur, size⟩ :: blocks) pages := by
  have alignedBump := layout.bumpAligned
  have ordered := layout.bumpOrdered
  have old : HeapLayout ⟨cur, stop⟩ ([] ++ blocks) pages := layout
  simp only [blockHeader] at fits alignedBump ordered ⊢
  refine old.replace [_] ?_ ?_ ?_ (by simp only; omega) (by simp only; omega)
  · simp only [List.map_cons, List.map_nil, List.pairwise_cons, List.mem_cons, List.not_mem_nil,
      or_false, forall_eq, IsEmpty.forall_iff, implies_true, List.Pairwise.nil, and_true,
      Region.apart_iff, Block.region, blockHeader]
    omega
  · simp only [List.map_cons, List.map_nil, List.forall_mem_cons, List.not_mem_nil,
      IsEmpty.forall_iff, implies_true, and_true]
    refine ⟨?_, ?_⟩
    · exact Region.covered_of_le (s := ⟨cur, stop⟩) (by simp) (by simp only; omega) le_rfl
    · exact Region.covered_of_le (s := ⟨cur, stop⟩) (by simp) le_rfl
        (by simp only [Block.region, blockHeader]; omega)
  · simp only [List.forall_mem_cons, List.not_mem_nil, IsEmpty.forall_iff, implies_true, and_true]
    omega

/-- The bump area moves to pages apart from those handed out so far. -/
theorem refill {chunk : Region} (layout : HeapLayout bump blocks pages)
    (fresh : ∀ p ∈ pages, p.Apart chunk) (aligned : chunk.start % 8 = 0 ∧ chunk.stop % 8 = 0)
    (ordered : 0 < chunk.start ∧ chunk.start ≤ chunk.stop ∧ chunk.stop < 2 ^ 64) :
    HeapLayout chunk blocks (chunk :: pages) where
  apart := by
    refine Region.pairwise_fresh (List.pairwise_cons.1 layout.apart).2 (fun r mem => ?_) fresh
    exact layout.covered r (List.mem_cons_of_mem _ mem)
  covered := by
    intro r mem
    rcases List.mem_cons.1 mem with rfl | mem
    · exact Region.covered_of_mem List.mem_cons_self
    · exact (layout.covered r (List.mem_cons_of_mem _ mem)).weaken (List.subset_cons_self _ _)
  bounded := by
    intro p mem
    rcases List.mem_cons.1 mem with rfl | mem
    · exact ⟨ordered.1, ordered.2.2⟩
    · exact layout.bounded p mem
  aligned := layout.aligned
  bumpAligned := aligned
  bumpOrdered := ordered.2

end HeapLayout

/-! ## The headers -/

/-- The headers at two addresses do not overlap. -/
def Away (a b : Nat) : Prop := a + blockHeader ≤ b ∨ b + blockHeader ≤ a

instance : Std.Symm Away := ⟨fun _ _ => Or.symm⟩

theorem HeapLayout.away {bump : Region} {blocks : List Block} {pages : List Region}
    (layout : HeapLayout bump blocks pages) : (blocks.map Block.addr).Pairwise Away := by
  have apart := (List.pairwise_cons.1 layout.apart).2
  rw [List.pairwise_map] at apart ⊢
  refine apart.imp fun {a b} away => ?_
  simp only [Region.apart_iff, Block.region, blockHeader, Away] at away ⊢
  omega

theorem away_of_mem {l : List Nat} (away : l.Pairwise Away) {a b : Nat} (memA : a ∈ l)
    (memB : b ∈ l) (ne : a ≠ b) : Away a b :=
  away.forall memA memB ne

section Headers

variable {mem : Nat → Nat} {l : List Nat} {a b : Nat}

@[simp] theorem setSize_self (mem : Nat → Nat) (b v : Nat) : setSize mem b v b = v :=
  Function.update_self ..

@[simp] theorem blockNext_setNext_self (mem : Nat → Nat) (b v : Nat) :
    blockNext (setNext mem b v) b = v :=
  Function.update_self ..

theorem setSize_of_away (away : Away a b) (v : Nat) : setSize mem a v b = mem b := by
  refine Function.update_of_ne ?_ _ _
  simp only [Away, blockHeader] at away
  omega

/-- Storing a successor changes no size. -/
theorem setNext_of_mem (away : l.Pairwise Away) (memA : a ∈ l) (memB : b ∈ l) (v : Nat) :
    setNext mem a v b = mem b := by
  refine Function.update_of_ne ?_ _ _
  rcases eq_or_ne a b with rfl | ne
  · omega
  · have apart := away_of_mem away memA memB ne
    simp only [Away, blockHeader] at apart
    omega

/-- Storing a size changes no successor. -/
theorem blockNext_setSize_of_mem (away : l.Pairwise Away) (memA : a ∈ l) (memB : b ∈ l)
    (v : Nat) : blockNext (setSize mem a v) b = blockNext mem b := by
  refine Function.update_of_ne ?_ _ _
  rcases eq_or_ne a b with rfl | ne
  · omega
  · have apart := away_of_mem away memA memB ne
    simp only [Away, blockHeader] at apart
    omega

end Headers

end NTux.Mm
