import NTux.Mm.FreeList

/-!
# Allocating from the kernel heap

What `kmalloc` does to a heap of a given shape, piece by piece: the first-fit search
finds the first block that is large enough or none is, the block found is taken off
the list, a block is cut off the bump area, and the bump area moves to new pages.

`kmalloc_ok` puts them together for the calls that `KmallocFits` describes: those
whose size arithmetic does not wrap around, and that do not publish the rest of the
bump area on the free list before new pages turn out not to be available.
-/

namespace NTux.Mm

open NTux.Lib

/-- Pages that `vmm_alloc_pages` may return: aligned, below the end of the address
space, and apart from those it handed out before. -/
structure PagesFresh (pages : List Region) (c n : Nat) : Prop where
  notNull : 0 < c
  aligned : c % pageSize = 0
  below : c + n * pageSize < 2 ^ 64
  apart : ∀ p ∈ pages, p.Apart ⟨c, c + n * pageSize⟩

/-- The pages handed out once a call asked for `asks` pages and got `chunk`. -/
def pagesAfter (pages : List Region) (asks chunk : Option Nat) : List Region :=
  match asks, chunk with
  | some n, some c => ⟨c, c + n * pageSize⟩ :: pages
  | _, _ => pages

/-- A block on the free list is large enough. -/
def FitsFree (h : KernelHeap) (size : Nat) : Prop :=
  ∃ free, Chain (nextOf h.mem) (nodeOf h.freeList) free ∧ ∃ b ∈ free, size ≤ h.mem b

/-- A call whose arithmetic does not wrap around, and that does not ask in vain for new
pages while the bump area has room for a block. -/
def KmallocFits (h : KernelHeap) (size : Nat) (chunk : Option Nat) : Prop :=
  size = 0 ∨ size + 7 < 2 ^ 64 ∧
    (FitsFree h (align8 size) ∨ h.heapCur + blockHeader + align8 size ≤ h.heapEnd ∨
      (h.heapCur + blockHeader + align8 size < 2 ^ 64 ∧
        blockHeader + align8 size + (pageSize - 1) < 2 ^ 64 ∧
        (h.heapEnd - h.heapCur < blockHeader + 8 ∨ chunk ≠ none)))

theorem align8_spec {size : Nat} (noWrap : size + 7 < 2 ^ 64) :
    size ≤ align8 size ∧ align8 size % 8 = 0 ∧ align8 size < 2 ^ 64 := by
  rw [align8, wrap, Nat.mod_eq_of_lt noWrap]
  omega

theorem align8_of_aligned {x : Nat} (aligned : x % 8 = 0) (below : x < 2 ^ 64) :
    align8 x = x := by
  have noWrap : x + 7 < 2 ^ 64 := by omega
  rw [align8, wrap, Nat.mod_eq_of_lt noWrap]
  omega

namespace HeapShape

variable {h : KernelHeap} {free others l₁ l₂ : List Nat} {pages : List Region} {a size : Nat}

/-! ## The free list -/

/-- The search finds the first block of the list that is large enough. -/
theorem search_cases {mem : Nat → Nat} {l : List Nat} {p fuel : Nat} (size : Nat)
    (prev : Option Nat) (chain : Chain (nextOf mem) (nodeOf p) l) (enough : l.length < fuel) :
    (kmallocSearch mem size fuel prev p = .exhausted ∧ ∀ b ∈ l, mem b < size) ∨
      ∃ l₁ a l₂, l = l₁ ++ a :: l₂ ∧ size ≤ mem a ∧
        kmallocSearch mem size fuel prev p = .found (l₁.getLast?.or prev) a := by
  induction l generalizing p fuel prev with
  | nil =>
      obtain ⟨fuel, rfl⟩ := Nat.exists_eq_succ_of_ne_zero (by omega : fuel ≠ 0)
      obtain rfl := nodeOf_eq_none.1 chain
      exact Or.inl ⟨by simp [kmallocSearch], by simp⟩
  | cons c l ih =>
      obtain ⟨fuel, rfl⟩ := Nat.exists_eq_succ_of_ne_zero (by omega : fuel ≠ 0)
      obtain ⟨start, rest_chain⟩ := chain
      obtain ⟨rfl, notNull⟩ := nodeOf_eq_some.1 start
      by_cases large : size ≤ mem p
      · exact Or.inr ⟨[], p, l, rfl, large, by simp [kmallocSearch, notNull, large]⟩
      · have step : ∀ q, kmallocSearch mem size (fuel + 1) q p =
            kmallocSearch mem size fuel (some p) (blockNext mem p) := fun q => by
          rw [kmallocSearch, if_neg notNull, if_neg large]
        rw [step]
        rcases ih (some p) rest_chain (by simpa using enough) with ⟨none, small⟩ | found
        · refine Or.inl ⟨none, fun b mem => ?_⟩
          rcases List.mem_cons.1 mem with rfl | mem
          · exact Nat.lt_of_not_le large
          · exact small b mem
        · obtain ⟨l₁, a, l₂, rfl, fits, eq⟩ := found
          refine Or.inr ⟨p :: l₁, a, l₂, rfl, fits, ?_⟩
          rw [eq, List.getLast?_cons]
          cases l₁.getLast? <;> rfl

/-- The block found is taken off the list whole. -/
theorem takeWhole (shape : HeapShape h (l₁ ++ a :: l₂) others pages) :
    HeapShape (h.storePrev l₁.getLast? (blockNext h.mem a)) (l₁ ++ l₂) (a :: others) pages ∧
      ∀ c ∈ l₁ ++ a :: l₂ ++ others,
        (h.storePrev l₁.getLast? (blockNext h.mem a)).mem c = h.mem c := by
  have last : ∀ p ∈ l₁.getLast?, p ∈ l₁ ++ a :: l₂ ++ others := fun p mem => by
    simp [List.mem_of_getLast? mem]
  have sizes : ∀ c ∈ l₁ ++ a :: l₂ ++ others,
      (h.storePrev l₁.getLast? (blockNext h.mem a)).mem c = h.mem c := fun c mem =>
    h.storePrev_of_mem _ _ shape.away last mem
  refine ⟨shape.of_sizes ?_ ?_ ?_ sizes, sizes⟩
  · rw [KernelHeap.nextOf_storePrev, KernelHeap.nodeOf_storePrev]
    exact shape.chain.bypass
  · simp only [List.append_assoc, List.cons_append]
    exact List.Perm.append_left _ List.perm_middle.symm
  · exact ⟨KernelHeap.storePrev_heapCur .., KernelHeap.storePrev_heapEnd ..⟩

section Split

variable {sp : Nat} (away : (a :: sp :: (l₁ ++ l₂ ++ others)).Pairwise Away)
  (splitAt : wrap (a + blockHeader + size) = sp) (room : blockHeader + 8 ≤ h.mem a - size)
include away splitAt room

/-- The sizes in memory after the block `a` was split at `sp`. -/
theorem takeSplit_sizes :
    (kmallocTake h size l₁.getLast? a).mem a = size ∧
      (kmallocTake h size l₁.getLast? a).mem sp = h.mem a - size - blockHeader ∧
      ∀ c ∈ l₁ ++ l₂ ++ others, (kmallocTake h size l₁.getLast? a).mem c = h.mem c := by
  have distinct : (a :: sp :: (l₁ ++ l₂ ++ others)).Nodup := away.imp fun {b c} away => by
    simp only [Away, blockHeader] at away
    omega
  have memA : a ∈ a :: sp :: (l₁ ++ l₂ ++ others) := by simp
  have memS : sp ∈ a :: sp :: (l₁ ++ l₂ ++ others) := by simp
  have within : ∀ c ∈ l₁ ++ l₂ ++ others, c ∈ a :: sp :: (l₁ ++ l₂ ++ others) := fun c mem =>
    List.mem_cons_of_mem _ (List.mem_cons_of_mem _ mem)
  have last : ∀ p ∈ l₁.getLast?, p ∈ a :: sp :: (l₁ ++ l₂ ++ others) := fun p mem =>
    within p (by simp [List.mem_of_getLast? mem])
  -- the successors written before the last step leave every size alone
  have stored : ∀ mem₁ : Nat → Nat, ∀ c ∈ a :: sp :: (l₁ ++ l₂ ++ others),
      (({ h with mem := setNext mem₁ sp (blockNext mem₁ a) } : KernelHeap).storePrev
        l₁.getLast? sp).mem c = mem₁ c := by
    intro mem₁ c mem
    rw [KernelHeap.storePrev_of_mem _ _ _ away last mem]
    exact setNext_of_mem away memS mem _
  simp only [kmallocTake, if_pos room, splitAt]
  refine ⟨setSize_self .., ?_, fun c mem => ?_⟩
  · rw [setSize_of_away (away_of_mem away memA memS (by grind)), stored _ sp memS, setSize_self]
  · have neA : a ≠ c := by grind
    have neS : sp ≠ c := by grind
    rw [setSize_of_away (away_of_mem away memA (within c mem) neA), stored _ c (within c mem),
      setSize_of_away (away_of_mem away memS (within c mem) neS)]

/-- The free list after the block `a` was split at `sp`. -/
theorem takeSplit_chain (notNull : sp ≠ 0)
    (chain : Chain (nextOf h.mem) (nodeOf h.freeList) (l₁ ++ a :: l₂)) :
    Chain (nextOf (kmallocTake h size l₁.getLast? a).mem)
      (nodeOf (kmallocTake h size l₁.getLast? a).freeList) (l₁ ++ sp :: l₂) := by
  have memA : a ∈ a :: sp :: (l₁ ++ l₂ ++ others) := by simp
  have memS : sp ∈ a :: sp :: (l₁ ++ l₂ ++ others) := by simp
  have within : ∀ c ∈ l₁ ++ a :: l₂, c ∈ a :: sp :: (l₁ ++ l₂ ++ others) := fun c mem => by
    simp only [List.mem_append, List.mem_cons] at mem ⊢
    tauto
  have new : sp ∉ l₁ ++ a :: l₂ := by
    have distinct : (a :: sp :: (l₁ ++ l₂ ++ others)).Nodup := away.imp fun {b c} away => by
      simp only [Away, blockHeader] at away
      omega
    simp only [List.nodup_cons, List.mem_append, List.mem_cons] at distinct ⊢
    tauto
  set mem₁ := setSize h.mem sp (h.mem a - size - blockHeader) with mem₁Eq
  set mem₂ := setNext mem₁ sp (blockNext mem₁ a) with mem₂Eq
  have next₁ : ∀ c ∈ l₁ ++ a :: l₂, nextOf mem₁ c = nextOf h.mem c := fun c mem => by
    rw [nextOf, mem₁Eq, blockNext_setSize_of_mem away memS (within c mem), nextOf]
  have next₂ : ∀ c ∈ l₁ ++ a :: l₂, nextOf mem₂ c = nextOf h.mem c := fun c mem => by
    have ne : c ≠ sp := by
      rintro rfl
      exact new mem
    rw [mem₂Eq, nextOf_setNext, Function.update_of_ne ne, next₁ c mem]
  have link : nextOf mem₂ sp = nextOf h.mem a := by
    rw [mem₂Eq, nextOf_setNext, Function.update_self]
    exact next₁ a (by simp)
  have rest : Chain (nextOf mem₂) (some sp) (sp :: l₂) := by
    refine ⟨rfl, ?_⟩
    rw [link]
    exact chain.tail_of_append.congr fun c mem => next₂ c (by simp [mem])
  have spliced := (chain.congr next₂).splice rest fun b last mem => by
    have memB := List.mem_of_getLast? last
    rcases List.mem_cons.1 mem with rfl | mem
    · exact new (by simp [memB])
    · exact (List.nodup_append.1 chain.nodup).2.2 b memB b (by simp [mem]) rfl
  simp only [kmallocTake, if_pos room, splitAt, ← mem₁Eq, ← mem₂Eq]
  rw [KernelHeap.nodeOf_storePrev, nodeOf_of_ne notNull]
  refine spliced.congr fun c mem => ?_
  have memC : c ∈ a :: sp :: (l₁ ++ l₂ ++ others) := by
    simp only [List.mem_append, List.mem_cons] at mem ⊢
    tauto
  rw [nextOf, blockNext_setSize_of_mem away memA memC, ← nextOf, KernelHeap.nextOf_storePrev,
    nodeOf_of_ne notNull]

end Split

/-- The block found is cut to size, and its end stays on the list in its place. -/
theorem takeSplit (shape : HeapShape h (l₁ ++ a :: l₂) others pages)
    (room : size + (blockHeader + 8) ≤ h.mem a) (aligned : size % 8 = 0) :
    HeapShape (kmallocTake h size l₁.getLast? a) (l₁ ++ (a + blockHeader + size) :: l₂)
        (a :: others) pages ∧
      (∀ c ∈ l₁ ++ l₂ ++ others, (kmallocTake h size l₁.getLast? a).mem c = h.mem c) ∧
      (kmallocTake h size l₁.getLast? a).mem a = size ∧
      (kmallocTake h size l₁.getLast? a).mem (a + blockHeader + size) =
        h.mem a - size - blockHeader := by
  have bound := shape.bounds (b := a) (by simp)
  have splitAt : wrap (a + blockHeader + size) = a + blockHeader + size := by
    refine Nat.mod_eq_of_lt ?_
    simp only [blockHeader] at bound room ⊢
    omega
  have large : blockHeader + 8 ≤ h.mem a - size := by omega
  have front : (l₁ ++ a :: l₂ ++ others).Perm (a :: (l₁ ++ l₂ ++ others)) := by
    simp only [List.append_assoc, List.cons_append]
    exact List.perm_middle
  have layout := (shape.layout.perm (front.map (blockAt h.mem))).split room aligned
  have away : (a :: (a + blockHeader + size) :: (l₁ ++ l₂ ++ others)).Pairwise Away := by
    have apart := layout.away
    rwa [List.map_cons, List.map_cons, List.map_map,
      show Block.addr ∘ blockAt h.mem = id from rfl, List.map_id] at apart
  obtain ⟨sizeA, sizeS, sizes⟩ := takeSplit_sizes away splitAt large
  have notNull : a + blockHeader + size ≠ 0 := by omega
  refine ⟨⟨takeSplit_chain away splitAt large notNull shape.chain, ?_⟩,
    sizes, sizeA, sizeS⟩
  have back : (a :: (a + blockHeader + size) :: (l₁ ++ l₂ ++ others)).Perm
      (l₁ ++ (a + blockHeader + size) :: l₂ ++ a :: others) := by
    refine List.perm_iff_count.2 fun c => ?_
    simp only [List.count_append, List.count_cons]
    omega
  have blocks : (a :: (a + blockHeader + size) :: (l₁ ++ l₂ ++ others)).map
      (blockAt (kmallocTake h size l₁.getLast? a).mem) =
      ⟨a, size⟩ :: ⟨a + blockHeader + size, h.mem a - size - blockHeader⟩ ::
        (l₁ ++ l₂ ++ others).map (blockAt h.mem) := by
    rw [List.map_cons, List.map_cons, blockAt, blockAt, sizeA, sizeS, map_blockAt_congr sizes]
  have bump : (kmallocTake h size l₁.getLast? a).heapCur = h.heapCur ∧
      (kmallocTake h size l₁.getLast? a).heapEnd = h.heapEnd := by
    simp only [kmallocTake, if_pos large, KernelHeap.storePrev_heapCur,
      KernelHeap.storePrev_heapEnd, and_self]
  rw [bump.1, bump.2]
  exact layout.perm (blocks ▸ back.map (blockAt (kmallocTake h size l₁.getLast? a).mem))

/-- **The block found becomes one in use.** -/
theorem take (shape : HeapShape h (l₁ ++ a :: l₂) others pages) (fits : size ≤ h.mem a)
    (aligned : size % 8 = 0) :
    ∃ free', HeapShape (kmallocTake h size l₁.getLast? a) free' (a :: others) pages ∧
      (∀ c ∈ others, (kmallocTake h size l₁.getLast? a).mem c = h.mem c) ∧
      size ≤ (kmallocTake h size l₁.getLast? a).mem a := by
  by_cases room : blockHeader + 8 ≤ h.mem a - size
  · obtain ⟨shape', same, sizeA, -⟩ := shape.takeSplit (by omega) aligned
    exact ⟨_, shape', fun c mem => same c (List.mem_append_right _ mem), sizeA.ge⟩
  · obtain ⟨shape', same⟩ := shape.takeWhole
    rw [kmallocTake, if_neg room]
    exact ⟨_, shape', fun c mem => same c (by simp [mem]),
      (same a (by simp)).symm ▸ fits⟩

/-! ## The bump area -/

theorem align8_heapCur (shape : HeapShape h free others pages) : align8 h.heapCur = h.heapCur := by
  have ordered := shape.layout.bumpOrdered
  exact align8_of_aligned shape.layout.bumpAligned.1 (lt_of_le_of_lt ordered.1 ordered.2)

theorem bumpNeed_eq (shape : HeapShape h free others pages)
    (noWrap : h.heapCur + blockHeader + size < 2 ^ 64) :
    bumpNeed h size = h.heapCur + blockHeader + size := by
  rw [bumpNeed, shape.align8_heapCur, wrap, Nat.mod_eq_of_lt noWrap]

/-- A header written at the start of the bump area. -/
theorem carve_mem (shape : HeapShape h free others pages)
    (layout : HeapLayout ⟨h.heapCur + blockHeader + size, h.heapEnd⟩
      (⟨h.heapCur, size⟩ :: (free ++ others).map (blockAt h.mem)) pages) :
    (h.heapCur :: (free ++ others)).Pairwise Away ∧
      (∀ c ∈ free ++ others, setSize h.mem h.heapCur size c = h.mem c) ∧
      Chain (nextOf (setSize h.mem h.heapCur size)) (nodeOf h.freeList) free := by
  have away : (h.heapCur :: (free ++ others)).Pairwise Away := by
    have apart := layout.away
    rwa [List.map_cons, List.map_map, show Block.addr ∘ blockAt h.mem = id from rfl,
      List.map_id] at apart
  refine ⟨away, fun c mem => setSize_of_away (List.rel_of_pairwise_cons away mem) size, ?_⟩
  refine shape.chain.congr fun c mem => ?_
  rw [nextOf, blockNext_setSize_of_mem away (by simp) (by simp [mem]), nextOf]

/-- A block is cut off the bump area. -/
theorem bump (shape : HeapShape h free others pages)
    (fits : h.heapCur + blockHeader + size ≤ h.heapEnd) (aligned : size % 8 = 0) :
    (kmallocBump h size).1 = h.heapCur + blockHeader ∧
      HeapShape (kmallocBump h size).2 free (h.heapCur :: others) pages ∧
      (∀ c ∈ free ++ others, (kmallocBump h size).2.mem c = h.mem c) ∧
      (kmallocBump h size).2.mem h.heapCur = size := by
  have below := shape.layout.bumpOrdered.2
  dsimp only at below
  have layout := shape.layout.carve fits aligned
  obtain ⟨-, same, chain⟩ := shape.carve_mem layout
  have need : bumpNeed h size = h.heapCur + blockHeader + size :=
    shape.bumpNeed_eq (by omega)
  have ptr : wrap (h.heapCur + blockHeader) = h.heapCur + blockHeader :=
    Nat.mod_eq_of_lt (by omega)
  simp only [kmallocBump, shape.align8_heapCur, need, ptr]
  refine ⟨trivial, ⟨chain, ?_⟩, same, setSize_self ..⟩
  have blocks : (h.heapCur :: (free ++ others)).map (blockAt (setSize h.mem h.heapCur size)) =
      ⟨h.heapCur, size⟩ :: (free ++ others).map (blockAt h.mem) := by
    rw [List.map_cons, blockAt, setSize_self, map_blockAt_congr same]
  have back : (h.heapCur :: (free ++ others)).Perm (free ++ h.heapCur :: others) :=
    List.perm_middle.symm
  exact layout.perm (blocks ▸ back.map (blockAt (setSize h.mem h.heapCur size)))

theorem remaining_eq (shape : HeapShape h free others pages) :
    wrap (h.heapEnd + 2 ^ 64 - h.heapCur) = h.heapEnd - h.heapCur := by
  have ordered := shape.layout.bumpOrdered
  simp only [wrap] at ordered ⊢
  omega

/-- The rest of the bump area is left alone if it is too small for a block. -/
theorem addRemaining_small (shape : HeapShape h free others pages)
    (small : ¬ blockHeader + 8 ≤ h.heapEnd - h.heapCur) : addRemainingBumpToFreeList h = h := by
  simp only [addRemainingBumpToFreeList, shape.remaining_eq, if_neg small]

/-- Otherwise it becomes the first block of the free list. -/
theorem addRemaining_large (shape : HeapShape h free others pages)
    (room : blockHeader + 8 ≤ h.heapEnd - h.heapCur) :
    Chain (nextOf (addRemainingBumpToFreeList h).mem)
        (nodeOf (addRemainingBumpToFreeList h).freeList) (h.heapCur :: free) ∧
      HeapLayout
        ⟨h.heapCur + blockHeader + (h.heapEnd - h.heapCur - blockHeader), h.heapEnd⟩
        ((h.heapCur :: free ++ others).map (blockAt (addRemainingBumpToFreeList h).mem)) pages ∧
      (addRemainingBumpToFreeList h).mem h.heapCur = h.heapEnd - h.heapCur - blockHeader ∧
      ∀ c ∈ free ++ others, (addRemainingBumpToFreeList h).mem c = h.mem c := by
  simp only [addRemainingBumpToFreeList, shape.remaining_eq, if_pos room]
  have aligned := shape.layout.bumpAligned
  have fits : h.heapCur + blockHeader + (h.heapEnd - h.heapCur - blockHeader) ≤ h.heapEnd := by
    omega
  have layout := shape.layout.carve fits (by simp only [blockHeader] at aligned ⊢; omega)
  obtain ⟨away, same, chain⟩ := shape.carve_mem layout
  have notNull : h.heapCur ≠ 0 := (layout.bounds (b := ⟨h.heapCur, _⟩) List.mem_cons_self).1.ne'
  have sizes : ∀ c ∈ h.heapCur :: (free ++ others), ∀ v,
      setNext (setSize h.mem h.heapCur v) h.heapCur h.freeList c =
        setSize h.mem h.heapCur v c := fun c mem v =>
    setNext_of_mem away List.mem_cons_self mem _
  refine ⟨?_, ?_, ?_, fun c mem => ?_⟩
  · rw [nodeOf_of_ne notNull, nextOf_setNext]
    refine ⟨rfl, ?_⟩
    rw [Function.update_self]
    refine chain.congr fun c mem => Function.update_of_ne ?_ _ _
    rintro rfl
    have apart := List.rel_of_pairwise_cons away (List.mem_append_left others mem)
    simp only [Away, blockHeader] at apart
    omega
  · rw [List.cons_append, List.map_cons, blockAt, sizes _ List.mem_cons_self, setSize_self,
      map_blockAt_congr fun c mem => (sizes c (List.mem_cons_of_mem _ mem) _).trans (same c mem)]
    exact layout
  · rw [sizes _ List.mem_cons_self, setSize_self]
  · rw [sizes c (List.mem_cons_of_mem _ mem), same c mem]

/-- The rest of the bump area goes on the free list, unless it is too small. -/
theorem addRemaining (shape : HeapShape h free others pages) :
    ∃ free', ∃ bump : Region,
      Chain (nextOf (addRemainingBumpToFreeList h).mem)
        (nodeOf (addRemainingBumpToFreeList h).freeList) free' ∧
      HeapLayout bump ((free' ++ others).map (blockAt (addRemainingBumpToFreeList h).mem)) pages ∧
      ∀ c ∈ others, (addRemainingBumpToFreeList h).mem c = h.mem c := by
  by_cases room : blockHeader + 8 ≤ h.heapEnd - h.heapCur
  · obtain ⟨chain, layout, -, sizes⟩ := shape.addRemaining_large room
    exact ⟨_, _, chain, layout, fun c mem => sizes c (List.mem_append_right _ mem)⟩
  · rw [shape.addRemaining_small room]
    exact ⟨free, _, shape.chain, shape.layout, fun _ _ => rfl⟩

/-- The bump area is put on fresh pages; stated for any heap, so that the state left by
`add_remaining_bump_to_free_list` is not computed when states are compared. -/
theorem moveBump {bump : Region} {c stop : Nat}
    (chain : Chain (nextOf h.mem) (nodeOf h.freeList) free)
    (layout : HeapLayout bump ((free ++ others).map (blockAt h.mem)) pages)
    (fresh : ∀ p ∈ pages, p.Apart ⟨c, stop⟩) (aligned : c % 8 = 0 ∧ stop % 8 = 0)
    (ordered : 0 < c ∧ c ≤ stop ∧ stop < 2 ^ 64) :
    HeapShape { h with heapCur := c, heapEnd := stop } free others (⟨c, stop⟩ :: pages) ∧
      ({ h with heapCur := c, heapEnd := stop } : KernelHeap).mem = h.mem ∧
      ({ h with heapCur := c, heapEnd := stop } : KernelHeap).freeList = h.freeList :=
  ⟨⟨chain, layout.refill fresh aligned ordered⟩, rfl, rfl⟩

theorem growHeap_some (h : KernelHeap) (minBytes c : Nat) : growHeap h minBytes (some c) =
    (true, { addRemainingBumpToFreeList h with
      heapCur := c
      heapEnd := wrap (c + wrap (growPages minBytes * pageSize)) }) := rfl

/-- The bump area moves to new pages. -/
theorem grow (shape : HeapShape h free others pages) {minBytes c : Nat}
    (fresh : PagesFresh pages c (growPages minBytes)) :
    ∃ h' free', growHeap h minBytes (some c) = (true, h') ∧
      HeapShape h' free' others (⟨c, c + growPages minBytes * pageSize⟩ :: pages) ∧
      h'.heapCur = c ∧ h'.heapEnd = c + growPages minBytes * pageSize ∧
      h'.mem = (addRemainingBumpToFreeList h).mem ∧
      h'.freeList = (addRemainingBumpToFreeList h).freeList ∧
      ∀ b ∈ others, h'.mem b = h.mem b := by
  obtain ⟨free', bump, chain, layout, same⟩ := shape.addRemaining
  have below := fresh.below
  have pagesWrap : wrap (growPages minBytes * pageSize) = growPages minBytes * pageSize :=
    Nat.mod_eq_of_lt (by omega)
  have endWrap : wrap (c + growPages minBytes * pageSize) = c + growPages minBytes * pageSize :=
    Nat.mod_eq_of_lt below
  have alignedC : c % 8 = 0 := by
    have aligned := fresh.aligned
    simp only [pageSize] at aligned
    omega
  have alignedEnd : (c + growPages minBytes * pageSize) % 8 = 0 := by
    simp only [pageSize]
    omega
  have moved := growHeap_some h minBytes c
  rw [pagesWrap, endWrap] at moved
  obtain ⟨shape', memMoved, listMoved⟩ := moveBump chain layout fresh.apart ⟨alignedC, alignedEnd⟩
    ⟨fresh.notNull, Nat.le_add_right _ _, below⟩
  refine ⟨_, free', moved, shape', rfl, rfl, memMoved, listMoved, fun b mem => ?_⟩
  exact (congrFun memMoved b).trans (same b mem)

/-- The pages asked for make room for the block. -/
theorem grow_room {minBytes : Nat} (noWrap : minBytes + (pageSize - 1) < 2 ^ 64) :
    minBytes ≤ growPages minBytes * pageSize := by
  have enough : minBytes ≤ (minBytes + (pageSize - 1)) / pageSize * pageSize := by
    simp only [pageSize]
    omega
  rw [growPages, wrap, Nat.mod_eq_of_lt noWrap]
  exact enough.trans (Nat.mul_le_mul_right _ (le_max_left _ _))

/-- How the part of `kmalloc` after an unsuccessful search ends, for a size that was rounded:
a block is cut off the bump area, or off new pages, or the pages are refused. -/
inductive BumpEnd (h : KernelHeap) (size : Nat) (chunk : Option Nat) (pages : List Region) : Prop
  | room (fits : h.heapCur + blockHeader + size ≤ h.heapEnd)
      (stays : ¬ h.heapEnd < bumpNeed h size)
      (call : kmallocFromBump h size chunk = kmallocBump h size)
  | refused (none : chunk = none) (small : ¬ blockHeader + 8 ≤ h.heapEnd - h.heapCur)
      (call : kmallocFromBump h size chunk = (0, h))
  | grown (c : Nat) (some : chunk = some c) (grows : h.heapEnd < bumpNeed h size)
      (bytes : wrap (blockHeader + size) = blockHeader + size)
      (fresh : PagesFresh pages c (growPages (blockHeader + size)))
      (large : blockHeader + size ≤ growPages (blockHeader + size) * pageSize)

theorem kmallocFromBump_cases (shape : HeapShape h free others pages) {chunk : Option Nat}
    (fits : h.heapCur + blockHeader + size ≤ h.heapEnd ∨
      (h.heapCur + blockHeader + size < 2 ^ 64 ∧
        blockHeader + size + (pageSize - 1) < 2 ^ 64 ∧
        (h.heapEnd - h.heapCur < blockHeader + 8 ∨ chunk ≠ none)))
    (fresh : h.heapEnd < bumpNeed h size → ∀ c, chunk = some c →
      PagesFresh pages c (growPages (wrap (blockHeader + size)))) :
    BumpEnd h size chunk pages := by
  have below := shape.layout.bumpOrdered.2
  dsimp only at below
  have need : bumpNeed h size = h.heapCur + blockHeader + size :=
    shape.bumpNeed_eq (by omega)
  by_cases room : h.heapCur + blockHeader + size ≤ h.heapEnd
  · have stays : ¬ h.heapEnd < bumpNeed h size := by omega
    refine .room room stays ?_
    rw [kmallocFromBump, if_neg stays]
  · obtain ⟨noWrap, noWrapPages, refused⟩ := fits.resolve_left room
    have grows : h.heapEnd < bumpNeed h size := by omega
    have bytes : wrap (blockHeader + size) = blockHeader + size := Nat.mod_eq_of_lt (by omega)
    cases chunk with
    | none =>
        have small : ¬ blockHeader + 8 ≤ h.heapEnd - h.heapCur := by simpa using refused
        refine .refused rfl small ?_
        rw [kmallocFromBump, if_pos grows, growHeap, shape.addRemaining_small small]
    | some c =>
        exact .grown c rfl grows bytes (bytes ▸ fresh grows c rfl) (grow_room noWrapPages)

/-- Once the heap has grown, the block is cut off the new pages. -/
theorem kmallocFromBump_grown {h' : KernelHeap} {free' : List Nat} {pages' : List Region} {c : Nat}
    (shape' : HeapShape h' free' others pages')
    (grows : h.heapEnd < bumpNeed h size)
    (bytes : wrap (blockHeader + size) = blockHeader + size)
    (eq : growHeap h (blockHeader + size) (some c) = (true, h'))
    (room : h'.heapCur + blockHeader + size ≤ h'.heapEnd) :
    kmallocFromBump h size (some c) = kmallocBump h' size := by
  have below := shape'.layout.bumpOrdered.2
  dsimp only at below
  have need : bumpNeed h' size = h'.heapCur + blockHeader + size :=
    shape'.bumpNeed_eq (by omega)
  rw [kmallocFromBump, if_pos grows, bytes, eq]
  dsimp only
  rw [need, if_neg (Nat.not_lt.2 room)]

/-- How a call of `kmalloc` ends: nothing is asked for, the first block that is large enough is
taken, or there is none. -/
inductive KmallocEnd (h : KernelHeap) (free : List Nat) (size : Nat) (chunk : Option Nat) : Prop
  | nothing (call : kmalloc h size chunk = some (0, h)) (asks : kmallocAsks h size = none)
  | taken (noWrap : size + 7 < 2 ^ 64) (l₁ : List Nat) (a : Nat) (l₂ : List Nat) (list : free = l₁ ++ a :: l₂)
      (fits : align8 size ≤ h.mem a)
      (call : kmalloc h size chunk =
        some (a + blockHeader, kmallocTake h (align8 size) l₁.getLast? a))
      (asks : kmallocAsks h size = none)
  | exhausted (noWrap : size + 7 < 2 ^ 64)
      (fits : h.heapCur + blockHeader + align8 size ≤ h.heapEnd ∨
        (h.heapCur + blockHeader + align8 size < 2 ^ 64 ∧
          blockHeader + align8 size + (pageSize - 1) < 2 ^ 64 ∧
          (h.heapEnd - h.heapCur < blockHeader + 8 ∨ chunk ≠ none)))
      (call : kmalloc h size chunk = some (kmallocFromBump h (align8 size) chunk))
      (asks : kmallocAsks h size = if h.heapEnd < bumpNeed h (align8 size) then
        some (growPages (wrap (blockHeader + align8 size))) else none)

theorem kmalloc_cases (shape : HeapShape h free others pages) {chunk : Option Nat}
    (fits : KmallocFits h size chunk) : KmallocEnd h free size chunk := by
  by_cases zero : size = 0
  · exact .nothing (by rw [kmalloc, if_pos zero]) (if_neg fun asks => asks.1 zero)
  obtain ⟨noWrap, cases⟩ := fits.resolve_left zero
  rcases search_cases (align8 size) none shape.chain shape.short with
    ⟨search, small⟩ | ⟨l₁, a, l₂, rfl, fitsA, search⟩
  · have notFree : ¬ FitsFree h (align8 size) := by
      rintro ⟨free', chain', b, mem, fitsB⟩
      rw [chain'.unique shape.chain] at mem
      exact absurd fitsB (Nat.not_le.2 (small b mem))
    refine .exhausted noWrap (cases.resolve_left notFree) ?_ ?_
    · simp only [kmalloc, if_neg zero, search]
    · simp [kmallocAsks, zero, search]
  · rw [Option.or_none] at search
    have ptr : wrap (a + blockHeader) = a + blockHeader := by
      have bound := shape.bounds (b := a) (by simp)
      exact Nat.mod_eq_of_lt (by omega)
    refine .taken noWrap l₁ a l₂ rfl fitsA ?_ ?_
    · simp only [kmalloc, if_neg zero, search, ptr]
    · simp [kmallocAsks, search]

/-- The part of `kmalloc` after an unsuccessful search keeps the shape. -/
theorem kmallocFromBump_ok (shape : HeapShape h free others pages) {chunk : Option Nat}
    (aligned : size % 8 = 0)
    (fits : h.heapCur + blockHeader + size ≤ h.heapEnd ∨
      (h.heapCur + blockHeader + size < 2 ^ 64 ∧
        blockHeader + size + (pageSize - 1) < 2 ^ 64 ∧
        (h.heapEnd - h.heapCur < blockHeader + 8 ∨ chunk ≠ none)))
    (fresh : h.heapEnd < bumpNeed h size → ∀ c, chunk = some c →
      PagesFresh pages c (growPages (wrap (blockHeader + size)))) :
    ∃ free' others', HeapShape (kmallocFromBump h size chunk).2 free' others'
        (pagesAfter pages (if h.heapEnd < bumpNeed h size then
          some (growPages (wrap (blockHeader + size))) else none) chunk) ∧
      (∀ c ∈ others, (kmallocFromBump h size chunk).2.mem c = h.mem c) ∧
      ((kmallocFromBump h size chunk).1 = 0 ∧ others' = others ∨
        ∃ b, (kmallocFromBump h size chunk).1 = b + blockHeader ∧ others' = b :: others ∧
          size ≤ (kmallocFromBump h size chunk).2.mem b) := by
  cases shape.kmallocFromBump_cases fits fresh with
  | room room stays call =>
      obtain ⟨ptr, shape', same, sizeB⟩ := shape.bump room aligned
      rw [call, if_neg stays]
      exact ⟨free, _, shape', fun c mem => same c (List.mem_append_right _ mem),
        Or.inr ⟨_, ptr, rfl, sizeB.ge⟩⟩
  | refused none _ call =>
      rw [call, none]
      exact ⟨free, others, by split <;> exact shape, fun _ _ => rfl, Or.inl ⟨rfl, rfl⟩⟩
  | grown c some grows bytes freshC large =>
      obtain ⟨h', free', eq, shape', cur, stop, -, -, same⟩ := shape.grow freshC
      have room : h'.heapCur + blockHeader + size ≤ h'.heapEnd := by omega
      obtain ⟨ptr, shape'', same', sizeB⟩ := shape'.bump room aligned
      rw [some, kmallocFromBump_grown shape' grows bytes eq room, if_pos grows, bytes]
      refine ⟨free', _, shape'', fun b mem => ?_, Or.inr ⟨_, ptr, rfl, sizeB.ge⟩⟩
      rw [same' b (List.mem_append_right _ mem), same b mem]

/-- **A call of `kmalloc` that fits returns null and changes nothing in use, or returns
a block in use that is large enough.** -/
theorem kmalloc_ok (shape : HeapShape h free others pages) {chunk : Option Nat}
    (fits : KmallocFits h size chunk)
    (fresh : ∀ n, kmallocAsks h size = some n → ∀ c, chunk = some c → PagesFresh pages c n) :
    ∃ ptr h' free' others', kmalloc h size chunk = some (ptr, h') ∧
      HeapShape h' free' others' (pagesAfter pages (kmallocAsks h size) chunk) ∧
      (∀ c ∈ others, h'.mem c = h.mem c) ∧
      (ptr = 0 ∧ others' = others ∨
        ∃ b, ptr = b + blockHeader ∧ others' = b :: others ∧ size ≤ h'.mem b) := by
  cases shape.kmalloc_cases fits with
  | nothing call asks =>
      rw [asks]
      exact ⟨0, h, free, others, call, shape, fun _ _ => rfl, Or.inl ⟨rfl, rfl⟩⟩
  | taken noWrap l₁ a l₂ list fitsA call asks =>
      subst list
      obtain ⟨large, aligned, -⟩ := align8_spec noWrap
      obtain ⟨free', shape', same, enough⟩ := shape.take fitsA aligned
      rw [asks]
      exact ⟨_, _, free', a :: others, call, shape', same, Or.inr ⟨a, rfl, rfl, large.trans enough⟩⟩
  | exhausted noWrap fitsBump call asks =>
      obtain ⟨large, aligned, -⟩ := align8_spec noWrap
      rw [asks] at fresh ⊢
      obtain ⟨free', others', shape', same, result⟩ := shape.kmallocFromBump_ok aligned fitsBump
        fun grows c eq => fresh _ (if_pos grows) c eq
      refine ⟨_, _, free', others', call, shape', same, result.imp_right ?_⟩
      rintro ⟨b, ptr, list, enough⟩
      exact ⟨b, ptr, list, large.trans enough⟩

end HeapShape

end NTux.Mm
