import NTux.Mm.HeapRun

/-!
# The order of the free list

`kfree` looks for the neighbours of a block among the blocks next to it on the free list, which
are its neighbours in memory if the list is sorted by address.  It keeps the list sorted, with
a gap behind each block, and so does `kmalloc` where it takes a block off the list.  Where it
grows the heap, it puts the rest of the bump area in front of the list, whatever is on it.

* `Tidy` — the list is sorted and gapped, and the blocks fill the pages.
* `GrowsTidily` — the rest of the bump area belongs in front of the list, or is too small.
-/

namespace NTux.Mm

open NTux.Lib

/-- The blocks and the bump area fill the pages, up to a rest that is no block. -/
def Filled (h : KernelHeap) (blocks : List Nat) (pages : List Region) : Prop :=
  ∀ p ∈ pages, (⟨p.start, p.stop - (blockHeader + 7)⟩ : Region).Covered
    (⟨h.heapCur, h.heapEnd⟩ :: blocks.map fun b => (blockAt h.mem b).region)

/-- The block `a` ends before `b` starts, with something between them. -/
def Gap (mem : Nat → Nat) (a b : Nat) : Prop := a + blockHeader + mem a < b

/-- The free list is sorted, with a gap behind each block, the pages are filled, each has room
for a block, and the bump area is the end of its pages. -/
structure Tidy (h : KernelHeap) (free others : List Nat) (pages : List Region) : Prop where
  gapped : free.Pairwise (Gap h.mem)
  filled : Filled h (free ++ others) pages
  edge : ∀ p ∈ pages, ∀ x ∈ p.cells, h.heapCur ≤ x → x < h.heapEnd → p.stop ≤ h.heapEnd
  large : ∀ p ∈ pages, p.start + blockHeader + 8 ≤ p.stop

section Filled

variable {h h' : KernelHeap} {blocks blocks' : List Nat} {pages : List Region} {b : Nat}

/-- The pages stay filled where new blocks cover the old ones. -/
theorem Filled.step (filled : Filled h blocks pages)
    (bump : (⟨h.heapCur, h.heapEnd⟩ : Region).Covered
      (⟨h'.heapCur, h'.heapEnd⟩ :: blocks'.map fun b => (blockAt h'.mem b).region))
    (each : ∀ b ∈ blocks, (blockAt h.mem b).region.Covered
      (⟨h'.heapCur, h'.heapEnd⟩ :: blocks'.map fun b => (blockAt h'.mem b).region)) :
    Filled h' blocks' pages := by
  intro p memP
  refine (filled p memP).join fun q memQ => ?_
  rcases List.mem_cons.1 memQ with rfl | memQ
  · exact bump
  · obtain ⟨b, memB, rfl⟩ := List.mem_map.1 memQ
    exact each b memB

theorem mem_regions (mem : b ∈ blocks) : (blockAt h.mem b).region ∈
    (⟨h.heapCur, h.heapEnd⟩ :: blocks.map fun b => (blockAt h.mem b).region : List Region) :=
  List.mem_cons_of_mem _ (List.mem_map_of_mem mem)

/-- A block of the same size covers itself. -/
theorem covered_same (mem : b ∈ blocks') (same : h'.mem b = h.mem b) :
    (blockAt h.mem b).region.Covered
      (⟨h'.heapCur, h'.heapEnd⟩ :: blocks'.map fun b => (blockAt h'.mem b).region) := by
  refine Region.covered_of_mem ?_
  rw [show blockAt h.mem b = blockAt h'.mem b by rw [blockAt, blockAt, same]]
  exact mem_regions mem

/-- The pages stay filled while sizes and the bump area stay. -/
theorem Filled.of_sizes (filled : Filled h blocks pages)
    (bump : h'.heapCur = h.heapCur ∧ h'.heapEnd = h.heapEnd)
    (sub : ∀ b ∈ blocks, b ∈ blocks') (same : ∀ b ∈ blocks, h'.mem b = h.mem b) :
    Filled h' blocks' pages := by
  refine filled.step ?_ fun b mem => covered_same (sub b mem) (same b mem)
  rw [bump.1, bump.2]
  exact Region.covered_of_mem List.mem_cons_self

end Filled

/-- A node is put into a list that is in order. -/
theorem pairwise_insert {α : Type*} {R : α → α → Prop} {l₁ l₂ : List α} {b : α}
    (order : (l₁ ++ l₂).Pairwise R) (before : ∀ c ∈ l₁, R c b) (behind : ∀ c ∈ l₂, R b c) :
    (l₁ ++ b :: l₂).Pairwise R := by
  obtain ⟨first, second, cross⟩ := List.pairwise_append.1 order
  refine List.pairwise_append.2 ⟨first, List.pairwise_cons.2 ⟨behind, second⟩, ?_⟩
  intro c memC d memD
  rcases List.mem_cons.1 memD with rfl | memD
  · exact before c memC
  · exact cross c memC d memD

theorem gapped_congr {mem mem' : Nat → Nat} {l : List Nat} (gapped : l.Pairwise (Gap mem))
    (same : ∀ c ∈ l, mem' c = mem c) : l.Pairwise (Gap mem') := by
  refine gapped.imp_of_mem fun {a b} memA _ gap => ?_
  unfold Gap at gap ⊢
  rw [same a memA]
  exact gap

theorem gap_of_lt {mem : Nat → Nat} {l : List Nat} {a b : Nat} (gapped : l.Pairwise (Gap mem))
    (memA : a ∈ l) (memB : b ∈ l) (less : a < b) : Gap mem a b := by
  obtain ⟨l₁, l₂, rfl⟩ := List.append_of_mem memA
  obtain ⟨-, second, cross⟩ := List.pairwise_append.1 gapped
  rcases List.mem_append.1 memB with early | late
  · have gap := cross b early a List.mem_cons_self
    unfold Gap at gap
    omega
  · rcases List.mem_cons.1 late with rfl | late
    · omega
    · exact (List.pairwise_cons.1 second).1 b late

/-! ## Freeing -/

/-- A block is on the free list between those before and those behind it. -/
structure Seated (h : KernelHeap) (l₁ : List Nat) (b : Nat) (l₂ others : List Nat)
    (pages : List Region) : Prop where
  gapped : (l₁ ++ l₂).Pairwise (Gap h.mem)
  before : ∀ c ∈ l₁, c + blockHeader + h.mem c ≤ b
  behind : ∀ c ∈ l₂, b + blockHeader + h.mem b ≤ c
  filled : Filled h (l₁ ++ b :: l₂ ++ others) pages
  edge : ∀ p ∈ pages, ∀ x ∈ p.cells, h.heapCur ≤ x → x < h.heapEnd → p.stop ≤ h.heapEnd

namespace HeapShape

variable {h : KernelHeap} {free others l₁ l₂ : List Nat} {pages : List Region} {a b n size : Nat}

theorem ends_before (shape : HeapShape h free others pages) (memA : a ∈ free ++ others)
    (memB : b ∈ free ++ others) (less : a < b) : a + blockHeader + h.mem a ≤ b := by
  have apart := shape.apart_of_mem memA memB less.ne
  simp only [Region.apart_iff, Block.region, blockAt, blockHeader] at apart ⊢
  omega

theorem link_seated (shape : HeapShape h (l₁ ++ l₂) (b :: others) pages)
    (tidy : Tidy h (l₁ ++ l₂) (b :: others) pages) (lower : ∀ c ∈ l₁, c < b)
    (upper : ∀ c ∈ l₂.head?, b ≤ c) :
    Seated (kfreeLink h l₁.getLast? b) l₁ b l₂ others pages := by
  obtain ⟨-, sizes⟩ := shape.link
  have distinct := shape.nodup
  have above : ∀ c ∈ l₂, b < c := by
    intro c mem
    have ne : b ≠ c := by
      rintro rfl
      exact (List.nodup_append.1 distinct).2.2 b (List.mem_append_right _ mem) b (by simp) rfl
    cases l₂ with
    | nil => cases mem
    | cons d l₂ =>
        have first : b ≤ d := upper d rfl
        rcases List.mem_cons.1 mem with rfl | mem
        · omega
        · have gap := (List.pairwise_cons.1 (List.pairwise_append.1 tidy.gapped).2.1).1 c mem
          unfold Gap at gap
          omega
  have bump : (kfreeLink h l₁.getLast? b).heapCur = h.heapCur ∧
      (kfreeLink h l₁.getLast? b).heapEnd = h.heapEnd :=
    ⟨KernelHeap.storePrev_heapCur .., KernelHeap.storePrev_heapEnd ..⟩
  refine ⟨gapped_congr tidy.gapped fun c mem => sizes c (List.mem_append_left _ mem), ?_, ?_,
    tidy.filled.of_sizes bump (fun c mem => ?_) sizes, ?_⟩
  · intro c mem
    rw [sizes c (by simp [mem])]
    exact shape.ends_before (by simp [mem]) (by simp) (lower c mem)
  · intro c mem
    rw [sizes b (by simp)]
    exact shape.ends_before (by simp) (by simp [mem]) (above c mem)
  · simp only [List.mem_append, List.mem_cons] at mem ⊢
    tauto
  · rw [bump.1, bump.2]
    exact tidy.edge

/-- A block that absorbs its successor covers both. -/
theorem absorb_filled (shape : HeapShape h (l₁ ++ b :: n :: l₂) others pages)
    (adjacent : b + blockHeader + h.mem b = n)
    (filled : Filled h (l₁ ++ b :: n :: l₂ ++ others) pages) :
    Filled (Mm.absorb h b n) (l₁ ++ b :: l₂ ++ others) pages := by
  obtain ⟨-, size, sizes⟩ := shape.absorb adjacent
  refine filled.step (Region.covered_of_mem List.mem_cons_self) fun c mem => ?_
  have memB : b ∈ l₁ ++ b :: l₂ ++ others := by simp
  have grown := mem_regions (h := Mm.absorb h b n) memB
  by_cases isB : c = b
  · subst isB
    refine Region.covered_of_le grown le_rfl ?_
    simp only [Block.region, blockAt]
    omega
  · by_cases isN : c = n
    · subst isN
      refine Region.covered_of_le grown ?_ ?_ <;>
        simp only [Block.region, blockAt] <;> omega
    · have rest : c ∈ l₁ ++ l₂ ++ others := by
        simp only [List.mem_append, List.mem_cons] at mem ⊢
        tauto
      refine covered_same ?_ (sizes c rest)
      simp only [List.mem_append, List.mem_cons] at rest ⊢
      tauto

theorem mergeNext_seated (shape : HeapShape h (l₁ ++ b :: l₂) others pages)
    (seated : Seated h l₁ b l₂ others pages) :
    ∃ rest, HeapShape (kfreeMergeNext h b) (l₁ ++ b :: rest) others pages ∧
      Seated (kfreeMergeNext h b) l₁ b rest others pages ∧
      ∀ c ∈ rest, Gap (kfreeMergeNext h b).mem b c := by
  have order := List.pairwise_append.1 seated.gapped
  rcases shape.mergeNext_cases with ⟨same, away⟩ | ⟨n, rest, rfl, meet, merged⟩
  · rw [same]
    refine ⟨l₂, shape, seated, fun c mem => ?_⟩
    unfold Gap
    cases l₂ with
    | nil => cases mem
    | cons d l₂ =>
        have first := seated.behind d List.mem_cons_self
        have ne := away d rfl
        rcases List.mem_cons.1 mem with rfl | mem
        · omega
        · have gap := (List.pairwise_cons.1 order.2.1).1 c mem
          unfold Gap at gap
          omega
  · rw [merged]
    obtain ⟨shape', size, sizes⟩ := shape.absorb meet
    have behind : ∀ c ∈ rest, Gap (Mm.absorb h b n).mem b c := by
      intro c mem
      have gap := (List.pairwise_cons.1 order.2.1).1 c mem
      unfold Gap at gap ⊢
      omega
    have sub : (l₁ ++ rest).Sublist (l₁ ++ n :: rest) :=
      (List.sublist_cons_self n rest).append_left l₁
    refine ⟨rest, shape', ⟨?_, ?_, fun c mem => (behind c mem).le,
      shape.absorb_filled meet seated.filled, seated.edge⟩, behind⟩
    · exact gapped_congr (seated.gapped.sublist sub) fun c mem =>
        sizes c (List.mem_append_left _ mem)
    · intro c mem
      rw [sizes c (by simp [mem])]
      exact seated.before c mem

/-- **`kfree` keeps the heap tidy.** -/
theorem kfree_tidy (shape : HeapShape h free (b :: others) pages)
    (tidy : Tidy h free (b :: others) pages) :
    ∃ h' free', kfree h (b + blockHeader) = some h' ∧
      Chain (nextOf h'.mem) (nodeOf h'.freeList) free' ∧ Tidy h' free' others pages := by
  obtain ⟨l₁, l₂, rfl, lower, upper, call⟩ := shape.kfree_cases
  obtain ⟨linked, -⟩ := shape.link
  have seated := shape.link_seated tidy lower upper
  obtain ⟨rest, merged, seated', behind⟩ := linked.mergeNext_seated seated
  rcases call with ⟨rfl, call⟩ | ⟨init, a, rfl, call⟩
  · exact ⟨_, _, call, merged.chain, pairwise_insert seated'.gapped (by simp) behind,
      seated'.filled, seated'.edge, tidy.large⟩
  · rw [call]
    generalize kfreeMergeNext (kfreeLink h (init ++ [a]).getLast? b) b = h₁ at *
    have whole : HeapShape h₁ (init ++ a :: b :: rest) others pages := by simpa using merged
    have filled : Filled h₁ (init ++ a :: b :: rest ++ others) pages := by
      simpa using seated'.filled
    have order : (init ++ a :: rest).Pairwise (Gap h₁.mem) := by simpa using seated'.gapped
    have nearest : a + blockHeader + h₁.mem a ≤ b := seated'.before a (by simp)
    have init_a : ∀ c ∈ init, Gap h₁.mem c a := fun c mem =>
      (List.pairwise_append.1 order).2.2 c mem a List.mem_cons_self
    rcases whole.mergePrev_cases with ⟨same, away⟩ | ⟨absorbed, adjacent⟩
    · refine ⟨_, _, same, whole.chain, ?_, filled, seated'.edge, tidy.large⟩
      have list : init ++ a :: b :: rest = (init ++ [a]) ++ b :: rest := by simp
      rw [list]
      refine pairwise_insert seated'.gapped (fun c mem => ?_) behind
      rcases List.mem_append.1 mem with early | last
      · have gap := init_a c early
        unfold Gap at gap ⊢
        omega
      · obtain rfl := List.mem_singleton.1 last
        unfold Gap
        omega
    · obtain ⟨shape', size, sizes⟩ := whole.absorb adjacent
      have sub : (init ++ rest).Sublist (init ++ a :: rest) :=
        (List.sublist_cons_self a rest).append_left init
      refine ⟨_, _, absorbed, shape'.chain, ?_, whole.absorb_filled adjacent filled, seated'.edge,
        tidy.large⟩
      refine pairwise_insert (gapped_congr (order.sublist sub) fun c mem =>
        sizes c (List.mem_append_left _ mem)) (fun c mem => ?_) (fun c mem => ?_)
      · have gap := init_a c mem
        unfold Gap at gap ⊢
        rw [sizes c (by simp [mem])]
        exact gap
      · have gap := behind c mem
        unfold Gap at gap ⊢
        omega

end HeapShape

/-! ## Allocating -/

/-- The rest of the bump area is in its place in front of the free list, or too small for a
block, if `kmalloc` asks for pages. -/
def GrowsTidily (h : KernelHeap) (size : Nat) : Prop :=
  kmallocAsks h size = none ∨ h.heapEnd - h.heapCur < blockHeader + 8 ∨ h.freeList = 0 ∨
    h.heapEnd < h.freeList

instance (h : KernelHeap) (size : Nat) : Decidable (GrowsTidily h size) :=
  inferInstanceAs (Decidable (_ ∨ _))

namespace HeapShape

variable {h : KernelHeap} {free others l₁ l₂ : List Nat} {pages : List Region} {a b n size : Nat}

theorem take_tidy (shape : HeapShape h (l₁ ++ a :: l₂) others pages)
    (tidy : Tidy h (l₁ ++ a :: l₂) others pages) (fits : size ≤ h.mem a)
    (aligned : size % 8 = 0) :
    ∃ free', Chain (nextOf (kmallocTake h size l₁.getLast? a).mem)
        (nodeOf (kmallocTake h size l₁.getLast? a).freeList) free' ∧
      Tidy (kmallocTake h size l₁.getLast? a) free' (a :: others) pages := by
  have sub : (l₁ ++ l₂).Sublist (l₁ ++ a :: l₂) :=
    (List.sublist_cons_self a l₂).append_left l₁
  by_cases room : blockHeader + 8 ≤ h.mem a - size
  · obtain ⟨shape', sizes, sizeA, sizeS⟩ := shape.takeSplit (by omega) aligned
    have bump : (kmallocTake h size l₁.getLast? a).heapCur = h.heapCur ∧
        (kmallocTake h size l₁.getLast? a).heapEnd = h.heapEnd := by
      simp only [kmallocTake, if_pos room, KernelHeap.storePrev_heapCur,
        KernelHeap.storePrev_heapEnd, and_self]
    generalize kmallocTake h size l₁.getLast? a = h' at *
    obtain ⟨-, second, cross⟩ := List.pairwise_append.1 tidy.gapped
    refine ⟨_, shape'.chain, ?_, ?_, ?_, tidy.large⟩
    · refine pairwise_insert (gapped_congr (tidy.gapped.sublist sub) fun c mem =>
        sizes c (List.mem_append_left _ mem)) (fun c mem => ?_) (fun c mem => ?_)
      · have gap := cross c mem a List.mem_cons_self
        unfold Gap at gap ⊢
        rw [sizes c (by simp [mem])]
        omega
      · have gap := (List.pairwise_cons.1 second).1 c mem
        unfold Gap at gap ⊢
        omega
    · refine tidy.filled.step ?_ fun c mem => ?_
      · rw [bump.1, bump.2]
        exact Region.covered_of_mem List.mem_cons_self
      · by_cases isA : c = a
        · subst isA
          have front := @mem_regions h' (l₁ ++ (c + blockHeader + size) :: l₂ ++ c :: others) c
            (by simp)
          have back := @mem_regions h' (l₁ ++ (c + blockHeader + size) :: l₂ ++ c :: others)
            (c + blockHeader + size) (by simp)
          refine Region.covered_of_adjacent front back ?_ ?_ ?_ <;>
            simp only [Block.region, blockAt] <;> omega
        · have rest : c ∈ l₁ ++ l₂ ++ others := by
            simp only [List.mem_append, List.mem_cons] at mem ⊢
            tauto
          refine covered_same ?_ (sizes c rest)
          simp only [List.mem_append, List.mem_cons] at rest ⊢
          tauto
    · rw [bump.1, bump.2]
      exact tidy.edge
  · obtain ⟨shape', sizes⟩ := shape.takeWhole
    rw [kmallocTake, if_neg room]
    refine ⟨_, shape'.chain, gapped_congr (tidy.gapped.sublist sub) fun c mem => sizes c ?_,
      tidy.filled.of_sizes ⟨KernelHeap.storePrev_heapCur .., KernelHeap.storePrev_heapEnd ..⟩
        (fun c mem => ?_) sizes, ?_, tidy.large⟩
    · simp only [List.mem_append, List.mem_cons] at mem ⊢
      tauto
    · simp only [List.mem_append, List.mem_cons] at mem ⊢
      tauto
    · rw [KernelHeap.storePrev_heapCur, KernelHeap.storePrev_heapEnd]
      exact tidy.edge

theorem bump_tidy (shape : HeapShape h free others pages) (tidy : Tidy h free others pages)
    (fits : h.heapCur + blockHeader + size ≤ h.heapEnd) (aligned : size % 8 = 0) :
    Tidy (kmallocBump h size).2 free (h.heapCur :: others) pages := by
  have below := shape.layout.bumpOrdered.2
  dsimp only at below
  obtain ⟨-, -, sizes, sizeB⟩ := shape.bump fits aligned
  have cur : (kmallocBump h size).2.heapCur = h.heapCur + blockHeader + size :=
    shape.bumpNeed_eq (by omega)
  have stop : (kmallocBump h size).2.heapEnd = h.heapEnd := rfl
  generalize (kmallocBump h size).2 = h' at *
  refine ⟨gapped_congr tidy.gapped fun c mem => sizes c (List.mem_append_left _ mem), ?_, ?_,
    tidy.large⟩
  · refine tidy.filled.step ?_ fun c mem => covered_same ?_ (sizes c mem)
    · have block := @mem_regions h' (free ++ h.heapCur :: others) h.heapCur (by simp)
      refine Region.covered_of_adjacent block List.mem_cons_self ?_ ?_ ?_ <;>
        simp only [Block.region, blockAt] <;> omega
    · simp only [List.mem_append, List.mem_cons] at mem ⊢
      tauto
  · intro p memP x memX lower upper
    rw [stop] at upper ⊢
    exact tidy.edge p memP x memX (by omega) upper

theorem grow_tidy (shape : HeapShape h free others pages) (tidy : Tidy h free others pages)
    {minBytes c : Nat} (fresh : PagesFresh pages c (growPages minBytes))
    (place : h.heapEnd - h.heapCur < blockHeader + 8 ∨ h.freeList = 0 ∨ h.heapEnd < h.freeList) :
    ∃ h' free', growHeap h minBytes (some c) = (true, h') ∧
      HeapShape h' free' others (⟨c, c + growPages minBytes * pageSize⟩ :: pages) ∧
      Tidy h' free' others (⟨c, c + growPages minBytes * pageSize⟩ :: pages) ∧
      h'.heapCur = c ∧ h'.heapEnd = c + growPages minBytes * pageSize := by
  obtain ⟨h', free', eq, shape', cur, stop, mem', list', -⟩ := shape.grow fresh
  have chain' := shape'.chain
  rw [mem', list'] at chain'
  have edge : ∀ p ∈ (⟨c, c + growPages minBytes * pageSize⟩ : Region) :: pages, ∀ x ∈ p.cells,
      h'.heapCur ≤ x → x < h'.heapEnd → p.stop ≤ h'.heapEnd := by
    intro p memP x memX lower upper
    rw [cur] at lower
    rw [stop] at upper ⊢
    rcases List.mem_cons.1 memP with rfl | old
    · exact le_rfl
    · exact absurd ⟨lower, upper⟩ ((fresh.apart p old).not_mem memX)
  have large : ∀ p ∈ (⟨c, c + growPages minBytes * pageSize⟩ : Region) :: pages,
      p.start + blockHeader + 8 ≤ p.stop := by
    refine List.forall_mem_cons.2 ⟨?_, tidy.large⟩
    have least : heapChunkPages ≤ growPages minBytes := le_max_right _ _
    simp only [heapChunkPages, pageSize, blockHeader] at least ⊢
    omega
  -- what is in the old pages is in a block
  have reduce : (∀ p ∈ pages, ∀ x, p.start ≤ x → x < p.stop - (blockHeader + 7) →
      ∃ b ∈ free' ++ others, x ∈ (blockAt h'.mem b).region.cells) →
      Filled h' (free' ++ others) (⟨c, c + growPages minBytes * pageSize⟩ :: pages) := by
    intro old p memP x memX
    rcases List.mem_cons.1 memP with rfl | memP
    · refine ⟨_, List.mem_cons_self, ?_⟩
      rw [cur, stop]
      exact ⟨memX.1, memX.2.trans_le (Nat.sub_le _ _)⟩
    · obtain ⟨b, memB, memX⟩ := old p memP x memX.1 memX.2
      exact ⟨_, mem_regions memB, memX⟩
  have order := shape.layout.bumpOrdered.1
  dsimp only at order
  by_cases room : blockHeader + 8 ≤ h.heapEnd - h.heapCur
  · obtain ⟨chain, -, size, sizes⟩ := shape.addRemaining_large room
    obtain rfl := chain'.unique chain
    rw [← mem'] at size sizes
    refine ⟨h', _, eq, shape', ⟨List.pairwise_cons.2 ⟨fun d mem => ?_, ?_⟩, reduce ?_, edge, large⟩,
      cur, stop⟩
    · -- the list is empty, or begins behind the rest
      have first : h.freeList ≠ 0 ∧ h.freeList ≤ d := by
        cases free with
        | nil => cases mem
        | cons e free =>
            obtain ⟨rfl, notNull⟩ := nodeOf_eq_some.1 shape.chain.1
            refine ⟨notNull, ?_⟩
            rcases List.mem_cons.1 mem with rfl | mem
            · exact le_rfl
            · have gap := (List.pairwise_cons.1 tidy.gapped).1 d mem
              unfold Gap at gap
              omega
      unfold Gap
      rw [size]
      omega
    · exact gapped_congr tidy.gapped fun c mem => sizes c (List.mem_append_left _ mem)
    · intro p memP x lower upper
      obtain ⟨r, memR, memX⟩ := tidy.filled p memP x ⟨lower, upper⟩
      rcases List.mem_cons.1 memR with rfl | memR
      · refine ⟨h.heapCur, by simp, ?_⟩
        simp only [Region.mem_cells, Block.region, blockAt] at memX ⊢
        omega
      · obtain ⟨b, memB, rfl⟩ := List.mem_map.1 memR
        refine ⟨b, List.mem_cons_of_mem _ memB, ?_⟩
        rw [blockAt, sizes b memB]
        exact memX
  · rw [shape.addRemaining_small room] at chain' mem'
    obtain rfl := chain'.unique shape.chain
    refine ⟨h', _, eq, shape', ⟨mem' ▸ tidy.gapped, reduce ?_, edge, large⟩, cur, stop⟩
    intro p memP x lower upper
    obtain ⟨r, memR, memX⟩ := tidy.filled p memP x ⟨lower, upper⟩
    rcases List.mem_cons.1 memR with rfl | memR
    · -- too near to the end of the pages
      have last := tidy.edge p memP x ⟨lower, by omega⟩ memX.1 memX.2
      simp only [Region.mem_cells] at memX
      omega
    · obtain ⟨b, memB, rfl⟩ := List.mem_map.1 memR
      exact ⟨b, memB, mem' ▸ memX⟩

/-- The part of `kmalloc` after an unsuccessful search. -/
theorem kmallocFromBump_tidy (shape : HeapShape h free others pages)
    (tidy : Tidy h free others pages) {chunk : Option Nat} (aligned : size % 8 = 0)
    (fits : h.heapCur + blockHeader + size ≤ h.heapEnd ∨
      (h.heapCur + blockHeader + size < 2 ^ 64 ∧
        blockHeader + size + (pageSize - 1) < 2 ^ 64 ∧
        (h.heapEnd - h.heapCur < blockHeader + 8 ∨ chunk ≠ none)))
    (fresh : h.heapEnd < bumpNeed h size → ∀ c, chunk = some c →
      PagesFresh pages c (growPages (wrap (blockHeader + size))))
    (place : h.heapEnd < bumpNeed h size → h.heapEnd - h.heapCur < blockHeader + 8 ∨
      h.freeList = 0 ∨ h.heapEnd < h.freeList) :
    ∃ free' others', Chain (nextOf (kmallocFromBump h size chunk).2.mem)
        (nodeOf (kmallocFromBump h size chunk).2.freeList) free' ∧
      Tidy (kmallocFromBump h size chunk).2 free' others'
        (pagesAfter pages (if h.heapEnd < bumpNeed h size then
          some (growPages (wrap (blockHeader + size))) else none) chunk) ∧
      ((kmallocFromBump h size chunk).1 = 0 ∧ others' = others ∨
        ∃ b, (kmallocFromBump h size chunk).1 = b + blockHeader ∧ others' = b :: others) := by
  cases shape.kmallocFromBump_cases fits fresh with
  | room room stays call =>
      obtain ⟨ptr, shape', -, -⟩ := shape.bump room aligned
      rw [call, if_neg stays]
      exact ⟨free, _, shape'.chain, shape.bump_tidy tidy room aligned, Or.inr ⟨_, ptr, rfl⟩⟩
  | refused none _ call =>
      rw [call, none]
      exact ⟨free, others, shape.chain, by split <;> exact tidy, Or.inl ⟨rfl, rfl⟩⟩
  | grown c some grows bytes freshC large =>
      obtain ⟨h', free', eq, shape', tidy', cur, stop⟩ := shape.grow_tidy tidy freshC (place grows)
      have room : h'.heapCur + blockHeader + size ≤ h'.heapEnd := by omega
      obtain ⟨ptr, shape'', -, -⟩ := shape'.bump room aligned
      rw [some, kmallocFromBump_grown shape' grows bytes eq room, if_pos grows, bytes]
      exact ⟨free', _, shape''.chain, shape'.bump_tidy tidy' room aligned, Or.inr ⟨_, ptr, rfl⟩⟩

/-- **`kmalloc` keeps the heap tidy**, unless it puts the rest of the bump area out of order. -/
theorem kmalloc_tidy (shape : HeapShape h free others pages) (tidy : Tidy h free others pages)
    {chunk : Option Nat} (fits : KmallocFits h size chunk)
    (fresh : ∀ n, kmallocAsks h size = some n → ∀ c, chunk = some c → PagesFresh pages c n)
    (grows : GrowsTidily h size) :
    ∃ ptr h' free' others', kmalloc h size chunk = some (ptr, h') ∧
      Chain (nextOf h'.mem) (nodeOf h'.freeList) free' ∧
      Tidy h' free' others' (pagesAfter pages (kmallocAsks h size) chunk) ∧
      (ptr = 0 ∧ others' = others ∨ ∃ b, ptr = b + blockHeader ∧ others' = b :: others) := by
  unfold GrowsTidily at grows
  cases shape.kmalloc_cases fits with
  | nothing call asks =>
      rw [asks]
      exact ⟨0, h, free, others, call, shape.chain, tidy, Or.inl ⟨rfl, rfl⟩⟩
  | taken noWrap l₁ a l₂ list fitsA call asks =>
      subst list
      obtain ⟨-, aligned, -⟩ := align8_spec noWrap
      obtain ⟨free', chain, tidy'⟩ := shape.take_tidy tidy fitsA aligned
      rw [asks]
      exact ⟨_, _, free', a :: others, call, chain, tidy', Or.inr ⟨a, rfl, rfl⟩⟩
  | exhausted noWrap fitsBump call asks =>
      obtain ⟨-, aligned, -⟩ := align8_spec noWrap
      rw [asks] at fresh grows ⊢
      obtain ⟨free', others', chain, tidy', result⟩ := shape.kmallocFromBump_tidy tidy aligned
        fitsBump (fun need c eq => fresh _ (if_pos need) c eq)
        fun need => grows.resolve_left (by rw [if_pos need]; exact Option.some_ne_none _)
      exact ⟨_, _, free', others', call, chain, tidy', result⟩

end HeapShape

/-! ## Runs -/

/-- The invariant of a run that keeps the free list in order. -/
structure TidyInv (s : HeapState) : Prop where
  inv : HeapInv s
  tidy : ∀ free, Chain (nextOf s.heap.mem) (nodeOf s.heap.freeList) free →
    Tidy s.heap free (s.live.map HeapAlloc.block) s.pages

/-- A call that fits, and grows the heap only where that leaves the free list in order. -/
def TidyCall (s : HeapState) (a : HeapAction) : Prop :=
  HeapCallFits s a ∧ ∀ size chunk, a = .kmalloc size chunk → GrowsTidily s.heap size

/-- The free list is sorted, no block on it ends where one starts, and once no block is in use
each chunk that has no bump area left is one free block, but for a rest at its end that makes
no block. -/
structure Coalesced (s : HeapState) : Prop where
  list : ∃ free, Chain (nextOf s.heap.mem) (nodeOf s.heap.freeList) free ∧
    free.Pairwise (· < ·) ∧
    (∀ a ∈ free, ∀ b ∈ free, a + blockHeader + s.heap.mem a ≠ b) ∧
    (s.live = [] → ∀ p ∈ s.pages, p.Apart ⟨s.heap.heapCur, s.heap.heapEnd⟩ →
      ∃ b ∈ free, ∀ x, p.start ≤ x → x < p.stop - (blockHeader + 7) →
        x ∈ (blockAt s.heap.mem b).region.cells)

section Run

variable {s : HeapState}

theorem heapStart_tidyInv (mem : Nat → Nat) : TidyInv (heapStart mem) := by
  refine ⟨heapStart_inv mem, fun free chain => ?_⟩
  obtain rfl : free = [] := by
    cases free with
    | nil => rfl
    | cons b free => exact absurd chain.1 (by simp [heapStart, kmallocInit, nodeOf])
  refine ⟨List.Pairwise.nil, fun p mem => ?_, fun p mem => ?_, fun p mem => ?_⟩ <;> cases mem

/-- The heap is tidy along one list if it is along another: there is one alone. -/
theorem tidy_of_chain {h : KernelHeap} {free others : List Nat} {pages : List Region}
    (chain : Chain (nextOf h.mem) (nodeOf h.freeList) free) (tidy : Tidy h free others pages) :
    ∀ free', Chain (nextOf h.mem) (nodeOf h.freeList) free' → Tidy h free' others pages := by
  intro free' chain'
  obtain rfl := chain'.unique chain
  exact tidy

theorem heapStep_kmalloc_tidy (inv : TidyInv s) {size : Nat} {chunk : Option Nat}
    (fits : KmallocFits s.heap size chunk)
    (fresh : ∀ n, kmallocAsks s.heap size = some n → ∀ c, chunk = some c →
      PagesFresh s.pages c n) (grows : GrowsTidily s.heap size) :
    TidyInv (heapStep s (.kmalloc size chunk)) := by
  refine ⟨heapStep_kmalloc_inv inv.inv fits fresh, ?_⟩
  obtain ⟨free, shape⟩ := inv.inv.shape
  obtain ⟨ptr, h', free', others', call, chain, tidy, result⟩ :=
    shape.kmalloc_tidy (inv.tidy free shape.chain) fits fresh grows
  simp only [heapStep, call]
  rcases result with ⟨rfl, rfl⟩ | ⟨b, rfl, rfl⟩
  · exact tidy_of_chain chain tidy
  · have notNull : b + blockHeader ≠ 0 := by simp [blockHeader]
    have block : HeapAlloc.block ⟨b + blockHeader, size⟩ = b := Nat.add_sub_cancel ..
    rw [if_neg notNull, List.map_cons, block]
    exact tidy_of_chain chain tidy

theorem heapStep_kfree_tidy (inv : TidyInv s) {ptr : Nat}
    (live : ptr = 0 ∨ ∃ a ∈ s.live, a.ptr = ptr) : TidyInv (heapStep s (.kfree ptr)) := by
  refine ⟨heapStep_kfree_inv inv.inv live, ?_⟩
  obtain ⟨free, shape⟩ := inv.inv.shape
  have tidy := inv.tidy free shape.chain
  rcases live with rfl | ⟨a₀, mem₀, rfl⟩
  · simp only [heapStep, kfree, if_pos, inv.inv.erase_null]
    exact inv.tidy
  · obtain ⟨b, rest, erased, ptr, -, order⟩ := inv.inv.erase mem₀
    have moved : Tidy s.heap free (b :: rest.map HeapAlloc.block) s.pages :=
      ⟨tidy.gapped, tidy.filled.of_sizes ⟨rfl, rfl⟩
        (fun c mem => ((order.append_left free).mem_iff).1 mem) (fun _ _ => rfl), tidy.edge,
        tidy.large⟩
    obtain ⟨h', free', call, chain, tidy'⟩ := (shape.perm_others order).kfree_tidy moved
    rw [← ptr] at call
    simp only [heapStep, call, erased]
    exact tidy_of_chain chain tidy'

theorem heapStep_store_tidy (inv : TidyInv s) {addr value : Nat}
    (owned : ∃ a ∈ s.live, a.ptr ≤ addr ∧ addr < a.ptr + a.size) :
    TidyInv (heapStep s (.store addr value)) := by
  refine ⟨heapStep_store_inv inv.inv owned, ?_⟩
  obtain ⟨free, shape⟩ := inv.inv.shape
  obtain ⟨shape', sizes⟩ := inv.inv.store_shape owned value shape
  have tidy := inv.tidy free shape.chain
  exact tidy_of_chain shape'.chain
    ⟨gapped_congr tidy.gapped fun c mem => sizes c (List.mem_append_left _ mem),
      tidy.filled.of_sizes ⟨rfl, rfl⟩ (fun _ mem => mem) sizes, tidy.edge, tidy.large⟩

theorem heapStep_tidyInv (inv : TidyInv s) {a : HeapAction} (call : TidyCall s a) :
    TidyInv (heapStep s a) := by
  obtain ⟨fits, grows⟩ := call
  cases a with
  | kmalloc size chunk =>
      exact heapStep_kmalloc_tidy inv (fits.2 size chunk rfl) fits.1.2 (grows size chunk rfl)
  | kfree ptr => exact heapStep_kfree_tidy inv fits.1
  | store addr value => exact heapStep_store_tidy inv fits.1.2

/-- A tidy heap is coalesced. -/
theorem TidyInv.coalesced (inv : TidyInv s) : Coalesced s := by
  obtain ⟨free, shape⟩ := inv.inv.shape
  have tidy := inv.tidy free shape.chain
  have sorted : free.Pairwise (· < ·) := tidy.gapped.imp fun {a b} gap => by
    unfold Gap at gap
    omega
  have apart : ∀ a ∈ free, ∀ b ∈ free, a + blockHeader + s.heap.mem a ≠ b := by
    intro a memA b memB same
    have less : a < b := by
      simp only [blockHeader] at same
      omega
    have gap := gap_of_lt tidy.gapped memA memB less
    unfold Gap at gap
    omega
  refine ⟨free, shape.chain, sorted, apart, fun unused p memP away => ?_⟩
  -- every byte before the rest is in a free block
  have inside : ∀ x, p.start ≤ x → x < p.stop - (blockHeader + 7) →
      ∃ b ∈ free, x ∈ (blockAt s.heap.mem b).region.cells := by
    intro x lower upper
    obtain ⟨r, memR, memX⟩ := tidy.filled p memP x ⟨lower, upper⟩
    rcases List.mem_cons.1 memR with rfl | memR
    · exact absurd memX (away.not_mem ⟨lower, by omega⟩)
    · rw [unused] at memR
      obtain ⟨b, memB, rfl⟩ := List.mem_map.1 memR
      exact ⟨b, by simpa using memB, memX⟩
  have large := tidy.large p memP
  obtain ⟨b, memB, first⟩ := inside p.start le_rfl (by omega)
  refine ⟨b, memB, fun x lower upper => ?_⟩
  by_contra outside
  simp only [Region.mem_cells, Block.region, blockAt] at first outside
  -- the block that holds the byte behind `b` leaves no gap to it
  obtain ⟨c, memC, next⟩ := inside (b + blockHeader + s.heap.mem b) (by omega) (by omega)
  simp only [Region.mem_cells, Block.region, blockAt] at next
  rcases lt_trichotomy b c with less | rfl | less
  · have gap := gap_of_lt tidy.gapped memB memC less
    unfold Gap at gap
    omega
  · omega
  · have gap := gap_of_lt tidy.gapped memC memB less
    unfold Gap at gap
    omega

/-- A call that puts the rest of the bump area in front of a block with a smaller address, or
of one that starts where the rest ends, spoils the list. -/
theorem not_coalesced_of_untidy (inv : HeapInv s) {size : Nat} {chunk : Option Nat}
    (fits : KmallocFits s.heap size chunk)
    (fresh : ∀ n, kmallocAsks s.heap size = some n → ∀ c, chunk = some c →
      PagesFresh s.pages c n) (untidy : ¬ GrowsTidily s.heap size) :
    ¬ Coalesced (heapStep s (.kmalloc size chunk)) := by
  obtain ⟨free, shape⟩ := inv.shape
  unfold GrowsTidily at untidy
  push Not at untidy
  obtain ⟨asking, room, notNull, near⟩ := untidy
  cases shape.kmalloc_cases fits with
  | nothing _ asks => exact absurd asks asking
  | taken _ _ _ _ _ _ _ asks => exact absurd asks asking
  | exhausted noWrap fitsBump call asks =>
      obtain ⟨-, aligned, -⟩ := align8_spec noWrap
      rw [asks] at fresh asking
      cases shape.kmallocFromBump_cases fitsBump fun grows c eq => fresh _ (if_pos grows) c eq with
      | room _ stays => exact absurd (if_neg stays) asking
      | refused _ small => exact absurd room small
      | grown c some grows bytes freshC large =>
          obtain ⟨h', free', eq, shape', cur, stop, mem', list', -⟩ := shape.grow freshC
          have fitsAfter : h'.heapCur + blockHeader + align8 size ≤ h'.heapEnd := by omega
          obtain ⟨-, shape'', sizes, -⟩ := shape'.bump fitsAfter aligned
          obtain ⟨chain, -, rest, -⟩ := shape.addRemaining_large room
          have chain' := shape'.chain
          rw [mem', list'] at chain'
          obtain rfl := chain'.unique chain
          rw [some, shape'.kmallocFromBump_grown grows bytes eq fitsAfter] at call
          rw [some]
          intro coalesced
          obtain ⟨free'', chain'', sorted, apart, -⟩ := coalesced.list
          simp only [heapStep, call] at chain'' sorted apart
          obtain rfl := chain''.unique shape''.chain
          -- the first block of the old list is inside the rest, or starts where it ends
          have memF : s.heap.freeList ∈ free := by
            cases free with
            | nil => exact absurd (nodeOf_eq_none.1 shape.chain) notNull
            | cons e free =>
                obtain ⟨same, -⟩ := nodeOf_eq_some.1 shape.chain.1
                rw [same]
                exact List.mem_cons_self
          have above := (List.pairwise_cons.1 sorted).1 _ memF
          have meets := apart _ List.mem_cons_self _ (List.mem_cons_of_mem _ memF)
          rw [sizes _ (List.mem_append_left _ List.mem_cons_self), mem', rest] at meets
          have away := shape.layout.apart_bump (b := blockAt s.heap.mem s.heap.freeList)
            (List.mem_map_of_mem (List.mem_append_left _ memF))
          simp only [Region.apart_iff, Block.region, blockAt, blockHeader] at away meets room
          omega

/-- Along every run whose growing calls leave the free list in order, it is sorted and without
neighbours that could be merged. -/
theorem TidyInv.run_coalesced (inv : TidyInv s) {as : List HeapAction}
    (calls : AllSteps heapStep TidyCall s as) : Coalesced (run heapStep s as) := by
  have keep : ∀ s a, TidyInv s → TidyCall s a → TidyInv (heapStep s a) :=
    fun _ _ inv call => heapStep_tidyInv inv call
  exact (run_invariant keep inv calls).coalesced

/-- Where every state of a run is coalesced, its growing calls leave the free list in order. -/
theorem TidyInv.tidyCalls (inv : TidyInv s) {as : List HeapAction}
    (fits : AllSteps heapStep HeapCallFits s as)
    (coalesced : ∀ bs, bs <+: as → Coalesced (run heapStep s bs)) :
    AllSteps heapStep TidyCall s as := by
  induction as generalizing s with
  | nil => trivial
  | cons a as ih =>
      have call : TidyCall s a := by
        refine ⟨fits.1, ?_⟩
        rintro size chunk rfl
        by_contra untidy
        have fresh := fits.1.1.2
        exact not_coalesced_of_untidy inv.inv (fits.1.2 size chunk rfl) fresh untidy
          (coalesced [.kmalloc size chunk] ⟨as, rfl⟩)
      refine ⟨call, ih (heapStep_tidyInv inv call) fits.2 fun bs before => ?_⟩
      obtain ⟨rest, rfl⟩ := before
      exact coalesced (a :: bs) ⟨rest, rfl⟩

/-- In a run whose calls fit, the list is sorted and without neighbours that could be merged in
every state exactly if each call that grows the heap leaves it in order. -/
theorem free_list_coalesced_iff (mem : Nat → Nat) (as : List HeapAction)
    (fits : AllSteps heapStep HeapCallFits (heapStart mem) as) :
    (∀ bs, bs <+: as → Coalesced (run heapStep (heapStart mem) bs)) ↔
      AllSteps heapStep TidyCall (heapStart mem) as := by
  constructor
  · intro coalesced
    exact (heapStart_tidyInv mem).tidyCalls fits coalesced
  · rintro calls bs ⟨rest, rfl⟩
    exact (heapStart_tidyInv mem).run_coalesced ((allSteps_append _ _ bs rest).1 calls).1

/-- The heap grows where there is no bump area yet. -/
theorem free_list_coalesced_alloc_free :
    (∀ bs, bs <+: [.kmalloc 24 (some 0x10000), .kfree 0x10010] →
      Coalesced (run heapStep (heapStart fun _ => 0) bs)) ↔
      AllSteps heapStep TidyCall (heapStart fun _ => 0)
        [.kmalloc 24 (some 0x10000), .kfree 0x10010] := by
  refine free_list_coalesced_iff _ _ ⟨⟨⟨by decide, ?_⟩, ?_⟩, ⟨Or.inr ?_, ?_⟩, trivial⟩
  · rintro n asks c ⟨⟩
    obtain rfl : 16 = n := Option.some.inj asks
    exact ⟨by decide, by decide, by decide, by simp [heapStart]⟩
  · rintro size chunk ⟨⟩
    exact Or.inr ⟨by decide, Or.inr (Or.inr ⟨by decide, by decide, Or.inl (by decide)⟩)⟩
  · exact ⟨⟨0x10010, 24⟩, List.mem_singleton.2 rfl, rfl⟩
  · rintro size chunk ⟨⟩

/-- The rest of the first pages is put in front of a block that ends where it starts. -/
theorem rest_before_free_block :
    ¬ ∀ (mem : Nat → Nat) (as : List HeapAction),
      AllSteps heapStep HeapCallFits (heapStart mem) as →
        Coalesced (run heapStep (heapStart mem) as) := by
  intro always
  have coalesced := always (fun _ => 0)
    [.kmalloc 8 (some 0x10000), .kfree 0x10010, .kmalloc 0x10000 (some 0x20000)]
    ⟨⟨⟨by decide, ?_⟩, ?_⟩, ⟨Or.inr ?_, ?_⟩, ⟨⟨by decide, ?_⟩, ?_⟩, trivial⟩
  · obtain ⟨free, chain, sorted, -⟩ := coalesced.list
    have list : free = [0x10018, 0x10000] :=
      chain.unique ⟨by decide, by decide, show nextOf _ _ = none by decide⟩
    rw [list] at sorted
    exact absurd sorted (by decide)
  · rintro n asks c ⟨⟩
    obtain rfl : 16 = n := Option.some.inj asks
    exact ⟨by decide, by decide, by decide, by simp [heapStart]⟩
  · rintro size chunk ⟨⟩
    exact Or.inr ⟨by decide, Or.inr (Or.inr ⟨by decide, by decide, Or.inl (by decide)⟩)⟩
  · exact ⟨⟨0x10010, 8⟩, List.mem_singleton.2 rfl, rfl⟩
  · rintro size chunk ⟨⟩
  · rintro n asks c ⟨⟩
    obtain rfl : 17 = n := Option.some.inj asks
    refine ⟨by decide, by decide, by decide, fun p mem => ?_⟩
    obtain rfl : p = ⟨0x10000, 0x20000⟩ := List.mem_singleton.1 mem
    exact Region.apart_iff.2 (by decide)
  · rintro size chunk ⟨⟩
    exact Or.inr ⟨by decide, Or.inr (Or.inr ⟨by decide, by decide, Or.inr (by decide)⟩)⟩

end Run

end NTux.Mm
