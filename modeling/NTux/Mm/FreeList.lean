import NTux.Mm.HeapLayout
import NTux.Lib.LinkedList
import Mathlib.Data.Finset.Card

/-!
# The free list of the kernel heap

`HeapShape` couples the memory of `kmalloc.c` to a layout: the free list is a chain
through the successors stored in the headers, and the blocks on it, together with
the other blocks, are laid out as their headers say.  Each piece of `kmalloc` and
`kfree` keeps it, with the change to the list that the piece is there for; the walks
along the list end, because it is shorter than the address space.
-/

namespace NTux.Mm

open NTux.Lib

/-- A pointer as a node of the list; null is none. -/
def nodeOf (p : Nat) : Option Nat := if p = 0 then none else some p

/-- The successor stored in a header. -/
def nextOf (mem : Nat → Nat) (b : Nat) : Option Nat := nodeOf (blockNext mem b)

theorem nodeOf_eq_none {p : Nat} : nodeOf p = none ↔ p = 0 := by simp [nodeOf]

theorem nodeOf_eq_some {p b : Nat} : nodeOf p = some b ↔ p = b ∧ b ≠ 0 := by
  unfold nodeOf
  split <;> simp_all
  omega

theorem nodeOf_of_ne {p : Nat} (ne : p ≠ 0) : nodeOf p = some p := if_neg ne

/-- The free list visits the blocks `free`; these and the blocks `others` are laid out
in the pages. -/
structure HeapShape (h : KernelHeap) (free others : List Nat) (pages : List Region) : Prop where
  chain : Chain (nextOf h.mem) (nodeOf h.freeList) free
  layout : HeapLayout ⟨h.heapCur, h.heapEnd⟩ ((free ++ others).map (blockAt h.mem)) pages

section Links

variable {mem mem' : Nat → Nat} {l : List Nat}

theorem nextOf_setNext (mem : Nat → Nat) (b v : Nat) :
    nextOf (setNext mem b v) = Function.update (nextOf mem) b (nodeOf v) := by
  funext c
  rcases eq_or_ne c b with rfl | ne
  · simp [nextOf]
  · have off : c + 8 ≠ b + 8 := by omega
    rw [Function.update_of_ne ne, nextOf, blockNext, setNext, Function.update_of_ne off]
    rfl

theorem map_blockAt_congr (same : ∀ b ∈ l, mem' b = mem b) :
    l.map (blockAt mem') = l.map (blockAt mem) :=
  List.map_congr_left fun b memB => by rw [blockAt, blockAt, same b memB]

end Links

namespace KernelHeap

variable (h : KernelHeap) (prev : Option Nat) (v : Nat)

theorem storePrev_heapCur : (h.storePrev prev v).heapCur = h.heapCur := by
  cases prev <;> rfl

theorem storePrev_heapEnd : (h.storePrev prev v).heapEnd = h.heapEnd := by
  cases prev <;> rfl

theorem nextOf_storePrev : nextOf (h.storePrev prev v).mem =
    redirect (nextOf h.mem) prev (nodeOf v) := by
  cases prev with
  | none => rfl
  | some p => exact nextOf_setNext h.mem p v

theorem nodeOf_storePrev : nodeOf (h.storePrev prev v).freeList =
    retarget prev (nodeOf h.freeList) (nodeOf v) := by
  cases prev <;> rfl

theorem storePrev_of_mem {l : List Nat} (away : l.Pairwise Away) (memP : ∀ p ∈ prev, p ∈ l)
    {b : Nat} (memB : b ∈ l) : (h.storePrev prev v).mem b = h.mem b := by
  cases prev with
  | none => rfl
  | some p => exact setNext_of_mem away (memP p rfl) memB v

/-- What is read through `prev` is where the rest of the list starts. -/
theorem chain_loadPrev {l₁ l₂ : List Nat}
    (chain : Chain (nextOf h.mem) (nodeOf h.freeList) (l₁ ++ l₂)) :
    Chain (nextOf h.mem) (nodeOf (h.loadPrev l₁.getLast?)) l₂ := by
  rcases List.eq_nil_or_concat l₁ with rfl | ⟨init, b, rfl⟩
  · exact chain
  · have whole : Chain (nextOf h.mem) (nodeOf h.freeList) (init ++ b :: l₂) := by
      simpa using chain
    simpa [loadPrev, nextOf] using whole.tail_of_append

end KernelHeap

namespace HeapShape

variable {h : KernelHeap} {free others l₁ l₂ : List Nat} {pages : List Region} {a b n : Nat}

theorem away (shape : HeapShape h free others pages) : (free ++ others).Pairwise Away := by
  have apart := shape.layout.away
  rwa [List.map_map, show Block.addr ∘ blockAt h.mem = id from rfl, List.map_id] at apart

/-- A block lies between address `0` and the end of the address space. -/
theorem bounds (shape : HeapShape h free others pages) (mem : b ∈ free ++ others) :
    0 < b ∧ b + blockHeader + h.mem b < 2 ^ 64 :=
  shape.layout.bounds (b := blockAt h.mem b) (List.mem_map_of_mem mem)

/-- The free list is shorter than the address space. -/
theorem short (shape : HeapShape h free others pages) : free.length < walkBound := by
  have below : ∀ b ∈ free, b < 2 ^ 64 - 1 := by
    intro b mem
    have bound := shape.bounds (List.mem_append_left others mem)
    simp only [blockHeader] at bound
    omega
  have card := Finset.card_le_card (s := free.toFinset) (t := Finset.range (2 ^ 64 - 1))
    fun b mem => Finset.mem_range.2 (below b (List.mem_toFinset.1 mem))
  rw [List.toFinset_card_of_nodup shape.chain.nodup, Finset.card_range] at card
  exact lt_of_le_of_lt card (by decide)

theorem nodup (shape : HeapShape h free others pages) : (free ++ others).Nodup :=
  shape.away.imp fun {a b} away => by
    simp only [Away, blockHeader] at away
    omega

/-- A shape is kept by a change of memory that leaves the sizes of its blocks alone. -/
theorem of_sizes {h' : KernelHeap} {free' others' : List Nat}
    (shape : HeapShape h free others pages)
    (chain : Chain (nextOf h'.mem) (nodeOf h'.freeList) free')
    (perm : (free ++ others).Perm (free' ++ others'))
    (bump : h'.heapCur = h.heapCur ∧ h'.heapEnd = h.heapEnd)
    (same : ∀ c ∈ free ++ others, h'.mem c = h.mem c) : HeapShape h' free' others' pages := by
  refine ⟨chain, ?_⟩
  rw [bump.1, bump.2, map_blockAt_congr fun c mem => same c (perm.mem_iff.2 mem)]
  exact shape.layout.perm (perm.map _)

theorem perm_others {others' : List Nat} (shape : HeapShape h free others pages)
    (perm : others.Perm others') : HeapShape h free others' pages :=
  shape.of_sizes shape.chain (perm.append_left free) ⟨rfl, rfl⟩ fun _ _ => rfl

/-- Two blocks of the shape are apart. -/
theorem apart_of_mem (shape : HeapShape h free others pages) (memA : a ∈ free ++ others)
    (memB : b ∈ free ++ others) (ne : a ≠ b) :
    (blockAt h.mem a).region.Apart (blockAt h.mem b).region := by
  have apart := (List.pairwise_cons.1 shape.layout.apart).2
  rw [List.map_map, List.pairwise_map] at apart
  have symm : Std.Symm fun c d : Nat => (Block.region ∘ blockAt h.mem) c |>.Apart
      ((Block.region ∘ blockAt h.mem) d) := ⟨fun _ _ => Region.Apart.symm⟩
  exact apart.forall memA memB ne

/-! ## Linking in -/

/-- `kfree` links a block in. -/
theorem link (shape : HeapShape h (l₁ ++ l₂) (b :: others) pages) :
    HeapShape (kfreeLink h l₁.getLast? b) (l₁ ++ b :: l₂) others pages ∧
      ∀ c ∈ l₁ ++ l₂ ++ b :: others, (kfreeLink h l₁.getLast? b).mem c = h.mem c := by
  have new : b ∉ l₁ ++ l₂ := fun mem =>
    (List.nodup_append.1 shape.nodup).2.2 b mem b (by simp) rfl
  have last : ∀ p ∈ l₁.getLast?, p ∈ l₁ ++ l₂ ++ b :: others := fun p mem => by
    simp [List.mem_of_getLast? mem]
  have sizes : ∀ c ∈ l₁ ++ l₂ ++ b :: others, (kfreeLink h l₁.getLast? b).mem c = h.mem c := by
    intro c mem
    rw [kfreeLink, KernelHeap.storePrev_of_mem _ _ _ shape.away last mem]
    exact setNext_of_mem shape.away (by simp) mem _
  have kept : ∀ c ∈ l₁ ++ l₂, nextOf (setNext h.mem b (h.loadPrev l₁.getLast?)) c =
      nextOf h.mem c := by
    intro c mem
    rw [nextOf_setNext, Function.update_of_ne]
    rintro rfl
    exact new mem
  have rest : Chain (nextOf (setNext h.mem b (h.loadPrev l₁.getLast?)))
      (nextOf (setNext h.mem b (h.loadPrev l₁.getLast?)) b) l₂ := by
    rw [show nextOf (setNext h.mem b (h.loadPrev l₁.getLast?)) b =
      nodeOf (h.loadPrev l₁.getLast?) by rw [nextOf_setNext, Function.update_self]]
    exact (h.chain_loadPrev shape.chain).congr fun c mem => kept c (List.mem_append_right _ mem)
  have chain := (shape.chain.congr kept).insert (t := b)
    (fun mem => new (List.mem_append_left _ mem)) rest
  refine ⟨shape.of_sizes ?_ ?_ ?_ sizes, sizes⟩
  · have notNull : b ≠ 0 := (shape.bounds (b := b) (by simp)).1.ne'
    rw [kfreeLink, KernelHeap.nextOf_storePrev, KernelHeap.nodeOf_storePrev, nodeOf_of_ne notNull]
    exact chain
  · simp only [List.append_assoc, List.cons_append]
    exact List.Perm.append_left _ List.perm_middle
  · exact ⟨KernelHeap.storePrev_heapCur .., KernelHeap.storePrev_heapEnd ..⟩

/-! ## Absorbing -/

theorem absorb_mem (h : KernelHeap) (b n : Nat) : (Mm.absorb h b n).mem =
    setNext (setSize h.mem b (wrap (h.mem b + (blockHeader + h.mem n)))) b
      (blockNext (setSize h.mem b (wrap (h.mem b + (blockHeader + h.mem n)))) n) := rfl

/-- A block absorbs its successor on the free list when that one starts where it ends. -/
theorem absorb (shape : HeapShape h (l₁ ++ b :: n :: l₂) others pages)
    (adjacent : b + blockHeader + h.mem b = n) :
    HeapShape (Mm.absorb h b n) (l₁ ++ b :: l₂) others pages ∧
      (Mm.absorb h b n).mem b = h.mem b + (blockHeader + h.mem n) ∧
      ∀ c ∈ l₁ ++ l₂ ++ others, (Mm.absorb h b n).mem c = h.mem c := by
  have away := shape.away
  have boundN := shape.bounds (b := n) (by simp)
  have noWrap : wrap (h.mem b + (blockHeader + h.mem n)) = h.mem b + (blockHeader + h.mem n) := by
    refine Nat.mod_eq_of_lt ?_
    simp only [blockHeader] at adjacent boundN ⊢
    omega
  have memB : b ∈ l₁ ++ b :: n :: l₂ ++ others := by simp
  have other : ∀ c ∈ l₁ ++ b :: n :: l₂ ++ others, c ≠ b → (Mm.absorb h b n).mem c = h.mem c := by
    intro c mem ne
    rw [absorb_mem, setNext_of_mem away memB mem]
    exact setSize_of_away (away_of_mem away memB mem ne.symm) _
  have size : (Mm.absorb h b n).mem b = h.mem b + (blockHeader + h.mem n) := by
    rw [absorb_mem, setNext_of_mem away memB memB, setSize_self, noWrap]
  have distinct := shape.nodup
  have off : b ∉ l₁ ++ l₂ ++ others ∧ n ∉ l₁ ++ l₂ ++ others := by
    simp only [List.nodup_append, List.nodup_cons, List.mem_cons, List.mem_append] at distinct ⊢
    grind
  have chain : Chain (nextOf (Mm.absorb h b n).mem) (nodeOf h.freeList) (l₁ ++ b :: l₂) := by
    have sizesOnly : ∀ c ∈ l₁ ++ b :: n :: l₂, nextOf (setSize h.mem b
        (wrap (h.mem b + (blockHeader + h.mem n)))) c = nextOf h.mem c := fun c mem => by
      rw [nextOf, blockNext_setSize_of_mem away memB (List.mem_append_left _ mem), nextOf]
    have whole : Chain (nextOf (setSize h.mem b (wrap (h.mem b + (blockHeader + h.mem n)))))
        (nodeOf h.freeList) ((l₁ ++ [b]) ++ n :: l₂) := by
      simpa using shape.chain.congr sizesOnly
    have past := whole.bypass
    simpa [absorb_mem, nextOf_setNext, nextOf] using past
  refine ⟨⟨chain, ?_⟩, size, fun c mem => other c ?_ ?_⟩
  · have old : HeapLayout ⟨h.heapCur, h.heapEnd⟩ (⟨b, h.mem b⟩ ::
        ⟨b + blockHeader + h.mem b, h.mem n⟩ :: (l₁ ++ l₂ ++ others).map (blockAt h.mem)) pages := by
      refine shape.layout.perm ?_
      rw [adjacent]
      have moved : (l₁ ++ b :: n :: l₂ ++ others).Perm (b :: n :: (l₁ ++ l₂ ++ others)) := by
        simp only [List.append_assoc, List.cons_append]
        exact List.perm_middle.trans (List.perm_middle.cons b)
      exact moved.map (blockAt h.mem)
    have moved : (b :: (l₁ ++ l₂ ++ others)).Perm (l₁ ++ b :: l₂ ++ others) := by
      simp only [List.append_assoc, List.cons_append]
      exact List.perm_middle.symm
    have blocks : (b :: (l₁ ++ l₂ ++ others)).map (blockAt (Mm.absorb h b n).mem) =
        ⟨b, h.mem b + (blockHeader + h.mem n)⟩ :: (l₁ ++ l₂ ++ others).map (blockAt h.mem) := by
      rw [List.map_cons, blockAt, size]
      congr 1
      refine map_blockAt_congr fun c mem => other c ?_ ?_
      · simp only [List.mem_append, List.mem_cons] at mem ⊢
        tauto
      · rintro rfl
        exact off.1 mem
    exact old.absorb.perm (blocks ▸ moved.map (blockAt (Mm.absorb h b n).mem))
  · simp only [List.mem_append, List.mem_cons] at mem ⊢
    tauto
  · rintro rfl
    exact off.1 mem

theorem blockEnd_eq (shape : HeapShape h free others pages) (mem : b ∈ free ++ others) :
    blockEnd h.mem b = b + blockHeader + h.mem b :=
  Nat.mod_eq_of_lt (shape.bounds mem).2

/-- `kfree` merges the block with its successor exactly where they are adjacent. -/
theorem mergeNext_cases (shape : HeapShape h (l₁ ++ b :: l₂) others pages) :
    (kfreeMergeNext h b = h ∧ ∀ n ∈ l₂.head?, b + blockHeader + h.mem b ≠ n) ∨
      ∃ n rest, l₂ = n :: rest ∧ b + blockHeader + h.mem b = n ∧
        kfreeMergeNext h b = Mm.absorb h b n := by
  have tail : Chain (nextOf h.mem) (nextOf h.mem b) l₂ := shape.chain.tail_of_append
  have stop := shape.blockEnd_eq (b := b) (by simp)
  by_cases adjacent : blockNext h.mem b ≠ 0 ∧ blockEnd h.mem b = blockNext h.mem b
  · obtain ⟨notNull, meet⟩ := adjacent
    rw [nextOf, nodeOf_of_ne notNull] at tail
    obtain ⟨rest, rfl, -⟩ := tail.cons_of_some
    refine .inr ⟨_, rest, rfl, stop.symm.trans meet, ?_⟩
    rw [kfreeMergeNext, if_pos ⟨notNull, meet⟩]
  · rw [kfreeMergeNext, if_neg adjacent]
    refine .inl ⟨rfl, fun n head meet => adjacent ?_⟩
    have first : nextOf h.mem b = some n := (Chain.head_eq tail).trans head
    obtain ⟨same, notNull⟩ := nodeOf_eq_some.1 first
    exact ⟨same ▸ notNull, by rw [stop, meet, same]⟩

/-- The merge with the successor keeps the shape. -/
theorem mergeNext (shape : HeapShape h (l₁ ++ b :: l₂) others pages) :
    ∃ rest, HeapShape (kfreeMergeNext h b) (l₁ ++ b :: rest) others pages ∧
      ∀ c ∈ others, (kfreeMergeNext h b).mem c = h.mem c := by
  rcases shape.mergeNext_cases with ⟨same, -⟩ | ⟨n, rest, rfl, meet, merged⟩
  · rw [same]
    exact ⟨l₂, shape, fun _ _ => rfl⟩
  · rw [merged]
    obtain ⟨shape', -, sizes⟩ := shape.absorb meet
    exact ⟨rest, shape', fun c mem => sizes c (List.mem_append_right _ mem)⟩

/-- The walk to the predecessor of a block on the list. -/
theorem kfreePred_eq {mem : Nat → Nat} {init rest : List Nat} {p fuel : Nat}
    (chain : Chain (nextOf mem) (nodeOf p) (init ++ a :: b :: rest))
    (enough : init.length < fuel) : kfreePred mem b fuel p = some a := by
  have distinct := chain.nodup
  induction init generalizing p fuel with
  | nil =>
      obtain ⟨fuel, rfl⟩ := Nat.exists_eq_succ_of_ne_zero (by omega : fuel ≠ 0)
      obtain ⟨start, link, -⟩ := chain
      obtain ⟨rfl, notNull⟩ := nodeOf_eq_some.1 start
      have successor : blockNext mem p = b := (nodeOf_eq_some.1 link).1
      simp [kfreePred, successor]
  | cons c init ih =>
      obtain ⟨fuel, rfl⟩ := Nat.exists_eq_succ_of_ne_zero (by omega : fuel ≠ 0)
      obtain ⟨start, rest_chain⟩ := chain
      obtain ⟨rfl, notNull⟩ := nodeOf_eq_some.1 start
      have elsewhere : blockNext mem p ≠ b := by
        intro same
        have next : nextOf mem p = (init ++ a :: b :: rest).head? := Chain.head_eq rest_chain
        rw [nextOf, same] at next
        have memB : b ∈ init ++ [a] := by
          cases init with
          | nil => simp [(nodeOf_eq_some.1 next).1]
          | cons d init => simp [(nodeOf_eq_some.1 next).1]
        simp only [List.cons_append, List.nodup_cons] at distinct
        have split : (init ++ [a] ++ b :: rest).Nodup := by simpa using distinct.2
        exact (List.nodup_append.1 split).2.2 b memB b (by simp) rfl
      rw [kfreePred, if_pos ⟨notNull, elsewhere⟩]
      exact ih rest_chain (by simpa using enough) (List.nodup_cons.1 distinct).2

/-- `kfree` merges the block with its predecessor exactly where they are adjacent. -/
theorem mergePrev_cases (shape : HeapShape h (l₁ ++ a :: b :: l₂) others pages) :
    (kfreeMergePrev h b = some h ∧ a + blockHeader + h.mem a ≠ b) ∨
      kfreeMergePrev h b = some (Mm.absorb h a b) ∧ a + blockHeader + h.mem a = b := by
  have enough : l₁.length < walkBound :=
    lt_of_le_of_lt (by simp) shape.short
  have notNull : a ≠ 0 := (shape.bounds (b := a) (by simp)).1.ne'
  rw [kfreeMergePrev, kfreePred_eq shape.chain enough, Option.map_some,
    shape.blockEnd_eq (b := a) (by simp)]
  by_cases adjacent : a + blockHeader + h.mem a = b
  · rw [if_pos ⟨notNull, adjacent⟩]
    exact .inr ⟨rfl, adjacent⟩
  · rw [if_neg fun both => adjacent both.2]
    exact .inl ⟨rfl, adjacent⟩

/-- The merge with the predecessor keeps the shape. -/
theorem mergePrev (shape : HeapShape h (l₁ ++ a :: b :: l₂) others pages) :
    ∃ h' free', kfreeMergePrev h b = some h' ∧ HeapShape h' free' others pages ∧
      ∀ c ∈ others, h'.mem c = h.mem c := by
  rcases shape.mergePrev_cases with ⟨same, -⟩ | ⟨merged, adjacent⟩
  · exact ⟨_, _, same, shape, fun _ _ => rfl⟩
  · obtain ⟨shape', -, sizes⟩ := shape.absorb adjacent
    exact ⟨_, _, merged, shape', fun c mem => sizes c (List.mem_append_right _ mem)⟩

/-- Where `kfree` links the block in. -/
theorem kfreeSeat_eq {mem : Nat → Nat} {l : List Nat} {p fuel : Nat} (prev : Option Nat)
    (chain : Chain (nextOf mem) (nodeOf p) l) (enough : l.length < fuel) :
    ∃ l₁ l₂, l = l₁ ++ l₂ ∧ (∀ c ∈ l₁, c < b) ∧ (∀ c ∈ l₂.head?, b ≤ c) ∧
      kfreeSeat mem b fuel prev p = some (l₁.getLast?.or prev) := by
  induction l generalizing p fuel prev with
  | nil =>
      obtain ⟨fuel, rfl⟩ := Nat.exists_eq_succ_of_ne_zero (by omega : fuel ≠ 0)
      obtain rfl := nodeOf_eq_none.1 chain
      exact ⟨[], [], rfl, by simp, by simp, by simp [kfreeSeat]⟩
  | cons c l ih =>
      obtain ⟨fuel, rfl⟩ := Nat.exists_eq_succ_of_ne_zero (by omega : fuel ≠ 0)
      obtain ⟨start, rest_chain⟩ := chain
      obtain ⟨rfl, notNull⟩ := nodeOf_eq_some.1 start
      by_cases before : p < b
      · obtain ⟨l₁, l₂, rfl, lower, upper, seat⟩ :=
          ih (some p) rest_chain (by simpa using enough)
        refine ⟨p :: l₁, l₂, rfl, List.forall_mem_cons.2 ⟨before, lower⟩, upper, ?_⟩
        rw [kfreeSeat, if_pos ⟨notNull, before⟩, seat]
        rw [List.getLast?_cons]
        cases l₁.getLast? <;> rfl
      · exact ⟨[], p :: l, rfl, by simp, by simpa using before, by simp [kfreeSeat, before]⟩

/-- What `kfree` does: it links the block in between the blocks before it and the others, and
merges it with its neighbours. -/
theorem kfree_cases (shape : HeapShape h free (b :: others) pages) :
    ∃ l₁ l₂, free = l₁ ++ l₂ ∧ (∀ c ∈ l₁, c < b) ∧ (∀ c ∈ l₂.head?, b ≤ c) ∧
      (l₁ = [] ∧ kfree h (b + blockHeader) =
          some (kfreeMergeNext (kfreeLink h l₁.getLast? b) b) ∨
        ∃ init a, l₁ = init ++ [a] ∧ kfree h (b + blockHeader) =
          kfreeMergePrev (kfreeMergeNext (kfreeLink h l₁.getLast? b) b) b) := by
  have bound := shape.bounds (b := b) (by simp)
  have block : wrap (b + blockHeader + 2 ^ 64 - blockHeader) = b := by
    simp only [wrap, blockHeader] at bound ⊢
    omega
  obtain ⟨l₁, l₂, rfl, lower, upper, seat⟩ := kfreeSeat_eq (b := b) none shape.chain shape.short
  have notNull : b + blockHeader ≠ 0 := by
    simp only [blockHeader]
    omega
  refine ⟨l₁, l₂, rfl, lower, upper, ?_⟩
  simp only [kfree, if_neg notNull, block, seat, Option.or_none, Option.bind_some]
  rcases List.eq_nil_or_concat l₁ with rfl | ⟨init, a, rfl⟩
  · exact .inl ⟨rfl, rfl⟩
  · refine .inr ⟨init, a, List.concat_eq_append, ?_⟩
    rw [List.concat_eq_append, List.getLast?_concat]

/-- **`kfree` puts a block on the free list.** -/
theorem kfree_ok (shape : HeapShape h free (b :: others) pages) :
    ∃ h' free', kfree h (b + blockHeader) = some h' ∧ HeapShape h' free' others pages ∧
      ∀ c ∈ others, h'.mem c = h.mem c := by
  obtain ⟨l₁, l₂, rfl, -, -, call⟩ := shape.kfree_cases
  obtain ⟨linked, sizes⟩ := shape.link
  obtain ⟨rest, merged, sameMerged⟩ := linked.mergeNext
  have same : ∀ c ∈ others,
      (kfreeMergeNext (kfreeLink h l₁.getLast? b) b).mem c = h.mem c := fun c mem =>
    (sameMerged c mem).trans (sizes c (by simp [mem]))
  rcases call with ⟨-, call⟩ | ⟨init, a, rfl, call⟩
  · exact ⟨_, _, call, merged, same⟩
  · have whole : HeapShape (kfreeMergeNext (kfreeLink h (init ++ [a]).getLast? b) b)
        (init ++ a :: b :: rest) others pages := by simpa using merged
    obtain ⟨h', free', eq, shape', samePrev⟩ := whole.mergePrev
    exact ⟨h', free', call.trans eq, shape', fun c mem => (samePrev c mem).trans (same c mem)⟩

end HeapShape

end NTux.Mm
