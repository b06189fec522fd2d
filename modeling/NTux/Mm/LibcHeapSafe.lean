import NTux.Mm.LibcHeap

/-!
# Safety of the C library's heap

The blocks in use and the free ones are apart; those in the array lie below the break, and
those of the kernel outside the array (`LibcHeapOk`).  While nothing wraps around and the
break is not moved below a block, the list is that of `mm/umalloc.c`, and every call keeps
this.  `libc_heap_short` is a call that does not fit.
-/

namespace NTux.Mm

open NTux.Lib Region

variable {g : StaticHeap} {x : LibcUse} {h h' : LibcHeap} {b : UBlock} {l l' : List UBlock}

/-! ## The list without wrap-around -/

theorem findFit_eq (below : BlocksWithin 0 (2 ^ 64 - 1) l) (size : Nat) :
    findFit size l = firstFit size l := by
  induction l with
  | nil => rfl
  | cons cur l ih =>
      have rest := ih fun c mem => below c (List.mem_cons_of_mem _ mem)
      have stop := (below cur (List.mem_cons_self ..)).2
      unfold findFit firstFit
      rw [rest]
      split
      next large =>
        have exact' : wrap (cur.addr + blockHeader + size) = cur.addr + blockHeader + size := by
          unfold wrap
          unfold UBlock.stop at stop
          omega
        rw [exact']
      next => rfl

theorem takeNext_eq (below : BlocksWithin 0 (2 ^ 64 - 1) (b :: l)) : takeNext b l = joinNext b l := by
  cases l with
  | nil => rfl
  | cons n l =>
      have stop := (below b (List.mem_cons_self ..)).2
      have next := (below n (List.mem_cons_of_mem _ (List.mem_cons_self ..))).2
      have exact' : wrap b.stop = b.stop := by
        unfold wrap
        omega
      simp only [takeNext, joinNext, exact']
      split
      next meet =>
        have whole : wrap (b.size + (blockHeader + n.size)) = b.size + (blockHeader + n.size) := by
          unfold wrap
          unfold UBlock.stop at meet next
          omega
        rw [whole]
      next => rfl

theorem joinLast_eq (p : UBlock) (l : List UBlock) : insertBlock.joinLast p l = joinNext p l := by
  cases l <;> rfl

/-- `free` puts a block on the list as `ufree` does. -/
theorem putBack_eq (below : BlocksWithin 0 (2 ^ 64 - 1) (b :: l)) :
    putBack b l = insertBlock b l := by
  induction l with
  | nil => rfl
  | cons p l ih =>
      have swapped := (Repartition.swap b p l).within _ _ below
      have rest : BlocksWithin 0 (2 ^ 64 - 1) (b :: l) := fun c mem =>
        swapped c (List.mem_cons_of_mem _ mem)
      have merged : takeNext p (takeNext b l) = insertBlock.joinLast p (joinNext b l) := by
        rw [takeNext_eq rest, joinLast_eq]
        exact takeNext_eq (((joinNext_spec b l).cons p).within _ _ swapped)
      unfold putBack insertBlock
      split
      · cases l with
        | nil => exact merged
        | cons n l =>
            dsimp only
            rw [ih rest, merged]
      · exact takeNext_eq below

/-! ## The invariant -/

/-- All blocks, in use and free. -/
def LibcUse.blocks (x : LibcUse) : List UBlock := x.live.map LiveBlock.block ++ x.heap.freeList

/-- The blocks are apart; those in the array lie below the break, the others outside it. -/
structure LibcHeapOk (g : StaticHeap) (x : LibcUse) : Prop where
  once : ∀ a, blockOccupancy x.blocks a ≤ 1
  free : BlocksWithin g.base (g.base + x.heap.brk) x.heap.freeList
  inside : ∀ l ∈ x.live, g.holds l.block.ptr = true →
    g.base ≤ l.block.addr ∧ l.block.stop ≤ g.base + x.heap.brk
  outside : ∀ l ∈ x.live, g.holds l.block.ptr = false → l.block.region.Apart g.region
  long : ∀ l ∈ x.live, l.requested ≤ l.block.size
  brk : x.heap.brk ≤ userHeapBytes

theorem StaticHeap.holds_iff {ptr : Nat} :
    g.holds ptr = true ↔ g.base ≤ ptr ∧ ptr < g.base + userHeapBytes := by
  rw [StaticHeap.holds, Bool.and_eq_true, decide_eq_true_eq, decide_eq_true_eq]

theorem LibcHeapOk.apart (ok : LibcHeapOk g x) :
    (x.live.map (fun l => l.block.region) ++ x.heap.freeList.map UBlock.region).Pairwise
      Region.Apart := by
  have all := pairwise_of_occupancy ok.once
  unfold LibcUse.blocks at all
  rwa [List.map_append, List.map_map] at all

theorem LibcHeapOk.safe (ok : LibcHeapOk g x) : LibcHeapSafe g x := by
  obtain ⟨live, -, cross⟩ := List.pairwise_append.1 ok.apart
  have sub : (x.inside g).Sublist x.live := List.filter_sublist
  have within : ∀ l ∈ x.inside g, l ∈ x.live ∧ g.holds l.block.ptr = true := fun l mem =>
    List.mem_filter.1 mem
  refine ⟨live.sublist (sub.map _), fun l mem b free => ?_, fun l mem => ?_, fun l mem => ?_⟩
  · exact cross _ (List.mem_map_of_mem (within l mem).1) _ (List.mem_map_of_mem free)
  · exact ok.long l (within l mem).1
  · exact (ok.inside l (within l mem).1 (within l mem).2).2

/-- The free blocks lie below 2^64, so nothing wraps around. -/
theorem LibcHeapOk.below (ok : LibcHeapOk g x) : BlocksWithin 0 (2 ^ 64 - 1) x.heap.freeList := by
  have fits := g.fits
  have brk := ok.brk
  intro c mem
  have := (ok.free c mem).2
  omega

/-! ## `malloc` -/

/-- `malloc` takes a free block, or one behind the break, or asks the kernel. -/
inductive MallocCases (g : StaticHeap) (h : LibcHeap) (size : Nat) (answer : Option UBlock) :
    Option UBlock → LibcHeap → Prop
  | nothing : size = 0 → MallocCases g h size answer none h
  | list (b : UBlock) (l : List UBlock) : size ≠ 0 → findFit (align8 size) h.freeList = some (b, l) →
      MallocCases g h size answer (some b) { h with freeList := l }
  | top (need : Nat) : size ≠ 0 → findFit (align8 size) h.freeList = none →
      need = wrap (align8 h.brk + blockHeader + align8 size) → need ≤ userHeapBytes →
      MallocCases g h size answer (some ⟨g.base + align8 h.brk, align8 size⟩) { h with brk := need }
  | kernel : size ≠ 0 → AsksKernel h size → MallocCases g h size answer answer h

theorem malloc_cases (g : StaticHeap) (h : LibcHeap) (size : Nat) (answer : Option UBlock) :
    MallocCases g h size answer (malloc g h size answer).1 (malloc g h size answer).2 := by
  unfold malloc
  split
  next zero => exact .nothing zero
  next pos =>
    dsimp only
    cases found : findFit (align8 size) h.freeList with
    | some r => exact .list r.1 r.2 pos found
    | none =>
        dsimp only
        split
        next room => exact .top _ pos found rfl room
        next full => exact .kernel pos ⟨found, Nat.not_le.1 full⟩

/-- What `malloc` does to the blocks in use, and nothing else. -/
theorem LibcUse.malloc_live (g : StaticHeap) (x : LibcUse) (size : Nat) (answer : Option UBlock) :
    (x.malloc g size answer).2.mem = x.mem ∧
      (x.malloc g size answer).2.heap = (Mm.malloc g x.heap size answer).2 ∧
      (x.malloc g size answer).1 = (Mm.malloc g x.heap size answer).1 ∧
      (x.malloc g size answer).2.live =
        ((Mm.malloc g x.heap size answer).1.map fun b => ⟨b, size⟩).toList ++ x.live := by
  unfold LibcUse.malloc
  cases Mm.malloc g x.heap size answer with
  | mk result h => cases result <;> exact ⟨rfl, rfl, rfl, rfl⟩

/-- Rounding up a size that does not wrap around. -/
theorem align8_ge {size : Nat} (le : size ≤ 2 ^ 64 - 8) : size ≤ align8 size := by
  unfold align8 wrap
  omega

/-- A block apart from the others shares no byte with them. -/
theorem blockOccupancy_cons_le {bs : List UBlock} (once : ∀ a, blockOccupancy bs a ≤ 1)
    (apart : ∀ c ∈ bs, b.region.Apart c.region) (a : Nat) : blockOccupancy (b :: bs) a ≤ 1 := by
  unfold blockOccupancy
  rw [List.map_cons, occupancy_cons]
  split
  next has =>
    have zero : occupancy (bs.map UBlock.region) a = 0 := by
      refine occupancy_eq_zero.2 fun r mem within => ?_
      obtain ⟨c, memC, rfl⟩ := List.mem_map.1 mem
      exact (apart c memC).not_mem (has_eq_true.1 has) within
    exact Nat.add_le_add_right (Nat.le_of_eq zero) 1
  next => exact once a

/-- A block of the array takes its place among the others. -/
theorem LibcHeapOk.addInside (ok : LibcHeapOk g x) {size : Nat} {h : LibcHeap}
    (once : ∀ a, blockOccupancy (b :: (x.live.map LiveBlock.block ++ h.freeList)) a ≤ 1)
    (free : BlocksWithin g.base (g.base + h.brk) (b :: h.freeList)) (grown : x.heap.brk ≤ h.brk)
    (brk : h.brk ≤ userHeapBytes) (some : size ≠ 0) (long : size ≤ b.size) :
    LibcHeapOk g ⟨h, ⟨b, size⟩ :: x.live, x.mem⟩ := by
  obtain ⟨first, last⟩ := free b (List.mem_cons_self ..)
  have holds : g.holds b.ptr = true := by
    rw [StaticHeap.holds_iff]
    unfold UBlock.stop at last
    unfold UBlock.ptr
    omega
  refine ⟨once, fun c mem => free c (List.mem_cons_of_mem _ mem), ?_, ?_, ?_, brk⟩
  · refine List.forall_mem_cons.2 ⟨fun _ => ⟨first, last⟩, fun l mem held => ?_⟩
    obtain ⟨lower, upper⟩ := ok.inside l mem held
    exact ⟨lower, upper.trans (Nat.add_le_add_left grown _)⟩
  · refine List.forall_mem_cons.2 ⟨fun no => ?_, ok.outside⟩
    exact absurd (holds.symm.trans no) (by decide)
  · exact List.forall_mem_cons.2 ⟨long, ok.long⟩

/-- A block taken from the list. -/
theorem LibcHeapOk.takeFree (ok : LibcHeapOk g x) {size : Nat}
    (found : findFit (align8 size) x.heap.freeList = some (b, l)) (some : size ≠ 0)
    (fits : size ≤ 2 ^ 64 - 8) :
    LibcHeapOk g ⟨{ x.heap with freeList := l }, ⟨b, size⟩ :: x.live, x.mem⟩ := by
  rw [findFit_eq ok.below] at found
  obtain ⟨large, parts⟩ := firstFit_spec found
  refine ok.addInside (fun a => ?_) (parts.within _ _ ok.free) (le_refl _) ok.brk some
    ((align8_ge fits).trans large)
  have moved := (parts.append (x.live.map LiveBlock.block)).trans (.of_perm List.perm_middle)
  exact (moved.same a).trans_le (ok.once a)

/-- A block behind the break. -/
theorem LibcHeapOk.growTop (ok : LibcHeapOk g x) {size need : Nat} (some : size ≠ 0)
    (fits : size ≤ 2 ^ 64 - 8)
    (eq : need = align8 x.heap.brk + blockHeader + align8 size) (room : need ≤ userHeapBytes) :
    LibcHeapOk g ⟨{ x.heap with brk := need },
      ⟨⟨g.base + align8 x.heap.brk, align8 size⟩, size⟩ :: x.live, x.mem⟩ := by
  have brk := ok.brk
  have above : x.heap.brk ≤ align8 x.heap.brk := align8_ge (by unfold userHeapBytes at brk; omega)
  have stop : UBlock.stop ⟨g.base + align8 x.heap.brk, align8 size⟩ = g.base + need := by
    unfold UBlock.stop
    dsimp only
    omega
  have grown : x.heap.brk ≤ need := by omega
  refine ok.addInside (blockOccupancy_cons_le ok.once fun c memC => ?_) (fun c mem => ?_) grown room
    some (align8_ge fits)
  · -- no other block reaches behind the break
    refine Set.disjoint_left.2 fun a mem within => ?_
    have upper : a < g.base + need := stop ▸ mem.2
    have lower : g.base + align8 x.heap.brk ≤ a := mem.1
    have inC : a < c.stop := within.2
    rcases List.mem_append.1 memC with live | free
    · obtain ⟨l, memL, rfl⟩ := List.mem_map.1 live
      cases held : g.holds l.block.ptr with
      | true =>
          have := (ok.inside l memL held).2
          omega
      | false =>
          refine (ok.outside l memL held).not_mem within ?_
          exact ⟨by show g.base ≤ a; omega, by show a < g.base + userHeapBytes; omega⟩
    · have := (ok.free c free).2
      omega
  · rcases List.mem_cons.1 mem with rfl | old
    · exact ⟨Nat.le_add_right .., Nat.le_of_eq stop⟩
    · obtain ⟨lower, upper⟩ := ok.free c old
      exact ⟨lower, upper.trans (Nat.add_le_add_left grown _)⟩

/-- A block of the kernel. -/
theorem LibcHeapOk.addKernel (ok : LibcHeapOk g x) {size : Nat} (some : size ≠ 0)
    (long : size ≤ b.size) (outside : b.region.Apart g.region)
    (apart : ∀ l ∈ x.live, b.region.Apart l.block.region) :
    LibcHeapOk g ⟨x.heap, ⟨b, size⟩ :: x.live, x.mem⟩ := by
  have ptr : b.ptr ∈ b.region.cells := by
    refine ⟨Nat.le_add_right .., ?_⟩
    show b.ptr < b.stop
    unfold UBlock.ptr UBlock.stop
    omega
  -- the list is inside the array, and the block of the kernel outside
  have free : ∀ c ∈ x.heap.freeList, b.region.Apart c.region := fun c mem => by
    refine (outside.symm.mono fun a within => ?_).symm
    obtain ⟨lower, upper⟩ := ok.free c mem
    have brk := ok.brk
    have first : c.addr ≤ a := within.1
    have last : a < c.stop := within.2
    exact ⟨by show g.base ≤ a; omega, by show a < g.base + userHeapBytes; omega⟩
  refine ⟨blockOccupancy_cons_le ok.once fun c memC => ?_, ok.free, ?_, ?_, ?_, ok.brk⟩
  · rcases List.mem_append.1 memC with live | listed
    · obtain ⟨l, memL, rfl⟩ := List.mem_map.1 live
      exact apart l memL
    · exact free c listed
  · refine List.forall_mem_cons.2 ⟨fun held => ?_, ok.inside⟩
    exact absurd (StaticHeap.holds_iff.1 held) (outside.not_mem ptr)
  · exact List.forall_mem_cons.2 ⟨fun _ => outside, ok.outside⟩
  · exact List.forall_mem_cons.2 ⟨long, ok.long⟩

/-- `malloc` keeps the heap in order. -/
theorem LibcHeapOk.malloc (ok : LibcHeapOk g x) {size : Nat} {answer : Option UBlock}
    (fits : FitsMalloc g x size answer) : LibcHeapOk g (x.malloc g size answer).2 := by
  have cases' := malloc_cases g x.heap size answer
  unfold LibcUse.malloc
  cases eq : Mm.malloc g x.heap size answer with
  | mk result h =>
      rw [eq] at cases'
      dsimp only at cases'
      cases cases' with
      | nothing => exact ok
      | list b l pos found =>
          -- with a block on the list the kernel is not asked
          rcases fits.wraps with zero | asks | ⟨small, -⟩
          · exact absurd zero pos
          · rw [asks.1] at found
            cases found
          · exact ok.takeFree found pos small
      | top need pos found end' room =>
          -- the end of the block has not wrapped, so the break moves up
          rcases fits.wraps with zero | asks | ⟨small, whole⟩
          · exact absurd zero pos
          · exact absurd asks.2 (by omega)
          · exact ok.growTop pos small (end'.trans (Nat.mod_eq_of_lt whole)) room
      | kernel pos asks =>
          cases answer with
          | none => exact ok
          | some b =>
              obtain ⟨long, outside, apart⟩ := fits.kernel asks b rfl
              exact ok.addKernel pos long outside apart

/-! ## The other calls -/

theorem LibcUse.block_mem {ptr : Nat} {l : LiveBlock} (found : x.block ptr = some l) :
    l ∈ x.live ∧ l.block.ptr = ptr :=
  ⟨List.mem_of_find?_eq_some found, by simpa using List.find?_some found⟩

/-- `free` keeps the heap in order. -/
theorem LibcHeapOk.freeBlock (ok : LibcHeapOk g x) {l : LiveBlock} (mem : l ∈ x.live) :
    LibcHeapOk g (x.free g l) := by
  have perm : x.blocks.Perm ((x.live.erase l).map LiveBlock.block ++ l.block :: x.heap.freeList) :=
    (((List.perm_cons_erase mem).map LiveBlock.block).append_right _).trans List.perm_middle.symm
  unfold LibcUse.free Mm.free
  split
  next held =>
    have both : BlocksWithin g.base (g.base + x.heap.brk) (l.block :: x.heap.freeList) :=
      List.forall_mem_cons.2 ⟨ok.inside l mem held, ok.free⟩
    have fits := g.fits
    have brk := ok.brk
    have below : BlocksWithin 0 (2 ^ 64 - 1) (l.block :: x.heap.freeList) := fun c memC => by
      have := (both c memC).2
      omega
    rw [putBack_eq below]
    have merged := insertBlock_spec l.block x.heap.freeList
    refine ⟨fun a => ?_, merged.within _ _ both, fun k kept => ?_, fun k kept => ?_,
      fun k kept => ?_, ok.brk⟩
    · exact (((Repartition.of_perm perm).trans (merged.append _)).same a).trans_le (ok.once a)
    · exact ok.inside k (List.mem_of_mem_erase kept)
    · exact ok.outside k (List.mem_of_mem_erase kept)
    · exact ok.long k (List.mem_of_mem_erase kept)
  next =>
    refine ⟨fun a => ?_, ok.free, fun k kept => ?_, fun k kept => ?_, fun k kept => ?_, ok.brk⟩
    · have fewer : ((x.live.erase l).map LiveBlock.block ++ x.heap.freeList).Sublist x.blocks :=
        ((List.erase_sublist ..).map _).append_right _
      exact ((fewer.map UBlock.region).countP_le).trans (ok.once a)
    · exact ok.inside k (List.mem_of_mem_erase kept)
    · exact ok.outside k (List.mem_of_mem_erase kept)
    · exact ok.long k (List.mem_of_mem_erase kept)

/-- A block in use whose requested size changes. -/
theorem LibcHeapOk.resize (ok : LibcHeapOk g x) {l : LiveBlock} (mem : l ∈ x.live) {size : Nat}
    (le : size ≤ l.block.size) :
    LibcHeapOk g { x with live := ⟨l.block, size⟩ :: x.live.erase l } := by
  have perm : x.blocks.Perm
      ((⟨l.block, size⟩ :: x.live.erase l : List LiveBlock).map LiveBlock.block ++
        x.heap.freeList) :=
    ((List.perm_cons_erase mem).map LiveBlock.block).append_right _
  refine ⟨fun a => ?_, ok.free, ?_, ?_, ?_, ok.brk⟩
  · exact ((Repartition.of_perm perm).same a).trans_le (ok.once a)
  · exact List.forall_mem_cons.2 ⟨ok.inside l mem, fun k kept =>
      ok.inside k (List.mem_of_mem_erase kept)⟩
  · exact List.forall_mem_cons.2 ⟨ok.outside l mem, fun k kept =>
      ok.outside k (List.mem_of_mem_erase kept)⟩
  · exact List.forall_mem_cons.2 ⟨le, fun k kept => ok.long k (List.mem_of_mem_erase kept)⟩

/-- What is in the memory does not matter. -/
theorem LibcHeapOk.store (ok : LibcHeapOk g x) (mem : Nat → UInt8) :
    LibcHeapOk g { x with mem := mem } :=
  ⟨ok.once, ok.free, ok.inside, ok.outside, ok.long, ok.brk⟩

/-- The break is moved, but below no block. -/
theorem LibcHeapOk.moveBreak (ok : LibcHeapOk g x) {brk : Nat} (keeps : KeepsBreak g x brk)
    (le : brk ≤ userHeapBytes) : LibcHeapOk g { x with heap := { x.heap with brk := brk } } := by
  refine ⟨ok.once, fun c mem => ⟨(ok.free c mem).1, keeps.2 c mem⟩, fun l mem held => ?_,
    ok.outside, ok.long, le⟩
  exact ⟨(ok.inside l mem held).1, keeps.1 l (List.mem_filter.2 ⟨mem, held⟩)⟩

/-- What `brk` and `sbrk` leave is a break in the array. -/
theorem brk_heap (g : StaticHeap) (h : LibcHeap) (addr : Nat) (le : h.brk ≤ userHeapBytes) :
    (Mm.brk g h addr).2 = { h with brk := (Mm.brk g h addr).2.brk } ∧
      (Mm.brk g h addr).2.brk ≤ userHeapBytes := by
  unfold Mm.brk
  split
  · exact ⟨rfl, le⟩
  split
  · exact ⟨rfl, le⟩
  next inside =>
    refine ⟨rfl, ?_⟩
    show addr - g.base ≤ userHeapBytes
    omega

theorem sbrk_heap (g : StaticHeap) (h : LibcHeap) (increment : Int) (le : h.brk ≤ userHeapBytes) :
    (Mm.sbrk g h increment).2 = { h with brk := (Mm.sbrk g h increment).2.brk } ∧
      (Mm.sbrk g h increment).2.brk ≤ userHeapBytes ∧
      ∀ old ∈ (Mm.sbrk g h increment).1, old = g.base + h.brk := by
  unfold Mm.sbrk
  split
  · exact ⟨rfl, le, fun old mem => (Option.some.inj mem).symm⟩
  split
  · split
    · exact ⟨rfl, le, fun old mem => by cases mem⟩
    · exact ⟨rfl, (Nat.sub_le ..).trans le, fun old mem => (Option.some.inj mem).symm⟩
  split
  · exact ⟨rfl, le, fun old mem => by cases mem⟩
  next room => exact ⟨rfl, Nat.not_lt.1 room, fun old mem => (Option.some.inj mem).symm⟩

/-- `realloc` keeps the heap in order, where its `malloc` fits. -/
theorem LibcHeapOk.realloc (ok : LibcHeapOk g x) {l : LiveBlock} (mem : l ∈ x.live) {size : Nat}
    {answer : Option UBlock} (fits : l.block.size < size → FitsMalloc g x size answer) :
    LibcHeapOk g (x.realloc g l size answer).2 := by
  unfold LibcUse.realloc
  split
  · exact ok.freeBlock mem
  split
  next enough => exact ok.resize mem enough
  next short =>
    have ok' := ok.malloc (fits (Nat.not_le.1 short))
    obtain ⟨-, -, -, live⟩ := x.malloc_live g size answer
    cases eq : x.malloc g size answer with
    | mk result y =>
        rw [eq] at ok' live
        cases result with
        | none => exact ok'
        | some n =>
            refine (ok'.store _).freeBlock ?_
            show l ∈ y.live
            rw [show y.live = _ from live]
            exact List.mem_append_right _ mem

/-- A call that fits keeps the heap in order. -/
theorem libcStep_ok (ok : LibcHeapOk g x) {c : LibcCall} (fits : FitsLibc g x c) :
    LibcHeapOk g (libcStep g x c) := by
  cases c with
  | malloc size answer => exact ok.malloc fits
  | calloc nmemb size answer =>
      show LibcHeapOk g (x.calloc g nmemb size answer).2
      unfold LibcUse.calloc
      split
      next zero =>
        have total : nmemb.val * size.val = 0 := by
          rcases zero with zero | zero <;> rw [zero] <;> simp
        have fits' := fits (by omega)
        rw [total] at fits'
        exact ok.malloc fits'
      split
      · exact ok
      next room =>
        have total : nmemb.val * size.val < 2 ^ 64 := by
          have le := (Nat.le_div_iff_mul_le (by omega)).1 (Nat.not_lt.1 room)
          omega
        have ok' := ok.malloc (fits total)
        cases eq : x.malloc g (nmemb.val * size.val) answer with
        | mk result y =>
            rw [eq] at ok'
            cases result with
            | none => exact ok'
            | some n => exact ok'.store _
  | realloc ptr size answer =>
      simp only [libcStep]
      split
      next null => exact ok.malloc (fits.1 null)
      next =>
        cases found : x.block ptr with
        | none => exact ok
        | some l => exact ok.realloc (x.block_mem found).1 (fits.2 l found)
  | free ptr =>
      simp only [libcStep]
      cases found : x.block ptr with
      | none => exact ok
      | some l => exact ok.freeBlock (x.block_mem found).1
  | brk addr =>
      obtain ⟨same, le⟩ := brk_heap g x.heap addr ok.brk
      simp only [libcStep]
      rw [same]
      exact ok.moveBreak fits le
  | sbrk increment =>
      obtain ⟨same, le, -⟩ := sbrk_heap g x.heap increment ok.brk
      simp only [libcStep]
      rw [same]
      exact ok.moveBreak fits le
  | store a v => exact ok.store _

/-- A call that fits is sound. -/
theorem soundCall_of_ok (ok : LibcHeapOk g x) {c : LibcCall} (fits : FitsLibc g x c) :
    SoundCall g x c := by
  cases c with
  | realloc ptr size answer =>
      intro l found n result
      obtain ⟨mem, rfl⟩ := x.block_mem found
      have long := ok.long l mem
      unfold LibcUse.realloc at result ⊢
      split at result
      · cases result
      next some =>
        rw [if_neg some]
        split at result
        next enough =>
          rw [if_pos enough]
          obtain rfl := Option.some.inj result
          exact ⟨.inl rfl, fun i _ _ => rfl⟩
        next short =>
          rw [if_neg short]
          have ok' := ok.malloc (fits.2 l found (Nat.not_le.1 short))
          obtain ⟨sameMem, -, first, live⟩ := x.malloc_live g size answer
          cases eq : x.malloc g size answer with
          | mk r y =>
              rw [eq] at ok' live first sameMem result
              cases r with
              | none => cases result
              | some n' =>
                  obtain rfl := Option.some.inj result
                  have live' : y.live = ⟨n', size⟩ :: x.live := by
                    rw [show y.live = _ from live, ← first]
                    rfl
                  refine ⟨.inr ?_, fun i lower upper => ?_⟩
                  · have all := (List.pairwise_append.1 ok'.apart).1
                    rw [live'] at all
                    exact List.rel_of_pairwise_cons all (List.mem_map_of_mem mem)
                  · show memcpy y.mem n'.ptr l.block.ptr l.block.size (n'.ptr + i) = _
                    unfold memcpy
                    rw [if_pos ⟨Nat.le_add_right .., by omega⟩, Nat.add_sub_cancel_left]
                    exact congrFun sameMem _
  | sbrk increment =>
      intro old mem l within
      obtain ⟨-, -, start⟩ := sbrk_heap g x.heap increment ok.brk
      obtain ⟨live, held⟩ := List.mem_filter.1 within
      have := (ok.inside l live held).2
      rw [apart_iff, start old mem]
      exact (min_le_left _ _).trans (this.trans (le_max_right _ _))
  | malloc size answer => trivial
  | calloc nmemb size answer => trivial
  | free ptr => trivial
  | brk addr => trivial
  | store a v => trivial

/-! ## Runs -/

theorem libcBoot_ok (g : StaticHeap) (mem : Nat → UInt8) : LibcHeapOk g (libcBoot mem) where
  once _ := Nat.zero_le 1
  free _ mem := absurd mem List.not_mem_nil
  inside _ mem := absurd mem List.not_mem_nil
  outside _ mem := absurd mem List.not_mem_nil
  long _ mem := absurd mem List.not_mem_nil
  brk := Nat.zero_le _

/-- **In every run of calls that fit, the heap is safe at the end, every `realloc` has
preserved the bytes of its block, and every `sbrk` has kept away from the blocks.** -/
theorem libc_heap_safe (g : StaticHeap) (mem : Nat → UInt8) (calls : List LibcCall)
    (fits : AllSteps (libcStep g) (FitsLibc g) (libcBoot mem) calls) :
    LibcHeapSafe g (run (libcStep g) (libcBoot mem) calls) ∧
      AllSteps (libcStep g) (SoundCall g) (libcBoot mem) calls := by
  have keep : ∀ x c, LibcHeapOk g x → FitsLibc g x c → LibcHeapOk g (libcStep g x c) :=
    fun _ _ ok fits => libcStep_ok ok fits
  have start := libcBoot_ok g mem
  exact ⟨(run_invariant keep start fits).safe,
    AllSteps.of_invariant keep (fun _ _ ok fits => soundCall_of_ok ok fits) start fits⟩

/-- The array of a program that is loaded at 2 MiB. -/
def lowHeap : StaticHeap := ⟨0x200000, by decide⟩

/-- Two blocks, of which the first one is moved behind the second, and a larger break. -/
theorem libc_heap_safe_moved :
    LibcHeapSafe lowHeap (run (libcStep lowHeap) (libcBoot fun _ => 0)
        [.malloc 100 none, .malloc 8 none, .realloc 0x200010 200 none, .sbrk 4096]) ∧
      AllSteps (libcStep lowHeap) (SoundCall lowHeap) (libcBoot fun _ => 0)
        [.malloc 100 none, .malloc 8 none, .realloc 0x200010 200 none, .sbrk 4096] := by
  refine libc_heap_safe lowHeap (fun _ => 0) _ ⟨?_, ?_, ⟨?_, ?_⟩, ?_, trivial⟩
  · exact ⟨.inr (.inr (by decide +kernel)), fun _ b mem => by cases mem⟩
  · exact ⟨.inr (.inr (by decide +kernel)), fun _ b mem => by cases mem⟩
  · exact fun null => absurd null (by decide)
  · exact fun l _ _ => ⟨.inr (.inr (by decide +kernel)), fun _ b mem => by cases mem⟩
  · exact ⟨by decide +kernel, by decide +kernel⟩

/-- The largest size is rounded up to 0: the block has no byte. -/
theorem libc_heap_short :
    ¬ ∀ (g : StaticHeap) (mem : Nat → UInt8) (calls : List LibcCall),
      LibcHeapSafe g (run (libcStep g) (libcBoot mem) calls) := by
  intro all
  have long := (all lowHeap (fun _ => 0) [.malloc (Fin.last _) none]).long
  exact absurd long (by decide +kernel)

end NTux.Mm
