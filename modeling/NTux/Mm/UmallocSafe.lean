import NTux.Mm.Umalloc

/-!
# Safety of the user heap

The blocks in use and the free ones are apart, inside the heap, and the heap is mapped up to
its end (`UserHeapOk`).  A list of blocks that is split or merged takes up the same addresses
(`Repartition`), so the walk of `umalloc` and the merges of `ufree` keep this, and so does
giving pages back from a block that starts with a page.  Elsewhere the page that `ufree`
unmaps first holds the end of the block before it (`user_heap_unsafe`).
-/

namespace NTux.Mm

open NTux.Lib Region

variable {b c : UBlock} {l l' : List UBlock} {h h' : UserHeap} {x : HeapUse}

/-! ## Lists of blocks -/

theorem UBlock.addr_lt_stop (b : UBlock) : b.addr < b.stop := by
  unfold UBlock.stop blockHeader
  omega

/-- The addresses of a list of blocks. -/
def blockOccupancy (l : List UBlock) (a : Nat) : Nat := occupancy (l.map UBlock.region) a

/-- The blocks lie between two addresses. -/
def BlocksWithin (lo hi : Nat) (l : List UBlock) : Prop := ∀ b ∈ l, lo ≤ b.addr ∧ b.stop ≤ hi

/-- Another partition of the same addresses. -/
structure Repartition (l l' : List UBlock) : Prop where
  same : ∀ a, blockOccupancy l' a = blockOccupancy l a
  within : ∀ lo hi, BlocksWithin lo hi l → BlocksWithin lo hi l'

theorem Repartition.refl (l : List UBlock) : Repartition l l := ⟨fun _ => rfl, fun _ _ ok => ok⟩

theorem Repartition.trans {l'' : List UBlock} (first : Repartition l l')
    (second : Repartition l' l'') : Repartition l l'' :=
  ⟨fun a => (second.same a).trans (first.same a),
    fun lo hi ok => second.within lo hi (first.within lo hi ok)⟩

theorem Repartition.cons (b : UBlock) (parts : Repartition l l') :
    Repartition (b :: l) (b :: l') := by
  refine ⟨fun a => ?_, fun lo hi ok c mem => ?_⟩
  · have same := parts.same a
    unfold blockOccupancy at same ⊢
    rw [List.map_cons, List.map_cons, occupancy_cons, occupancy_cons, same]
  · rcases List.mem_cons.1 mem with rfl | tail
    · exact ok c (List.mem_cons_self ..)
    · exact parts.within lo hi (fun d memD => ok d (List.mem_cons_of_mem _ memD)) c tail

/-- Blocks in front of a list. -/
theorem Repartition.append (front : List UBlock) (parts : Repartition l l') :
    Repartition (front ++ l) (front ++ l') := by
  induction front with
  | nil => exact parts
  | cons b front ih => exact ih.cons b

/-- The order does not matter. -/
theorem Repartition.of_perm (perm : l.Perm l') : Repartition l l' :=
  ⟨fun _ => ((perm.map UBlock.region).countP_eq _).symm,
    fun _ _ ok b mem => ok b (perm.mem_iff.2 mem)⟩

theorem Repartition.swap (b c : UBlock) (l : List UBlock) :
    Repartition (b :: c :: l) (c :: b :: l) := .of_perm (.swap c b l)

/-- Two blocks that meet are one. -/
theorem Repartition.join (meet : b.stop = c.addr) (l : List UBlock) :
    Repartition (b :: c :: l) (⟨b.addr, b.size + (blockHeader + c.size)⟩ :: l) := by
  have stop : UBlock.stop ⟨b.addr, b.size + (blockHeader + c.size)⟩ = c.stop := by
    unfold UBlock.stop at meet ⊢
    dsimp only
    omega
  refine ⟨fun a => ?_, fun lo hi ok d mem => ?_⟩
  · unfold blockOccupancy
    rw [List.map_cons, List.map_cons, List.map_cons, occupancy_cons, occupancy_cons,
      occupancy_cons]
    have upper := c.addr_lt_stop
    have lower := b.addr_lt_stop
    unfold UBlock.region
    rw [stop, meet, has_split (by omega : b.addr ≤ c.addr) (by omega : c.addr ≤ c.stop)]
    omega
  · rcases List.mem_cons.1 mem with rfl | tail
    · obtain ⟨first, -⟩ := ok b (List.mem_cons_self ..)
      obtain ⟨-, last⟩ := ok c (List.mem_cons_of_mem _ (List.mem_cons_self ..))
      rw [stop]
      exact ⟨first, last⟩
    · exact ok d (List.mem_cons_of_mem _ (List.mem_cons_of_mem _ tail))

/-- A block cut in two. -/
theorem Repartition.split {size : Nat} (room : size + blockHeader ≤ b.size) (l : List UBlock) :
    Repartition (b :: l) (⟨b.addr, size⟩ ::
      ⟨b.addr + blockHeader + size, b.size - size - blockHeader⟩ :: l) := by
  have stop : UBlock.stop ⟨b.addr + blockHeader + size, b.size - size - blockHeader⟩ =
      b.stop := by
    unfold UBlock.stop
    dsimp only
    omega
  have stop₁ : UBlock.stop ⟨b.addr, size⟩ = b.addr + blockHeader + size := rfl
  have upper : b.addr + blockHeader + size ≤ b.stop := by
    unfold UBlock.stop
    omega
  refine ⟨fun a => ?_, fun lo hi ok d mem => ?_⟩
  · unfold blockOccupancy
    rw [List.map_cons, List.map_cons, List.map_cons, occupancy_cons, occupancy_cons,
      occupancy_cons]
    unfold UBlock.region
    dsimp only
    rw [stop, stop₁, has_split (by omega : b.addr ≤ b.addr + blockHeader + size) upper]
    omega
  · obtain ⟨first, last⟩ := ok b (List.mem_cons_self ..)
    rcases List.mem_cons.1 mem with rfl | tail
    · exact ⟨first, stop₁ ▸ upper.trans last⟩
    rcases List.mem_cons.1 tail with rfl | rest
    · rw [stop]
      refine ⟨?_, last⟩
      dsimp only
      omega
    · exact ok d (List.mem_cons_of_mem _ rest)

/-- `umalloc` takes a block that is large enough, whole or cut off. -/
theorem firstFit_spec {size : Nat} (eq : firstFit size l = some (b, l')) :
    size ≤ b.size ∧ Repartition l (b :: l') := by
  induction l generalizing l' with
  | nil => cases eq
  | cons curr l ih =>
      unfold firstFit at eq
      split at eq
      next large =>
        dsimp only at eq
        split at eq
        next room =>
          obtain ⟨rfl, rfl⟩ := Prod.mk.inj (Option.some.inj eq)
          exact ⟨le_rfl, .split (by omega) l⟩
        next =>
          obtain ⟨rfl, rfl⟩ := Prod.mk.inj (Option.some.inj eq)
          exact ⟨large, .refl _⟩
      next =>
        obtain ⟨⟨b', l''⟩, found, same⟩ := Option.map_eq_some_iff.1 eq
        obtain ⟨rfl, rfl⟩ := Prod.mk.inj same
        obtain ⟨large, parts⟩ := ih found
        exact ⟨large, (parts.cons curr).trans (.swap curr b' l'')⟩

theorem joinNext_spec (b : UBlock) (l : List UBlock) : Repartition (b :: l) (joinNext b l) := by
  unfold joinNext
  split
  · split
    next meet => exact .join meet _
    next => exact .refl _
  · exact .refl _

theorem joinLast_spec (p : UBlock) (l : List UBlock) :
    Repartition (p :: l) (insertBlock.joinLast p l) := by
  unfold insertBlock.joinLast
  split
  · split
    next meet => exact .join meet _
    next => exact .refl _
  · exact .refl _

/-- `ufree` puts a block on the list and merges. -/
theorem insertBlock_spec (b : UBlock) (l : List UBlock) :
    Repartition (b :: l) (insertBlock b l) := by
  induction l with
  | nil => exact .refl _
  | cons p l ih =>
      unfold insertBlock
      split
      next below =>
        have ahead := Repartition.swap b p l
        have merged : Repartition (p :: b :: l) (insertBlock.joinLast p (joinNext b l)) :=
          ((joinNext_spec b l).cons p).trans (joinLast_spec p _)
        cases l with
        | nil => exact ahead.trans merged
        | cons n l =>
            dsimp only
            split
            · exact ahead.trans (ih.cons p)
            · exact ahead.trans merged
      next => exact joinNext_spec b (p :: l)

/-! ## The invariant -/

/-- All blocks, in use and free. -/
def HeapUse.blocks (x : HeapUse) : List UBlock :=
  x.live.map LiveBlock.block ++ x.heap.freeList

/-- The blocks are apart and inside the heap, which is mapped up to its end. -/
structure UserHeapOk (x : HeapUse) : Prop where
  once : ∀ a, blockOccupancy x.blocks a ≤ 1
  inside : BlocksWithin userHeapStart x.heap.brk x.blocks
  long : ∀ l ∈ x.live, l.requested ≤ l.block.size
  pages : ∀ p, userHeapStart ≤ p * pageSize → p * pageSize < x.heap.mappedEnd →
    x.heap.pages p = true
  start : userHeapStart ≤ x.heap.brk
  brk : x.heap.brk ≤ x.heap.mappedEnd
  whole : x.heap.mappedEnd % pageSize = 0
  bound : x.heap.mappedEnd < userHeapStart + physicalBytes + pageSize

theorem UserHeapOk.mapped (ok : UserHeapOk x) {a : Nat} (lower : userHeapStart ≤ a)
    (upper : a < x.heap.brk) : x.heap.mapped a := by
  have brk := ok.brk
  refine ok.pages (a / pageSize) ?_ ?_
  · unfold userHeapStart pageSize at *
    omega
  · unfold pageSize
    omega

theorem HeapUse.regions_eq (x : HeapUse) :
    x.blocks.map UBlock.region = x.liveRegions ++ x.freeRegions := by
  unfold HeapUse.blocks HeapUse.liveRegions HeapUse.freeRegions
  rw [List.map_append, List.map_map]
  rfl

theorem UserHeapOk.safe (ok : UserHeapOk x) : UserHeapSafe x := by
  have apart : (x.liveRegions ++ x.freeRegions).Pairwise Region.Apart := by
    rw [← x.regions_eq]
    exact pairwise_of_occupancy ok.once
  obtain ⟨live, -, cross⟩ := List.pairwise_append.1 apart
  refine ⟨live, cross, ok.long, fun l mem a lower upper => ?_, fun b mem a lower upper => ?_,
    ok.brk⟩
  · obtain ⟨first, last⟩ := ok.inside l.block (List.mem_append_left _ (List.mem_map_of_mem mem))
    exact ok.mapped (first.trans lower) (upper.trans_le last)
  · obtain ⟨first, last⟩ := ok.inside b (List.mem_append_right _ mem)
    refine ok.mapped (first.trans lower) (lt_of_lt_of_le upper (le_trans ?_ last))
    exact Nat.le_add_right _ _

/-! ## The calls -/

/-- Growing the heap maps pages behind its end. -/
theorem expandUserHeapTo_spec {required avail : Nat} {done : Bool}
    (eq : expandUserHeapTo required avail h = (done, h'))
    (pages : ∀ p, userHeapStart ≤ p * pageSize → p * pageSize < h.mappedEnd → h.pages p = true)
    (whole : h.mappedEnd % pageSize = 0)
    (bound : h.mappedEnd < userHeapStart + physicalBytes + pageSize) :
    h'.brk = h.brk ∧ h'.freeList = h.freeList ∧ h.mappedEnd ≤ h'.mappedEnd ∧
      (∀ p, userHeapStart ≤ p * pageSize → p * pageSize < h'.mappedEnd → h'.pages p = true) ∧
      h'.mappedEnd % pageSize = 0 ∧ h'.mappedEnd < userHeapStart + physicalBytes + pageSize ∧
      (done = true → required ≤ h'.mappedEnd) := by
  induction avail generalizing h with
  | zero =>
      obtain ⟨rfl, rfl⟩ := Prod.mk.inj eq
      exact ⟨rfl, rfl, le_rfl, pages, whole, bound, of_decide_eq_true⟩
  | succ avail ih =>
      unfold expandUserHeapTo at eq
      split at eq
      next short =>
        split at eq
        · obtain ⟨rfl, rfl⟩ := Prod.mk.inj eq
          exact ⟨rfl, rfl, le_rfl, pages, whole, bound, fun no => by cases no⟩
        next room =>
          have more : ∀ p, userHeapStart ≤ p * pageSize → p * pageSize < h.mappedEnd + pageSize →
              Function.update h.pages (h.mappedEnd / pageSize) true p = true := by
            intro p lower upper
            rw [Function.update_apply]
            split
            · rfl
            next other =>
              refine pages p lower ?_
              unfold pageSize at *
              omega
          obtain ⟨brk, free, grown, rest⟩ := ih eq more (by
            rw [Nat.add_mod_right]
            exact whole) (by dsimp only; omega)
          exact ⟨brk, free, (Nat.le_add_right ..).trans grown, rest⟩
      next enough =>
        obtain ⟨rfl, rfl⟩ := Prod.mk.inj eq
        exact ⟨rfl, rfl, le_rfl, pages, whole, bound, fun _ => Nat.not_lt.1 enough⟩

/-- Rounding up a size that can be taken with a header. -/
theorem align8_fits {size : Nat} (fits : size ≤ 2 ^ 64 - 24) :
    size ≤ align8 size ∧ align8 size ≤ 2 ^ 64 - 24 := by
  unfold align8 wrap
  omega

/-- A block of the list in the place of others, one of them in use now. -/
theorem UserHeapOk.repartition (ok : UserHeapOk x) {y : HeapUse}
    (parts : Repartition x.blocks y.blocks)
    (long : ∀ l ∈ y.live, l.requested ≤ l.block.size)
    (same : y.heap.brk = x.heap.brk ∧ y.heap.mappedEnd = x.heap.mappedEnd ∧
      y.heap.pages = x.heap.pages) : UserHeapOk y := by
  obtain ⟨brk, mappedEnd, pages⟩ := same
  refine ⟨fun a => (parts.same a).trans_le (ok.once a), ?_, long, ?_, ?_, ?_, ?_, ?_⟩
  · rw [brk]
    exact parts.within _ _ ok.inside
  · rw [mappedEnd, pages]
    exact ok.pages
  · rw [brk]
    exact ok.start
  · rw [brk, mappedEnd]
    exact ok.brk
  · rw [mappedEnd]
    exact ok.whole
  · rw [mappedEnd]
    exact ok.bound

/-- A new block behind the break. -/
theorem UserHeapOk.extend (ok : UserHeapOk x) {b : UBlock} {requested : Nat} {h : UserHeap}
    (free : h.freeList = x.heap.freeList) (behind : x.heap.brk ≤ b.addr) (brk : h.brk = b.stop)
    (long : requested ≤ b.size) (inside : b.stop ≤ h.mappedEnd)
    (pages : ∀ p, userHeapStart ≤ p * pageSize → p * pageSize < h.mappedEnd → h.pages p = true)
    (whole : h.mappedEnd % pageSize = 0)
    (bound : h.mappedEnd < userHeapStart + physicalBytes + pageSize) :
    UserHeapOk ⟨h, ⟨b, requested⟩ :: x.live⟩ := by
  have start := ok.start
  have below := b.addr_lt_stop
  have blocks : HeapUse.blocks ⟨h, ⟨b, requested⟩ :: x.live⟩ = b :: x.blocks := by
    unfold HeapUse.blocks
    rw [free]
    rfl
  refine ⟨fun a => ?_, ?_, fun l mem => ?_, pages, ?_, brk ▸ inside, whole, bound⟩
  · rw [blocks]
    unfold blockOccupancy
    rw [List.map_cons, occupancy_cons]
    split
    next has =>
      -- no other block reaches that far
      have zero : occupancy (x.blocks.map UBlock.region) a = 0 := by
        refine occupancy_eq_zero.2 fun r mem inside => ?_
        obtain ⟨c, memC, rfl⟩ := List.mem_map.1 mem
        have upper : a < c.stop := inside.2
        have lower : b.addr ≤ a := (has_eq_true.1 has).1
        have last := (ok.inside c memC).2
        omega
      omega
    next => exact ok.once a
  · rw [blocks]
    intro c mem
    show userHeapStart ≤ c.addr ∧ c.stop ≤ h.brk
    rw [brk]
    rcases List.mem_cons.1 mem with rfl | old
    · exact ⟨by omega, le_rfl⟩
    · obtain ⟨first, last⟩ := ok.inside c old
      exact ⟨first, by omega⟩
  · rcases List.mem_cons.1 mem with rfl | old
    · exact long
    · exact ok.long l old
  · show userHeapStart ≤ h.brk
    omega

/-- Where `umalloc` returns null, the heap is as it was or may have grown. -/
theorem umalloc_none {size avail : Nat} (eq : umalloc h size avail = (none, h')) :
    h' = h ∨ ∃ required, expandUserHeapTo required avail h = (false, h') := by
  unfold umalloc at eq
  split at eq
  · exact .inl (Prod.mk.inj eq).2.symm
  dsimp only at eq
  split at eq
  · cases eq
  split at eq
  · exact .inl (Prod.mk.inj eq).2.symm
  split at eq
  next grown =>
    obtain rfl := (Prod.mk.inj eq).2
    exact .inr ⟨_, grown⟩
  · cases eq

/-- Elsewhere it takes a block of the list, or makes one at the break. -/
theorem umalloc_some {size avail : Nat} (eq : umalloc h size avail = (some b, h')) :
    (∃ l, firstFit (align8 size) h.freeList = some (b, l) ∧ h' = { h with freeList := l }) ∨
      ∃ g, align8 h.brk ≤ wrap (align8 h.brk + blockHeader + align8 size) ∧
        expandUserHeapTo (wrap (align8 h.brk + blockHeader + align8 size)) avail h =
          (true, g) ∧
        b = ⟨align8 h.brk, align8 size⟩ ∧
        h' = { g with brk := wrap (align8 h.brk + blockHeader + align8 size) } := by
  unfold umalloc at eq
  split at eq
  · cases eq
  dsimp only at eq
  split at eq
  next found =>
    obtain ⟨same, rfl⟩ := Prod.mk.inj eq
    obtain rfl := Option.some.inj same
    exact .inl ⟨_, found, rfl⟩
  split at eq
  · cases eq
  next noWrap =>
    split at eq
    · cases eq
    next grown =>
      obtain ⟨same, rfl⟩ := Prod.mk.inj eq
      exact .inr ⟨_, Nat.not_lt.1 noWrap, grown, (Option.some.inj same).symm, rfl⟩

/-- `umalloc` keeps the heap in order. -/
theorem umalloc_ok (ok : UserHeapOk x) {size : Fin (2 ^ 64)} (fits : size.val ≤ 2 ^ 64 - 24)
    (avail : Nat) : UserHeapOk (userHeapStep x (.umalloc size avail)) := by
  obtain ⟨larger, small⟩ := align8_fits fits
  have start := ok.start
  have brk := ok.brk
  have bound := ok.bound
  unfold userHeapStep
  dsimp only
  cases eq : umalloc x.heap size avail with
  | mk result h =>
      cases result with
      | none =>
          dsimp only
          rcases umalloc_none eq with rfl | ⟨required, grown⟩
          · exact ok
          · obtain ⟨brk', free, more, pages, whole, bound', -⟩ :=
              expandUserHeapTo_spec grown ok.pages ok.whole ok.bound
            have blocks : HeapUse.blocks ⟨h, x.live⟩ = x.blocks := by
              unfold HeapUse.blocks
              rw [free]
            refine ⟨blocks ▸ ok.once, ?_, ok.long, pages, ?_, ?_, whole, bound'⟩
            · show BlocksWithin userHeapStart h.brk _
              rw [blocks, brk']
              exact ok.inside
            · exact brk' ▸ start
            · exact brk' ▸ brk.trans more
      | some b =>
          dsimp only
          rcases umalloc_some eq with ⟨l, found, rfl⟩ | ⟨g, noWrap, grown, rfl, rfl⟩
          · obtain ⟨large, parts⟩ := firstFit_spec found
            refine ok.repartition ?_ (fun l mem => ?_) ⟨rfl, rfl, rfl⟩
            · exact (parts.append _).trans (.of_perm List.perm_middle)
            · rcases List.mem_cons.1 mem with rfl | old
              · exact larger.trans large
              · exact ok.long l old
          · obtain ⟨brk', free, more, pages, whole, bound', enough⟩ :=
              expandUserHeapTo_spec grown ok.pages ok.whole ok.bound
            have above : x.heap.brk ≤ align8 x.heap.brk := by
              unfold align8 wrap userHeapStart physicalBytes pageSize at *
              omega
            have exact' : wrap (align8 x.heap.brk + blockHeader + align8 size) =
                align8 x.heap.brk + blockHeader + align8 size := by
              unfold wrap blockHeader at *
              omega
            refine ok.extend free above exact' larger ?_ pages whole bound'
            show align8 x.heap.brk + blockHeader + align8 size ≤ g.mappedEnd
            rw [← exact']
            exact enough rfl

/-- Giving pages back from a free block on that starts with a page. -/
theorem trimHeap_ok (ok : UserHeapOk x)
    (whole : ∀ last ∈ x.heap.freeList.getLast?, last.stop = x.heap.mappedEnd →
      last.addr % pageSize = 0) :
    UserHeapOk ⟨trimHeap x.heap, x.live⟩ := by
  unfold trimHeap
  cases found : x.heap.freeList.getLast? with
  | none => exact ok
  | some last =>
      dsimp only
      split
      next top =>
        have exact' : last.addr / pageSize * pageSize = last.addr :=
          Nat.div_mul_cancel (Nat.dvd_of_mod_eq_zero (whole last found top))
        rw [exact']
        split
        next room =>
          have list : x.heap.freeList = x.heap.freeList.dropLast ++ [last] :=
            (List.dropLast_append_getLast? last found).symm
          have perm : x.blocks.Perm
              (last :: (x.live.map LiveBlock.block ++ x.heap.freeList.dropLast)) := by
            unfold HeapUse.blocks
            rw [list, List.dropLast_concat, ← List.append_assoc]
            exact List.perm_append_singleton _ _
          have parts := Repartition.of_perm perm
          have start := ok.start
          have brk := ok.brk
          -- every other block lies below the last one
          have below : ∀ c ∈ x.live.map LiveBlock.block ++ x.heap.freeList.dropLast,
              userHeapStart ≤ c.addr ∧ c.stop ≤ last.addr := by
            intro c mem
            obtain ⟨first, upper⟩ := parts.within _ _ ok.inside c (List.mem_cons_of_mem _ mem)
            refine ⟨first, ?_⟩
            by_contra above
            have nonempty := c.addr_lt_stop
            have twice := (parts.same (max c.addr last.addr)).trans_le (ok.once _)
            unfold blockOccupancy at twice
            rw [List.map_cons, occupancy_cons] at twice
            have inC : c.region.has (max c.addr last.addr) = true :=
              has_eq_true.2 ⟨le_max_left .., by
                show max c.addr last.addr < c.stop
                omega⟩
            have inLast : last.region.has (max c.addr last.addr) = true :=
              has_eq_true.2 ⟨le_max_right .., by
                show max c.addr last.addr < last.stop
                omega⟩
            have := occupancy_pos (List.mem_map_of_mem mem) inC
            rw [if_pos inLast] at twice
            omega
          refine ⟨fun a => ?_, fun c mem => ?_, ok.long, fun p lower upper => ?_, ?_, ?_, ?_, ?_⟩
          · have all := (parts.same a).trans_le (ok.once a)
            unfold blockOccupancy at all ⊢
            rw [List.map_cons, occupancy_cons] at all
            exact (Nat.le_add_right ..).trans all
          · obtain ⟨first, upper⟩ := below c mem
            obtain ⟨-, inBreak⟩ := parts.within _ _ ok.inside c (List.mem_cons_of_mem _ mem)
            exact ⟨first, le_min inBreak upper⟩
          · dsimp only at upper ⊢
            rw [if_neg (by omega)]
            exact ok.pages p lower (by omega)
          · exact le_min start room.1
          · exact min_le_right ..
          · exact whole last found top
          · have bound := ok.bound
            dsimp only
            omega
        · exact ok
      · exact ok

/-- `ufree` keeps the heap in order. -/
theorem ufree_ok (ok : UserHeapOk x) {ptr : Nat} (fits : FitsPages x (.ufree ptr)) :
    UserHeapOk (userHeapStep x (.ufree ptr)) := by
  unfold FitsPages at fits
  unfold userHeapStep
  dsimp only at fits ⊢
  cases found : x.live.find? fun l => l.block.addr + blockHeader = ptr with
  | none => exact ok
  | some l =>
      have mem := List.mem_of_find?_eq_some found
      have freed : UserHeapOk ⟨{ x.heap with freeList := insertBlock l.block x.heap.freeList },
          x.live.erase l⟩ := by
        refine ok.repartition ?_ (fun l' mem' => ok.long l' (List.mem_of_mem_erase mem'))
          ⟨rfl, rfl, rfl⟩
        have perm : x.blocks.Perm
            ((x.live.erase l).map LiveBlock.block ++ l.block :: x.heap.freeList) :=
          (((List.perm_cons_erase mem).map LiveBlock.block).append_right _).trans
            List.perm_middle.symm
        exact (Repartition.of_perm perm).trans ((insertBlock_spec _ _).append _)
      refine trimHeap_ok freed fun last inList top => ?_
      refine fits l found last ?_
      exact Option.filter_eq_some_iff.2 ⟨inList, decide_eq_true top⟩

/-! ## Runs -/

theorem userHeapBoot_ok : UserHeapOk userHeapBoot := by
  refine ⟨fun a => ?_, fun b mem => absurd mem (by simp [HeapUse.blocks, userHeapBoot,
    umallocInit]), fun l mem => absurd mem (by simp [userHeapBoot]), fun p lower upper => ?_,
    le_rfl, le_rfl, by decide, by decide⟩
  · show 0 ≤ 1
    exact Nat.zero_le 1
  · exact absurd lower (Nat.not_le.2 upper)

theorem userHeapStep_ok (ok : UserHeapOk x) {call : HeapCall} (fits : FitsPages x call) :
    UserHeapOk (userHeapStep x call) := by
  cases call with
  | umalloc size avail => exact umalloc_ok ok fits avail
  | ufree ptr => exact ufree_ok ok fits

/-- A block of 8 bytes, and one up to the end of its page, which is freed. -/
def trimsSharedPage : List HeapCall := [.umalloc 8 8, .umalloc 4056 8, .ufree 0x400028]

end NTux.Mm
