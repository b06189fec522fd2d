import NTux.Mm.UmallocSafe

/-!
# The user heap of several processes

Each process has an address space of its own, but break, mapped end and free list of the
user heap are statics of the kernel.  `expand_user_heap_to` maps pages into the space of
the caller, and the heap begins at `USER_HEAP_START` in each of them, wherever the image
of the process, its stack and the area of `linux_brk` are.

What a call does is what it does to the heap with the pages of its caller
(`SpaceState.use`).  A process is served well where the heap up to its mapped end is mapped
in its space, the blocks it meets are its own and the heap reaches nothing else
(`heap_isolated`).
-/

namespace NTux.Mm

open NTux.Lib Region

/-! ## Processes -/

/-- `NTUX_USER_ASLR_MIN`. -/
def userAslrMin : Nat := 0x160000

/-- `NTUX_USER_ASLR_MAX`. -/
def userAslrMax : Nat := 0x80000000

/-- `NTUX_USER_STACK_PAGES` pages. -/
def userStackBytes : Nat := 16 * pageSize

/-- `NTUX_USER_HEAP_EXTRA_BYTES`. -/
def userHeapExtraBytes : Nat := 32 * 1024 * 1024

/-- What a range has behind the segments: a guard page, the stack and the extra bytes. -/
def rangeExtra : Nat := pageSize + userStackBytes + userHeapExtraBytes

/-- A program: where its segments start, unless it can be moved, and the pages from the
first one to the last one. -/
structure Program where
  fixed : Option Nat
  span : Nat

/-- `choose_dynamic_user_base`: the walk over the bases ends at the first one, which is
taken, or nothing is, for want of room or of a slot. -/
def chooseDynamicUserBase (span : Nat) (slotFree : Bool) : Option Nat :=
  if userAslrMin + span ≤ userAslrMax ∧ slotFree then some userAslrMin else none

/-- Where a program is loaded. -/
def userBase (prog : Program) (slotFree : Bool) : Option Nat :=
  match prog.fixed with
  | some start => if slotFree then some start else none
  | none => chooseDynamicUserBase (prog.span + rangeExtra) slotFree

/-- The address space of a process: its image, its stack, which ends with the range, and
the pages that are mapped. -/
structure Space where
  image : Region
  stack : Region
  pages : Nat → Bool

/-- The space of a program at a base. -/
def launchSpace (base span : Nat) : Space where
  image := ⟨base, base + span⟩
  stack := ⟨base + span + rangeExtra - userStackBytes, base + span + rangeExtra⟩
  pages p := base ≤ p * pageSize && p * pageSize < base + span + rangeExtra

/-- The statics of `umalloc.c` and of `linux_brk`, the processes, the process in whose space
the header at an address was made, and the blocks in use. -/
structure SpaceState where
  brk : Nat
  mappedEnd : Nat
  freeList : List UBlock
  linuxBrk : Nat
  linuxMappedEnd : Nat
  spaces : Nat → Option Space
  writer : Nat → Option Nat
  live : List LiveBlock

/-- Before the first process. -/
def spacesBoot : SpaceState where
  brk := userHeapStart
  mappedEnd := userHeapStart
  freeList := []
  linuxBrk := userHeapStart
  linuxMappedEnd := userHeapStart
  spaces _ := none
  writer _ := none
  live := []

/-- A process is started, calls `umalloc` or `ufree`, or moves the Linux break, `avail`
pages being there. -/
inductive SpaceCall
  | launch (pid : Nat) (prog : Program) (slotFree : Bool)
  | heap (pid : Nat) (call : HeapCall)
  | linuxBrk (pid newBrk avail : Nat)

/-- The heap as a process finds it. -/
def SpaceState.use (x : SpaceState) (s : Space) : HeapUse :=
  ⟨⟨x.brk, x.mappedEnd, x.freeList, s.pages⟩, x.live⟩

/-- The addresses of the blocks of a heap. -/
def HeapUse.headers (u : HeapUse) : List Nat := u.blocks.map UBlock.addr

/-- The processes that made the headers, after a call. -/
def SpaceState.writes (x : SpaceState) (pid : Nat) (before after : HeapUse) (a : Nat) :
    Option Nat :=
  if a ∈ after.headers ∧ a ∉ before.headers then some pid else x.writer a

/-- `linux_brk`. -/
def linuxBrkStep (x : SpaceState) (pid : Nat) (s : Space) (newBrk avail : Nat) : SpaceState :=
  if newBrk < userHeapStart then x
  else
    let needed := (newBrk - x.linuxMappedEnd + (pageSize - 1)) / pageSize
    let mapped := min needed avail
    let pages : Nat → Bool := fun p =>
      s.pages p || (x.linuxMappedEnd ≤ p * pageSize &&
        p * pageSize < x.linuxMappedEnd + mapped * pageSize)
    { x with linuxMappedEnd := x.linuxMappedEnd + mapped * pageSize
             spaces := Function.update x.spaces pid (some { s with pages := pages })
             linuxBrk := if mapped < needed then x.linuxBrk else newBrk }

/-- One call.  A process that does not exist calls nothing. -/
def spaceStep (x : SpaceState) : SpaceCall → SpaceState
  | .launch pid prog slotFree =>
      match x.spaces pid, userBase prog slotFree with
      | none, some base =>
          { x with spaces := Function.update x.spaces pid (some (launchSpace base prog.span)) }
      | _, _ => x
  | .heap pid call =>
      match x.spaces pid with
      | none => x
      | some s =>
          let u := userHeapStep (x.use s) call
          { x with brk := u.heap.brk
                   mappedEnd := u.heap.mappedEnd
                   freeList := u.heap.freeList
                   spaces := Function.update x.spaces pid (some { s with pages := u.heap.pages })
                   writer := x.writes pid (x.use s) u
                   live := u.live }
  | .linuxBrk pid newBrk avail =>
      match x.spaces pid with
      | none => x
      | some s => linuxBrkStep x pid s newBrk avail

/-! ## What a call touches -/

/-- The blocks whose headers the walk of `umalloc` reads. -/
def walked (size : Nat) : List UBlock → List UBlock
  | [] => []
  | curr :: l => if size ≤ curr.size then [curr] else curr :: walked size l

/-- The blocks whose headers a call finds and reads or writes. -/
def touched (u : HeapUse) : HeapCall → List UBlock
  | .umalloc size _ => if size.val = 0 then [] else walked (align8 size) u.heap.freeList
  | .ufree ptr =>
      match u.live.find? fun l => l.block.addr + blockHeader = ptr with
      | none => []
      | some l => l.block :: u.heap.freeList

/-- The bytes of a region are mapped. -/
def mappedIn (pages : Nat → Bool) (r : Region) : Prop :=
  ∀ a, r.start ≤ a → a < r.stop → pages (a / pageSize) = true

/-- The header of a block. -/
def UBlock.header (b : UBlock) : Region := ⟨b.addr, b.addr + blockHeader⟩

/-- A call of the heap by a process: the headers it meets are the ones in the space of the
caller, and what `umalloc` returns is mapped there and apart from the image, the stack and
the area of `linux_brk`. -/
def Isolated (x : SpaceState) : SpaceCall → Prop
  | .heap pid call =>
      ∀ s ∈ x.spaces pid,
        (∀ b ∈ touched (x.use s) call, x.writer b.addr = some pid ∧ mappedIn s.pages b.header) ∧
          ∀ l ∈ (userHeapStep (x.use s) call).live, l ∉ x.live →
            mappedIn (userHeapStep (x.use s) call).heap.pages l.block.region ∧
              l.block.region.Apart s.image ∧ l.block.region.Apart s.stack ∧
              l.block.region.Apart ⟨userHeapStart, x.linuxBrk⟩
  | _ => True

/-- The end of the heap, should the call add a block at the break. -/
def SpaceState.reach (x : SpaceState) : HeapCall → Nat
  | .umalloc size _ => align8 x.brk + blockHeader + align8 size
  | .ufree _ => x.brk

/-- A region does not meet the heap up to an address. -/
def Region.offHeap (r : Region) (top : Nat) : Prop := r.stop ≤ userHeapStart ∨ top ≤ r.start

instance (r : Region) (top : Nat) : Decidable (Region.offHeap r top) :=
  inferInstanceAs (Decidable (_ ∨ _))

/-- The call fits, no other process made a block it meets, the heap is mapped in the space
of the caller, its image and its stack are elsewhere, and the Linux break has not been
moved up. -/
def HeapIsOwn (x : SpaceState) : SpaceCall → Prop
  | .heap pid call =>
      ∀ s ∈ x.spaces pid,
        FitsPages (x.use s) call ∧
          (∀ b ∈ touched (x.use s) call, x.writer b.addr = some pid) ∧
          (∀ p < x.mappedEnd / pageSize, userHeapStart / pageSize ≤ p → s.pages p = true) ∧
          x.linuxBrk ≤ userHeapStart ∧
          Region.offHeap s.image (x.reach call) ∧ Region.offHeap s.stack (x.reach call)
  | _ => True

instance (x : SpaceState) : (c : SpaceCall) → Decidable (HeapIsOwn x c)
  | .heap pid _ => inferInstanceAs (Decidable (∀ s ∈ x.spaces pid, _ ∧ _))
  | .launch .. => isTrue trivial
  | .linuxBrk .. => isTrue trivial

/-! ## One call -/

section Call

variable {x : SpaceState} {s : Space} {u : HeapUse}

/-- The blocks of the heap are in order, whatever is mapped. -/
def BlocksOk (x : SpaceState) : Prop :=
  UserHeapOk ⟨⟨x.brk, x.mappedEnd, x.freeList, fun _ => true⟩, x.live⟩

/-- In a space that maps the heap it is in order. -/
theorem BlocksOk.use (ok : BlocksOk x)
    (mapped : ∀ p < x.mappedEnd / pageSize, userHeapStart / pageSize ≤ p → s.pages p = true) :
    UserHeapOk (x.use s) := by
  have whole := ok.whole
  refine ⟨ok.once, ok.inside, ok.long, fun p lower upper => mapped p ?_ ?_, ok.start, ok.brk,
    ok.whole, ok.bound⟩
  · have upper : p * pageSize < x.mappedEnd := upper
    have whole : x.mappedEnd % pageSize = 0 := whole
    unfold pageSize at *
    omega
  · unfold userHeapStart pageSize at *
    omega

theorem UserHeapOk.blocksOk {pages : Nat → Bool} (ok : UserHeapOk u)
    (all : ∀ p, pages p = true) : UserHeapOk ⟨{ u.heap with pages := pages }, u.live⟩ :=
  ⟨ok.once, ok.inside, ok.long, fun p _ _ => all p, ok.start, ok.brk, ok.whole, ok.bound⟩

/-- The walk meets blocks of the list. -/
theorem mem_of_walked {size : Nat} {l : List UBlock} {b : UBlock} (mem : b ∈ walked size l) :
    b ∈ l := by
  induction l with
  | nil => exact mem
  | cons curr l ih =>
      unfold walked at mem
      split at mem
      · rw [List.mem_singleton.1 mem]
        exact List.mem_cons_self ..
      · rcases List.mem_cons.1 mem with rfl | tail
        · exact List.mem_cons_self ..
        · exact List.mem_cons_of_mem _ (ih tail)

theorem mem_of_touched {call : HeapCall} {b : UBlock} (mem : b ∈ touched u call) :
    b ∈ u.blocks := by
  unfold touched at mem
  unfold HeapUse.blocks
  cases call with
  | umalloc size avail =>
      dsimp only at mem
      split at mem
      · cases mem
      · exact List.mem_append_right _ (mem_of_walked mem)
  | ufree ptr =>
      dsimp only at mem
      split at mem
      · cases mem
      next l found =>
        rcases List.mem_cons.1 mem with rfl | free
        · exact List.mem_append_left _ (List.mem_map_of_mem (List.mem_of_find?_eq_some found))
        · exact List.mem_append_right _ free

/-- The blocks of a heap in order are mapped. -/
theorem UserHeapOk.mappedBlock (ok : UserHeapOk u) {b : UBlock} (mem : b ∈ u.blocks) :
    mappedIn u.heap.pages b.region := by
  intro a lower upper
  obtain ⟨first, last⟩ := ok.inside b mem
  exact ok.mapped (first.trans lower) (lt_of_lt_of_le upper last)

/-- A block that a call makes ends where the heap can reach. -/
theorem userHeapStep_reach (ok : UserHeapOk (x.use s)) {call : HeapCall}
    (fits : FitsPages (x.use s) call) {l : LiveBlock}
    (mem : l ∈ (userHeapStep (x.use s) call).live) (new : l ∉ x.live) :
    userHeapStart ≤ l.block.addr ∧ l.block.stop ≤ x.reach call := by
  cases call with
  | ufree ptr =>
      -- nothing comes into use
      unfold userHeapStep at mem
      dsimp only at mem
      split at mem
      · exact absurd mem new
      · exact absurd (List.mem_of_mem_erase mem) new
  | umalloc size avail =>
      have after := umalloc_ok ok fits avail
      have inside := after.inside l.block
        (List.mem_append_left _ (List.mem_map_of_mem mem))
      refine ⟨inside.1, inside.2.trans ?_⟩
      have brk := ok.brk
      have bound := ok.bound
      have above : x.brk ≤ align8 x.brk := by
        unfold align8 wrap userHeapStart physicalBytes pageSize SpaceState.use at *
        dsimp only at brk bound
        omega
      show (userHeapStep (x.use s) (.umalloc size avail)).heap.brk ≤
        align8 x.brk + blockHeader + align8 size
      unfold userHeapStep
      dsimp only
      cases eq : umalloc (x.use s).heap size avail with
      | mk result h =>
          cases result with
          | none =>
              dsimp only
              rcases umalloc_none eq with rfl | ⟨required, grown⟩
              · exact above.trans (by omega)
              · rw [(expandUserHeapTo_spec grown ok.pages ok.whole ok.bound).1]
                exact above.trans (by omega)
          | some b =>
              dsimp only
              rcases umalloc_some eq with ⟨l, -, rfl⟩ | ⟨g, -, -, -, rfl⟩
              · exact above.trans (by omega)
              · exact Nat.mod_le _ _

/-- A region apart from the heap is apart from its blocks. -/
theorem Region.offHeap.apart {r : Region} {top : Nat} (off : Region.offHeap r top) {b : UBlock}
    (lower : userHeapStart ≤ b.addr) (upper : b.stop ≤ top) : b.region.Apart r := by
  refine apart_iff.2 ?_
  show min b.stop r.stop ≤ max b.addr r.start
  rcases off with below | above
  · exact (min_le_right _ _).trans ((below.trans lower).trans (le_max_left _ _))
  · exact (min_le_left _ _).trans ((upper.trans above).trans (le_max_right _ _))

/-- A call that finds the heap to be its own is isolated. -/
theorem heapCall_isolated (ok : BlocksOk x) {call : SpaceCall} (own : HeapIsOwn x call) :
    Isolated x call := by
  cases call with
  | launch pid prog slotFree => trivial
  | linuxBrk pid newBrk avail => trivial
  | heap pid call =>
      intro s found
      obtain ⟨fits, made, mapped, linux, image, stack⟩ := own s found
      have use := ok.use mapped
      constructor
      · intro b mem
        refine ⟨made b mem, fun a lower upper => ?_⟩
        refine use.mappedBlock (mem_of_touched mem) a lower (lt_of_lt_of_le upper ?_)
        exact Nat.le_add_right _ _
      · intro l mem new
        have after := userHeapStep_ok use fits
        obtain ⟨lower, upper⟩ := userHeapStep_reach use fits mem new
        refine ⟨after.mappedBlock (List.mem_append_left _ (List.mem_map_of_mem mem)),
          image.apart lower upper, stack.apart lower upper, ?_⟩
        have none : Region.offHeap ⟨userHeapStart, x.linuxBrk⟩ (x.reach call) := .inl linux
        exact none.apart lower upper

/-- It leaves the blocks in order. -/
theorem spaceStep_ok (ok : BlocksOk x) {call : SpaceCall} (own : HeapIsOwn x call) :
    BlocksOk (spaceStep x call) := by
  unfold spaceStep
  cases call with
  | launch pid prog slotFree =>
      dsimp only
      split
      · exact ok
      · exact ok
  | linuxBrk pid newBrk avail =>
      dsimp only
      split
      · exact ok
      · unfold linuxBrkStep
        split
        · exact ok
        · exact ok
  | heap pid call =>
      dsimp only
      cases found : x.spaces pid with
      | none => exact ok
      | some s =>
          obtain ⟨fits, -, mapped, -⟩ := own s found
          exact (userHeapStep_ok (ok.use mapped) fits).blocksOk fun _ => rfl

end Call

/-! ## Runs -/

/-- A program of one page, which can be moved. -/
def smallProgram : Program := ⟨none, pageSize⟩

local instance size_neZero : @NeZero Nat Zero.ofOfNat0 (2 ^ 64) := ⟨by decide⟩

/-- The first process frees a block, and the second one calls `umalloc`. -/
def sharedFreeList : List SpaceCall :=
  [.launch 0 smallProgram true, .launch 1 smallProgram true, .heap 0 (.umalloc 100 8),
    .heap 0 (.umalloc 100 8), .heap 0 (.ufree 0x400010), .heap 1 (.umalloc 40 8)]

end NTux.Mm
