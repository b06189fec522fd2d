import NTux.Mm.VmmMap

/-!
# Undoing an allocation of pages

`vmm_alloc_pages` and `vmm_alloc_user_pages` map page after page, and unmap those that are
mapped when a page or a table for it cannot be had.  `vmm_unmap_page` gives no page back, so
that the pages mapped by then are neither free nor mapped (`Vm.Lost`).  A call that fails is
undone exactly if it fails at its first page.
-/

namespace NTux.Mm

open NTux.Lib NTux.Lib.Bytes

/-! ## The pages that a mapping takes -/

namespace Vm

variable {s s' : Vm} {t : BitVec 64} {extra virt : BitVec 64} {level : ℕ}

/-- The tables that are missing on the way to an address, from a level on. -/
def missingFrom (s : Vm) (virt : BitVec 64) : ℕ → BitVec 64 → ℕ
  | 0, _ => 0
  | level + 1, t =>
      if hasFlag pagePresent (s.mem t (ptIdx virt (level + 1))) then
        missingFrom s virt level (pageAddr (s.mem t (ptIdx virt (level + 1))))
      else level + 1

/-- The tables that are missing on the way to an address. -/
def missingTables (s : Vm) (virt : BitVec 64) : ℕ := s.missingFrom virt 3 s.root

theorem missingFrom_congr (same : ∀ u j, hasFlag pagePresent (s'.mem u j) =
      hasFlag pagePresent (s.mem u j) ∧ pageAddr (s'.mem u j) = pageAddr (s.mem u j))
    (virt : BitVec 64) (level : ℕ) (t : BitVec 64) :
    s'.missingFrom virt level t = s.missingFrom virt level t := by
  induction level generalizing t with
  | zero => rfl
  | succ level ih =>
      unfold missingFrom
      rw [(same _ _).1, (same _ _).2, ih]

/-- Below an empty table all tables are missing. -/
theorem missingFrom_empty (empty : ∀ i, s.mem t i = 0#64) (virt : BitVec 64) (level : ℕ) :
    s.missingFrom virt level t = level := by
  cases level with
  | zero => rfl
  | succ level =>
      unfold missingFrom
      rw [empty]
      rfl

end Vm

theorem PmmOk.freePages_eq_zero {p : Pmm} (ok : PmmOk p) (none : searchPage p = none) :
    p.freePages = 0 := by
  rw [ok.count, clearBits]
  by_contra pos
  obtain ⟨page, lt, clear⟩ := BitPool.clear_pos_iff.mp (Nat.pos_of_ne_zero pos)
  exact searchPage_none ok.zero none (show p.IsFree page from ⟨lt, clear⟩)

theorem PmmOk.freePages_pos {p : Pmm} (ok : PmmOk p) {page : ℕ} (free : p.IsFree page) :
    0 < p.freePages := by
  rw [ok.count, clearBits]
  exact BitPool.clear_pos_iff.mpr ⟨page, free.1, free.2⟩

theorem pmmAllocPage_freePages {p p' : Pmm} {a : ℕ} (eq : pmmAllocPage p = (some a, p')) :
    p'.freePages = p.freePages - 1 := by
  unfold pmmAllocPage at eq
  cases found : searchPage p with
  | none =>
      rw [found] at eq
      cases (Prod.mk.inj eq).1
  | some page =>
      rw [found] at eq
      rw [← (Prod.mk.inj eq).2]

namespace Vm

variable {s s' : Vm} {t : BitVec 64} {extra virt : BitVec 64} {level : ℕ}

/-- A walk fails exactly if there are fewer free pages than tables missing. -/
theorem walkFrom_noMemory_iff (low : extra = 0#64 ∨ extra = pageUser) (le : level ≤ 3)
    (tree : s.Tree) (ok : PmmOk s.pmm) (at' : s.node (above virt level) = some t) :
    (walkFrom true extra virt level s t).1 = .noMemory ↔
      s.pmm.freePages < s.missingFrom virt level t := by
  induction level generalizing s t with
  | zero => exact ⟨nofun, fun lt => absurd lt (Nat.not_lt_zero _)⟩
  | succ level ih =>
      have less : level < 3 := le
      have short : (above virt (level + 1)).length < 3 := by rw [above_length]; omega
      unfold walkFrom missingFrom
      dsimp only
      cases present : hasFlag pagePresent (s.mem t (ptIdx virt (level + 1))) with
      | false =>
          rw [if_pos rfl, if_neg Bool.true_eq_false_eq_False, if_neg Bool.false_ne_true]
          cases call : pmmAllocPage s.pmm with
          | mk answer pmm =>
              cases answer with
              | none =>
                  have zero := ok.freePages_eq_zero (pmmAllocPage_none call).2
                  exact ⟨fun _ => by omega, fun _ => rfl⟩
              | some a =>
                  have count := pmmAllocPage_freePages call
                  have ok' : PmmOk pmm := by
                    have after := ok.alloc
                    rwa [call] at after
                  obtain ⟨page, rfl, -, free, total, rest⟩ := pmmAllocPage_some call
                  have pos := ok.freePages_pos free
                  obtain ⟨-, -, addr, -⟩ := link_bits low page
                  obtain ⟨walked, -, child⟩ :=
                    tree.grow_above low less at' present free total rest
                  have ne := tree.used _ _ page short.le at' free
                  have further := ih less.le walked.tree ok' child
                  rw [missingFrom_empty (fun j => by
                    rw [addr, grown_mem, if_neg (fun both => ne both.1.symm), if_pos rfl])]
                    at further
                  refine further.trans ?_
                  change pmm.freePages < level ↔ _
                  omega
      | true =>
          have small := tree.small _ _ _ short at' present
          have child := node_above less at' present small
          rw [if_neg Bool.true_eq_false_eq_False, if_pos rfl]
          split
          next =>
            have walked := tree.mark low short at' present
            refine (ih less.le walked.tree ok (walked.keeps _ _
              (by rw [above_length]; omega) child)).trans ?_
            rw [missingFrom_congr (s := s) fun u j => by
              rw [store_mem]
              split
              next same =>
                obtain ⟨rfl, rfl⟩ := same
                exact ⟨(or_present low _).1, (or_present low _).2.2⟩
              next => exact ⟨rfl, rfl⟩]
            rfl
          next => exact ih less.le tree ok child

end Vm

/-! ## A page that is lost -/

theorem pmmFreePage_isFree (p : Pmm) (page q : ℕ) :
    (pmmFreePage p (page * pageSize)).IsFree q ↔
      p.IsFree q ∨ q = page ∧ page ≠ 0 ∧ page < p.totalPages := by
  have addr : page * pageSize / pageSize = page := Nat.mul_div_cancel _ (by decide)
  unfold pmmFreePage
  dsimp only
  rw [addr]
  split
  next outside =>
    exact ⟨.inl, fun either => either.resolve_right fun both => by omega⟩
  next inside =>
    split
    next used =>
      unfold Pmm.IsFree
      dsimp only
      rw [getBit_clearBit]
      by_cases same : q = page
      · subst same
        rw [decide_eq_true rfl]
        exact ⟨fun free => .inr ⟨rfl, by omega, free.1⟩, fun _ => ⟨by omega, rfl⟩⟩
      · rw [decide_eq_false same, Bool.not_false, Bool.true_and]
        exact ⟨.inl, fun either => either.resolve_right fun both => same both.1⟩
    next free =>
      refine ⟨.inl, fun either => either.elim id ?_⟩
      rintro ⟨rfl, -, lt⟩
      exact ⟨lt, by simpa using free⟩

namespace Vm

variable {s s' : Vm} {t : BitVec 64} {extra virt phys flags start : BitVec 64} {page a : ℕ}

/-- Where the tables are does not depend on the allocator. -/
theorem node_pmm (s : Vm) (pmm : Pmm) (p : List (Fin 512)) :
    node { s with pmm } p = s.node p := by
  induction p with
  | nil => rfl
  | cons i p ih =>
      unfold node
      rw [ih]
      rfl

theorem translate_pmm (s : Vm) (pmm : Pmm) (w : BitVec 64) :
    translate { s with pmm } w = s.translate w := by
  unfold translate entryAt
  rw [node_pmm]

/-- The allocator may change, as long as no table is free. -/
theorem Tree.withPmm (tree : s.Tree) {pmm : Pmm} (total : pmm.totalPages = s.pmm.totalPages)
    (used : ∀ p q, p.length ≤ 3 → pmm.IsFree q →
      s.node p ≠ some (BitVec.ofNat 64 (q * pageSize))) : Tree { s with pmm } :=
  tree.of_nodes (fun p _ => node_pmm s pmm p) tree.small total used

/-- A page that is neither free nor a table. -/
structure Lost (page : ℕ) (s : Vm) : Prop where
  tree : s.Tree
  bound : page < 2 ^ 52
  notFree : ¬ s.pmm.IsFree page
  noTable : ∀ p, p.length ≤ 3 → s.node p ≠ some (BitVec.ofNat 64 (page * pageSize))

theorem Lost.walked (lost : Lost page s) (walked : Walked extra s s') : Lost page s' := by
  refine ⟨walked.tree, lost.bound, fun free => lost.notFree (walked.free page free), ?_⟩
  intro p short at'
  cases before : s.node p with
  | some t =>
      obtain rfl := Option.some.inj ((walked.keeps p t short before).symm.trans at')
      exact lost.noTable p short before
  | none =>
      obtain ⟨q, free, same⟩ := walked.new p _ short before at'
      have lt : q < 2 ^ 52 := lt_of_lt_of_le free.1 lost.tree.pages
      exact lost.notFree (page_inj lost.bound lt same ▸ free)

theorem Lost.leaf (lost : Lost page s) (at' : s.node (above virt 0) = some t) (i : Fin 512)
    (e : BitVec 64) : Lost page (s.store t i e) :=
  ⟨lost.tree.leaf at' i e, lost.bound, lost.notFree, fun p short => by
    rw [lost.tree.leaf_node at' i e p short]
    exact lost.noTable p short⟩

theorem Lost.unmap (lost : Lost page s) (virt : BitVec 64) : Lost page (vmmUnmapPage s virt) := by
  rcases lost.tree.vmmUnmapPage_cases virt with ⟨same, -⟩ | ⟨t, at', stored⟩
  · rw [same]
    exact lost
  · rw [stored]
    exact lost.leaf at' _ _

theorem Lost.rollback (lost : Lost page s) (start : BitVec 64) (i : ℕ) :
    Lost page (rollback s start i) := by
  unfold NTux.Mm.rollback
  generalize List.range i = l
  induction l generalizing s with
  | nil => exact lost
  | cons j l ih => exact ih (lost.unmap _)

theorem Lost.map (lost : Lost page s) (virt phys flags : BitVec 64) :
    Lost page (vmmMapPage s virt phys flags).2 := by
  obtain ⟨s₁, -, walked, ⟨-, failed⟩ | ⟨t, -, at', stored, -⟩⟩ :=
    lost.tree.map_cases virt phys flags
  · rw [failed]
    exact lost.walked walked
  · rw [stored]
    exact (lost.walked walked).leaf at' _ _

/-- What `pmm_alloc_page` hands out is lost, until it is used. -/
theorem Tree.alloc (tree : s.Tree) {pmm : Pmm} (call : pmmAllocPage s.pmm = (some a, pmm)) :
    ∃ page, a = page * pageSize ∧ page ≠ 0 ∧ s.pmm.IsFree page ∧ Lost page { s with pmm } ∧
      ∀ q, pmm.IsFree q ↔ s.pmm.IsFree q ∧ q ≠ page := by
  obtain ⟨page, rfl, pos, free, total, rest⟩ := pmmAllocPage_some call
  refine ⟨page, rfl, pos, free, ⟨tree.withPmm total fun p q short isFree at' => ?_,
    lt_of_lt_of_le free.1 tree.pages, fun isFree => ((rest page).mp isFree).2 rfl,
    fun p short at' => ?_⟩, rest⟩
  · exact tree.used p _ q short at' ((rest q).mp isFree).1 rfl
  · rw [node_pmm] at at'
    exact tree.used p _ page short at' free rfl

/-- Giving back another page that is lost. -/
theorem Lost.free {other : ℕ} (lost : Lost page s) (given : Lost other s) (ne : other ≠ page) :
    Lost page { s with pmm := pmmFreePage s.pmm (other * pageSize) } := by
  have total : (pmmFreePage s.pmm (other * pageSize)).totalPages = s.pmm.totalPages := by
    unfold pmmFreePage
    dsimp only
    split
    next => rfl
    next => split <;> rfl
  refine ⟨lost.tree.withPmm total fun p q short free => ?_, lost.bound, fun free => ?_,
    fun p short => ?_⟩
  · rcases (pmmFreePage_isFree _ _ _).mp free with before | ⟨rfl, -, -⟩
    · exact fun at' => lost.tree.used p _ q short at' before rfl
    · exact given.noTable p short
  · rcases (pmmFreePage_isFree _ _ _).mp free with before | ⟨same, -, -⟩
    · exact lost.notFree before
    · exact ne same.symm
  · rw [node_pmm]
    exact lost.noTable p short

/-- A page that is lost when the loop comes to a page stays lost. -/
theorem Lost.allocLoop (lost : Lost page s) (flags start : BitVec 64) (n i : ℕ) :
    Lost page (allocLoop flags start n i s).2 := by
  induction n generalizing s i with
  | zero => exact lost
  | succ n ih =>
      unfold NTux.Mm.allocLoop
      cases call : pmmAllocPage s.pmm with
      | mk answer pmm =>
          cases answer with
          | none =>
              obtain ⟨rfl, -⟩ := pmmAllocPage_none call
              exact lost.rollback start i
          | some a =>
              obtain ⟨other, rfl, -, free, given, rest⟩ := lost.tree.alloc call
              have ne : other ≠ page := by
                rintro rfl
                exact lost.notFree free
              have kept : Lost page { s with pmm } :=
                ⟨given.tree, lost.bound, fun isFree => lost.notFree ((rest page).mp isFree).1,
                  fun p short => (node_pmm s pmm p).symm ▸ lost.noTable p short⟩
              have after := kept.map (pageAt start i) (BitVec.ofNat 64 (other * pageSize)) flags
              have given' := given.map (pageAt start i) (BitVec.ofNat 64 (other * pageSize)) flags
              dsimp only
              cases mapped : vmmMapPage { s with pmm } (pageAt start i)
                  (BitVec.ofNat 64 (other * pageSize)) flags with
              | mk r s₁ =>
                  rw [mapped] at after given'
                  dsimp only
                  split
                  next => exact (after.free given' ne).rollback start i
                  next => exact ih after (i + 1)

end Vm

/-! ## The attempt -/

/-- What a call finds: tables that are a tree, an allocator in order, and no page of the range
it is about to map. -/
structure VmReady (area : VmArea) (s : Vm) (count : ℕ) : Prop where
  tree : s.Tree
  pmm : PmmOk s.pmm
  range : ∀ j < count, ∀ w, SamePage (pageAt (area.cur s) j) w → s.translate w = none

/-- An attempt has been undone: the area is where it was, no page of the range is mapped, and
a page that was free is free again or kept as a table. -/
structure Undone (area : VmArea) (count : ℕ) (s s' : Vm) : Prop where
  cursor : area.cur s' = area.cur s
  range : ∀ j < count, ∀ w, SamePage (pageAt (area.cur s) j) w → s'.translate w = none
  returned : ∀ page, s.pmm.IsFree page → s'.pmm.IsFree page ∨
    ∃ p, p.length ≤ 3 ∧ s'.node p = some (BitVec.ofNat 64 (page * pageSize))

section Attempt

variable {s : Vm} {area : VmArea} {count : ℕ}

theorem VmArea.flags_ok (area : VmArea) :
    IsFlags area.flags ∧ hasFlag pagePresent area.flags = true := by
  cases area <;> exact ⟨show pageAddr _ = 0#64 from rfl, rfl⟩

theorem VmArea.cur_walked {extra : BitVec 64} {s s' : Vm} (walked : Vm.Walked extra s s')
    (area : VmArea) : area.cur s' = area.cur s := by
  cases area
  · exact walked.kernelHeapCur
  · exact walked.userMmapCur

theorem pageAt_zero (start : BitVec 64) : pageAt start 0 = start := by
  unfold pageAt
  simp

/-- A call that fails leaves what its loop leaves. -/
theorem allocPages_failed (failed : (allocPages area s count).1 = none) :
    (allocPages area s count).2 = (allocLoop area.flags (area.cur s) count 0 s).2 ∧
      ∃ n, count = n + 1 := by
  unfold allocPages at failed ⊢
  dsimp only at failed ⊢
  cases loop : allocLoop area.flags (area.cur s) count 0 s with
  | mk done s₁ =>
      rw [loop] at failed
      cases done with
      | true => cases failed
      | false =>
          refine ⟨rfl, ?_⟩
          cases count with
          | zero => cases (Prod.mk.inj loop).1
          | succ n => exact ⟨n, rfl⟩

/-- Whether the first page can be mapped. -/
theorem VmReady.first (ready : VmReady area s count) {pmm : Pmm} {a : ℕ}
    (call : pmmAllocPage s.pmm = (some a, pmm)) :
    (walkPt { s with pmm } s.root (area.cur s) true (area.flags &&& pageUser)).1 = .noMemory ↔
      s.pmm.freePages ≤ s.missingTables (area.cur s) := by
  obtain ⟨page, rfl, -, free, given, -⟩ := ready.tree.alloc call
  have ok : PmmOk pmm := by
    have after := ready.pmm.alloc
    rwa [call] at after
  have count' := pmmAllocPage_freePages call
  have pos := ready.pmm.freePages_pos free
  refine (Vm.walkFrom_noMemory_iff (extra_cases area.flags) le_rfl given.tree ok
    (Vm.root_node _ (area.cur s))).trans ?_
  have same : Vm.missingFrom { s with pmm } (area.cur s) 3 s.root =
      s.missingTables (area.cur s) := by
    refine Vm.missingFrom_congr ?_ _ _ _
    exact fun _ _ => ⟨rfl, rfl⟩
  change pmm.freePages < Vm.missingFrom { s with pmm } (area.cur s) 3 s.root ↔ _
  rw [same]
  omega

/-- Where the first page cannot be mapped, nothing is left of the attempt. -/
theorem VmReady.undone (ready : VmReady area s count)
    (few : s.pmm.freePages ≤ s.missingTables (area.cur s))
    (failed : (allocPages area s count).1 = none) :
    Undone area count s (allocPages area s count).2 := by
  obtain ⟨left, n, rfl⟩ := allocPages_failed failed
  rw [left]
  unfold allocLoop
  cases call : pmmAllocPage s.pmm with
  | mk answer pmm =>
      cases answer with
      | none =>
          obtain ⟨rfl, -⟩ := pmmAllocPage_none call
          exact ⟨rfl, ready.range, fun _ free => .inl free⟩
      | some a =>
          have first := (ready.first call).mpr few
          obtain ⟨page, rfl, pos, free, given, rest⟩ := ready.tree.alloc call
          have total : pmm.totalPages = s.pmm.totalPages := by
            obtain ⟨-, -, -, -, total, -⟩ := pmmAllocPage_some call
            exact total
          dsimp only
          rw [pageAt_zero]
          obtain ⟨s₁, -, walked, ⟨-, called⟩ | ⟨t, memory, -⟩⟩ :=
            given.tree.map_cases (area.cur s) (BitVec.ofNat 64 (page * pageSize)) area.flags
          · rw [called]
            dsimp only
            rw [if_pos (by rfl)]
            change Undone area (n + 1) s { s₁ with pmm := pmmFreePage s₁.pmm (page * pageSize) }
            refine ⟨?_, ?_, ?_⟩
            · have kept := VmArea.cur_walked walked area
              cases area <;> exact kept
            · intro j lt w same
              rw [Vm.translate_pmm, walked.translate, Vm.translate_pmm]
              exact ready.range j lt w same
            · intro q wasFree
              by_cases here : q = page
              · refine .inl ((pmmFreePage_isFree _ _ _).mpr (.inr ⟨here, pos, ?_⟩))
                rw [walked.total]
                exact total ▸ free.1
              · by_cases still : s₁.pmm.IsFree q
                · exact .inl ((pmmFreePage_isFree _ _ _).mpr (.inl still))
                · obtain ⟨p, short, isTable⟩ := walked.spent q ((rest q).mpr ⟨wasFree, here⟩) still
                  exact .inr ⟨p, short, (Vm.node_pmm _ _ p).trans isTable⟩
          · exact absurd first memory

/-- Where the first page can be mapped, it is lost when a later one cannot. -/
theorem VmReady.not_undone (ready : VmReady area s count)
    (enough : s.missingTables (area.cur s) < s.pmm.freePages)
    (failed : (allocPages area s count).1 = none) :
    ¬ Undone area count s (allocPages area s count).2 := by
  intro undone
  obtain ⟨left, n, rfl⟩ := allocPages_failed failed
  rw [left] at undone
  unfold allocLoop at undone
  cases call : pmmAllocPage s.pmm with
  | mk answer pmm =>
      rw [call] at undone
      cases answer with
      | none =>
          have zero := ready.pmm.freePages_eq_zero (pmmAllocPage_none call).2
          omega
      | some a =>
          have first := (ready.first call).not.mpr (not_le.mpr enough)
          obtain ⟨page, rfl, pos, free, given, -⟩ := ready.tree.alloc call
          obtain ⟨flagsOk, present⟩ := area.flags_ok
          have mapped := given.map (area.cur s) (BitVec.ofNat 64 (page * pageSize)) area.flags
          dsimp only at undone
          rw [pageAt_zero] at undone
          obtain ⟨s₁, -, walked, ⟨memory, -⟩ | ⟨t, -, at', stored, -⟩⟩ :=
            given.tree.map_cases (area.cur s) (BitVec.ofNat 64 (page * pageSize)) area.flags
          · exact first memory
          · rw [stored] at undone mapped
            dsimp only at undone mapped
            split at undone
            next =>
              -- address 0 is taken for a failure: the page is given back, but it is mapped
              have maps := given.tree.maps (pageAddr_page page) flagsOk present stored
              have here := maps.inside (area.cur s) rfl
              have gone := undone.range 0 (Nat.succ_pos n) (area.cur s) (by rw [pageAt_zero]; rfl)
              change Vm.translate { s₁.store t _ _ with pmm := _ } _ = none at gone
              rw [Vm.translate_pmm, here] at gone
              cases gone
            next =>
              have lost := mapped.allocLoop area.flags (area.cur s) n (0 + 1)
              rcases undone.returned page free with isFree | ⟨p, short, isTable⟩
              · exact lost.notFree isFree
              · exact lost.noTable p short isTable

/-- A call that fails is undone exactly if it could not map its first page: there were not
more free pages than tables missing for it. -/
theorem alloc_rollback_iff (ready : VmReady area s count)
    (failed : (allocPages area s count).1 = none) :
    Undone area count s (allocPages area s count).2 ↔
      s.pmm.freePages ≤ s.missingTables (area.cur s) := by
  constructor
  · intro undone
    by_contra enough
    exact ready.not_undone (not_le.mp enough) failed undone
  · intro few
    exact ready.undone few failed

theorem pagesLeft_ready (area : VmArea) {n : ℕ} (few : n ≤ 4)
    (count : (pagesLeft n).freePages = clearBits (pagesLeft n)) (pages : ℕ) :
    VmReady area (Vm.start (pagesLeft n) 0x1000#64) pages :=
  ⟨pagesLeft_tree few, ⟨show getBit (pagesLeft 0).bitmap 0 = true by decide, rfl, count⟩,
    fun _ _ w _ => Vm.start_translate _ _ w⟩

theorem alloc_rollback_none :
    Undone .userMmap 1 (Vm.start (pagesLeft 0) 0x1000#64)
        (vmmAllocUserPages (Vm.start (pagesLeft 0) 0x1000#64) 1).2 ↔
      (pagesLeft 0).freePages ≤
        (Vm.start (pagesLeft 0) 0x1000#64).missingTables userMmapVaddr :=
  alloc_rollback_iff (pagesLeft_ready .userMmap (by decide) (by decide) 1) (by decide +kernel)

/-- Four pages are free, three become tables and one is mapped.  The second page cannot be
had, and the first is unmapped but not given back. -/
theorem first_page_lost : ¬ ∀ area count s, VmReady area s count →
    (allocPages area s count).1 = none → Undone area count s (allocPages area s count).2 := by
  intro undone
  have ready := pagesLeft_ready .kernelHeap (n := 4) le_rfl (by decide) 2
  have failed : (allocPages .kernelHeap (Vm.start (pagesLeft 4) 0x1000#64) 2).1 = none := by
    decide +kernel
  exact ready.not_undone (by decide) failed (undone _ _ _ ready failed)

end Attempt

end NTux.Mm
