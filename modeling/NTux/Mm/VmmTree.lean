import NTux.Mm.Vmm
import NTux.Mm.PmmRun

/-!
# Page tables as a tree

The tables below `cr3` are named by the indices that lead to them, the last one first
(`Vm.node`).  `Vm.Tree` says that no two names lead to one table, and that no table is a page
the allocator may hand out.

`walk_pt` marks an entry or adds a table at each level.  Either way the tables stay a tree,
those that were there stay where they are, and a new table of the last level is empty
(`Vm.Walked`, `Vm.walkFrom_spec`).
-/

namespace NTux.Mm

open NTux.Lib NTux.Lib.Bytes

/-! ## Entries -/

section Entries

variable {e flags extra : BitVec 64}

@[simp] theorem hasFlag_twoPow {i : ℕ} (lt : i < 64) (e : BitVec 64) :
    hasFlag (BitVec.twoPow 64 i) e = e.getLsbD i := by
  unfold hasFlag
  rw [BitVec.and_twoPow]
  cases bit : e.getLsbD i with
  | false => rfl
  | true =>
      have ne : BitVec.twoPow 64 i ≠ 0#64 := by
        intro zero
        have same := congrArg (fun x : BitVec 64 => x.getLsbD i) zero
        simp [lt] at same
      simpa using ne

theorem hasFlag_present (e : BitVec 64) : hasFlag pagePresent e = e.getLsbD 0 :=
  hasFlag_twoPow (by decide) e

theorem hasFlag_user (e : BitVec 64) : hasFlag pageUser e = e.getLsbD 2 :=
  hasFlag_twoPow (by decide) e

theorem hasFlag_huge (e : BitVec 64) : hasFlag pageHuge e = e.getLsbD 7 :=
  hasFlag_twoPow (by decide) e

/-- The bits of the mask. -/
theorem getLsbD_low (i : ℕ) : (0xFFF#64).getLsbD i = decide (i < 12) := by
  have mask : (0xFFF : ℕ) = 2 ^ 12 - 1 := rfl
  rw [BitVec.getLsbD_ofNat, mask, Nat.testBit_two_pow_sub_one]
  simp only [Bool.and_eq_right_iff_imp, decide_eq_true_eq]
  omega

theorem getLsbD_pageAddr (e : BitVec 64) (i : ℕ) :
    (pageAddr e).getLsbD i = (e.getLsbD i && decide (12 ≤ i)) := by
  unfold pageAddr
  rw [BitVec.getLsbD_and, BitVec.getLsbD_not, getLsbD_low]
  rcases Nat.lt_or_ge i 64 with lt | ge
  · rw [decide_eq_true lt, Bool.true_and]
    congr 1
    rcases Nat.lt_or_ge i 12 with low | high
    · rw [decide_eq_true low, decide_eq_false (by omega)]
      rfl
    · rw [decide_eq_false (by omega), decide_eq_true high]
      rfl
  · rw [BitVec.getLsbD_of_ge e i ge, Bool.false_and, Bool.false_and]

/-- Flags are among the lower twelve bits. -/
def IsFlags (flags : BitVec 64) : Prop := pageAddr flags = 0#64

theorem IsFlags.bit (low : IsFlags flags) {i : ℕ} (ge : 12 ≤ i) : flags.getLsbD i = false := by
  have same := getLsbD_pageAddr flags i
  rw [show pageAddr flags = 0#64 from low, decide_eq_true ge, Bool.and_true] at same
  simpa using same.symm

/-- Flags do not change the address. -/
theorem pageAddr_or (low : IsFlags flags) (e : BitVec 64) :
    pageAddr (e ||| flags) = pageAddr e := by
  apply BitVec.eq_of_getLsbD_eq
  intro i lt
  rw [getLsbD_pageAddr, getLsbD_pageAddr, BitVec.getLsbD_or]
  rcases Nat.lt_or_ge i 12 with less | ge
  · rw [decide_eq_false (by omega), Bool.and_false, Bool.and_false]
  · rw [low.bit ge, Bool.or_false]

/-- The address of a page, as an entry. -/
theorem pageAddr_page (k : ℕ) :
    pageAddr (BitVec.ofNat 64 (k * pageSize)) = BitVec.ofNat 64 (k * pageSize) := by
  apply BitVec.eq_of_getLsbD_eq
  intro i lt
  rw [getLsbD_pageAddr]
  rcases Nat.lt_or_ge i 12 with less | ge
  · rw [decide_eq_false (by omega), Bool.and_false, BitVec.getLsbD_ofNat,
      show pageSize = 2 ^ 12 from rfl, Nat.testBit_mul_two_pow, decide_eq_false (by omega : ¬ 12 ≤ i)]
    simp
  · rw [decide_eq_true ge, Bool.and_true]

/-- The address and the offset are added without a carry. -/
theorem pageAddr_or_offset (a virt : BitVec 64) :
    pageAddr a ||| pageOffset virt = pageAddr a + pageOffset virt := by
  refine (BitVec.add_eq_or_of_and_eq_zero _ _ ?_).symm
  apply BitVec.eq_of_getLsbD_eq
  intro i lt
  unfold pageOffset
  rw [BitVec.getLsbD_and, getLsbD_pageAddr, BitVec.getLsbD_and, getLsbD_low]
  rcases Nat.lt_or_ge i 12 with less | ge
  · rw [decide_eq_false (by omega : ¬ 12 ≤ i)]
    simp
  · rw [decide_eq_false (by omega : ¬ i < 12)]
    simp

/-- What `vmm_map_page` adds to the tables. -/
theorem extra_cases (flags : BitVec 64) :
    flags &&& pageUser = 0#64 ∨ flags &&& pageUser = pageUser := by
  unfold pageUser
  rw [BitVec.and_twoPow]
  split
  · exact .inr rfl
  · exact .inl rfl

end Entries

/-! ## The tables -/

namespace Vm

/-- The table that an entry leads to.  An entry for a huge page leads to none. -/
def next (s : Vm) (t : BitVec 64) (i : Fin 512) : Option (BitVec 64) :=
  let e := s.mem t i
  if hasFlag pagePresent e && !hasFlag pageHuge e then some (pageAddr e) else none

/-- The table that a list of indices leads to, the last index first. -/
def node (s : Vm) : List (Fin 512) → Option (BitVec 64)
  | [] => some s.root
  | i :: p => (s.node p).bind fun t => s.next t i

end Vm

/-- The indices of an address above a level, the last first. -/
def above (virt : BitVec 64) (level : ℕ) : List (Fin 512) :=
  (List.range' (level + 1) (3 - level)).map (ptIdx virt)

theorem above_succ (virt : BitVec 64) {level : ℕ} (lt : level < 3) :
    above virt level = ptIdx virt (level + 1) :: above virt (level + 1) := by
  unfold above
  rw [show 3 - level = 3 - (level + 1) + 1 by omega, List.range'_succ, List.map_cons]

@[simp] theorem above_length (virt : BitVec 64) (level : ℕ) :
    (above virt level).length = 3 - level := by
  unfold above
  rw [List.length_map, List.length_range']

namespace Vm

/-- The entry of an address at a level. -/
def entryAt (s : Vm) (virt : BitVec 64) (level : ℕ) : Option (BitVec 64) :=
  (s.node (above virt level)).map fun t => s.mem t (ptIdx virt level)

/-- The physical address that an address is translated to. -/
def translate (s : Vm) (virt : BitVec 64) : Option (BitVec 64) :=
  (s.entryAt virt 0).bind fun e =>
    if hasFlag pagePresent e then some (pageAddr e + pageOffset virt) else none

/-- The tables form a tree of four levels without huge pages, and none of them is a page that
the allocator may hand out. -/
structure Tree (s : Vm) : Prop where
  apart : ∀ p q t, p.length ≤ 3 → q.length ≤ 3 → s.node p = some t → s.node q = some t → p = q
  small : ∀ p t i, p.length < 3 → s.node p = some t → hasFlag pagePresent (s.mem t i) = true →
    hasFlag pageHuge (s.mem t i) = false
  used : ∀ p t page, p.length ≤ 3 → s.node p = some t → s.pmm.IsFree page →
    t ≠ BitVec.ofNat 64 (page * pageSize)
  pages : s.pmm.totalPages ≤ 2 ^ 52

variable {s s' s'' : Vm} {t : BitVec 64} {i : Fin 512} {e extra virt : BitVec 64} {level : ℕ}

theorem node_congr (cr3 : s'.cr3 = s.cr3)
    (same : ∀ p t i, p.length < 3 → s.node p = some t → s'.next t i = s.next t i)
    (p : List (Fin 512)) (short : p.length ≤ 3) : s'.node p = s.node p := by
  induction p with
  | nil =>
      unfold node root
      rw [cr3]
  | cons i p ih =>
      have less : p.length < 3 := short
      unfold node
      rw [ih less.le]
      cases at' : s.node p with
      | none => rfl
      | some t => exact same p t i less at'

theorem next_present (present : hasFlag pagePresent (s.mem t i) = true)
    (small : hasFlag pageHuge (s.mem t i) = false) :
    s.next t i = some (pageAddr (s.mem t i)) := by
  unfold next
  dsimp only
  rw [present, small]
  rfl

theorem next_absent (absent : hasFlag pagePresent (s.mem t i) = false) : s.next t i = none := by
  unfold next
  dsimp only
  rw [absent]
  rfl

theorem store_mem (s : Vm) (t u : BitVec 64) (i j : Fin 512) (e : BitVec 64) :
    (s.store t i e).mem u j = if u = t ∧ j = i then e else s.mem u j := by
  unfold store
  dsimp only
  rcases eq_or_ne u t with rfl | other
  · rw [Function.update_self]
    rcases eq_or_ne j i with rfl | away
    · rw [Function.update_self, if_pos ⟨rfl, rfl⟩]
    · rw [Function.update_of_ne away, if_neg (fun both => away both.2)]
  · rw [Function.update_of_ne other, if_neg (fun both => other both.1)]

theorem Tree.not_node (tree : s.Tree) {p : List (Fin 512)} {q : ℕ} (short : p.length ≤ 3)
    (free : s.pmm.IsFree q) : s.node p ≠ some (BitVec.ofNat 64 (q * pageSize)) :=
  fun at' => tree.used p _ q short at' free rfl

/-- Where the tables stay in their places, what is left to see is their entries, and that none
of them becomes free. -/
theorem Tree.of_nodes (tree : s.Tree) (nodes : ∀ p, p.length ≤ 3 → s'.node p = s.node p)
    (small : ∀ p t i, p.length < 3 → s.node p = some t →
      hasFlag pagePresent (s'.mem t i) = true → hasFlag pageHuge (s'.mem t i) = false)
    (total : s'.pmm.totalPages = s.pmm.totalPages)
    (used : ∀ p q, p.length ≤ 3 → s'.pmm.IsFree q →
      s.node p ≠ some (BitVec.ofNat 64 (q * pageSize))) : s'.Tree := by
  refine ⟨fun p q t shortP shortQ atP atQ => ?_, fun p t i short at' => ?_, ?_,
    total ▸ tree.pages⟩
  · rw [nodes p shortP] at atP
    rw [nodes q shortQ] at atQ
    exact tree.apart p q t shortP shortQ atP atQ
  · rw [nodes p short.le] at at'
    exact small p t i short at'
  · rintro p t q short at' free rfl
    rw [nodes p short] at at'
    exact used p q short free at'

/-! ## What a walk does to the tables -/

/-- A walk adds tables, and flags to the entries that lead to tables.  The tables added are
pages that were free; those of the last level are empty. -/
structure Walked (extra : BitVec 64) (s s' : Vm) : Prop where
  tree : s'.Tree
  cr3 : s'.cr3 = s.cr3
  kernelHeapCur : s'.kernelHeapCur = s.kernelHeapCur
  userMmapCur : s'.userMmapCur = s.userMmapCur
  total : s'.pmm.totalPages = s.pmm.totalPages
  keeps : ∀ p t, p.length ≤ 3 → s.node p = some t → s'.node p = some t
  new : ∀ p t, p.length ≤ 3 → s.node p = none → s'.node p = some t →
    ∃ page, s.pmm.IsFree page ∧ t = BitVec.ofNat 64 (page * pageSize)
  empty : ∀ p t i, p.length = 3 → s.node p = none → s'.node p = some t → s'.mem t i = 0#64
  upper : ∀ p t i, p.length < 3 → s.node p = some t →
    hasFlag pagePresent (s.mem t i) = true →
    s'.mem t i = s.mem t i ∨ s'.mem t i = s.mem t i ||| extra
  leaf : ∀ p t i, p.length = 3 → s.node p = some t → s'.mem t i = s.mem t i
  free : ∀ page, s'.pmm.IsFree page → s.pmm.IsFree page
  spent : ∀ page, s.pmm.IsFree page → ¬ s'.pmm.IsFree page →
    ∃ p, p.length ≤ 3 ∧ s'.node p = some (BitVec.ofNat 64 (page * pageSize))

theorem Walked.refl (tree : s.Tree) : Walked extra s s := by
  refine ⟨tree, rfl, rfl, rfl, rfl, fun _ _ _ at' => at', ?_, ?_, fun _ _ _ _ _ _ => .inl rfl,
    fun _ _ _ _ _ => rfl, fun _ free => free, fun _ free gone => absurd free gone⟩
  · intro p t _ absent at'
    rw [absent] at at'
    cases at'
  · intro p t i _ absent at'
    rw [absent] at at'
    cases at'

theorem or_present (low : extra = 0#64 ∨ extra = pageUser) (e : BitVec 64) :
    hasFlag pagePresent (e ||| extra) = hasFlag pagePresent e ∧
      hasFlag pageHuge (e ||| extra) = hasFlag pageHuge e ∧ pageAddr (e ||| extra) = pageAddr e := by
  rcases low with rfl | rfl
  · rw [BitVec.or_zero]
    exact ⟨rfl, rfl, rfl⟩
  · refine ⟨?_, ?_, pageAddr_or (show pageAddr pageUser = 0#64 from rfl) e⟩
    · rw [hasFlag_present, hasFlag_present, BitVec.getLsbD_or]
      simp [pageUser]
    · rw [hasFlag_huge, hasFlag_huge, BitVec.getLsbD_or]
      simp [pageUser]

theorem Walked.trans (low : extra = 0#64 ∨ extra = pageUser) (first : Walked extra s s')
    (second : Walked extra s' s'') : Walked extra s s'' where
  tree := second.tree
  cr3 := second.cr3.trans first.cr3
  kernelHeapCur := second.kernelHeapCur.trans first.kernelHeapCur
  userMmapCur := second.userMmapCur.trans first.userMmapCur
  total := second.total.trans first.total
  keeps p t short at' := second.keeps p t short (first.keeps p t short at')
  new p t short none some := by
    cases mid : s'.node p with
    | none =>
        obtain ⟨page, free, eq⟩ := second.new p t short mid some
        exact ⟨page, first.free page free, eq⟩
    | some u =>
        obtain rfl : u = t := Option.some.inj ((second.keeps p u short mid).symm.trans some)
        exact first.new p u short none mid
  empty p t i deep none some := by
    cases mid : s'.node p with
    | none => exact second.empty p t i deep mid some
    | some u =>
        obtain rfl : u = t := Option.some.inj ((second.keeps p u deep.le mid).symm.trans some)
        rw [second.leaf p u i deep mid]
        exact first.empty p u i deep none mid
  upper p t i short at' present := by
    have mid := first.keeps p t short.le at'
    have there : hasFlag pagePresent (s'.mem t i) = true := by
      rcases first.upper p t i short at' present with same | more
      · rw [same, present]
      · rw [more, (or_present low _).1, present]
    rcases first.upper p t i short at' present with same | more <;>
      rcases second.upper p t i short mid there with same' | more'
    · exact .inl (same'.trans same)
    · exact .inr (by rw [more', same])
    · exact .inr (by rw [same', more])
    · exact .inr (by rw [more', more, BitVec.or_assoc, BitVec.or_self])
  leaf p t i deep at' :=
    (second.leaf p t i deep (first.keeps p t deep.le at')).trans (first.leaf p t i deep at')
  free page free := first.free page (second.free page free)
  spent page free gone := by
    by_cases mid : s'.pmm.IsFree page
    · exact second.spent page mid gone
    · obtain ⟨p, short, at'⟩ := first.spent page free mid
      exact ⟨p, short, second.keeps p _ short at'⟩

/-- An entry that leads to a table gets flags. -/
theorem Tree.mark (tree : s.Tree) (low : extra = 0#64 ∨ extra = pageUser)
    {p : List (Fin 512)} (short : p.length < 3) (at' : s.node p = some t)
    (present : hasFlag pagePresent (s.mem t i) = true) :
    Walked extra s (s.store t i (s.mem t i ||| extra)) := by
  have bits := or_present low (s.mem t i)
  have entry : ∀ u j, hasFlag pagePresent ((s.store t i (s.mem t i ||| extra)).mem u j) =
        hasFlag pagePresent (s.mem u j) ∧
      hasFlag pageHuge ((s.store t i (s.mem t i ||| extra)).mem u j) =
        hasFlag pageHuge (s.mem u j) ∧
      pageAddr ((s.store t i (s.mem t i ||| extra)).mem u j) = pageAddr (s.mem u j) := by
    intro u j
    rw [store_mem]
    split
    next same =>
      obtain ⟨rfl, rfl⟩ := same
      exact bits
    next => exact ⟨rfl, rfl, rfl⟩
  have nodes : ∀ q, q.length ≤ 3 → (s.store t i (s.mem t i ||| extra)).node q = s.node q := by
    refine node_congr rfl fun p u j _ _ => ?_
    unfold next
    dsimp only
    rw [(entry u j).1, (entry u j).2.1, (entry u j).2.2]
  refine ⟨tree.of_nodes nodes (fun q u j shortQ atQ presentQ => ?_) rfl
    (fun _ _ short free => tree.not_node short free), rfl, rfl, rfl, rfl, ?_, ?_, ?_, ?_, ?_,
    fun _ free => free, fun _ free gone => absurd free gone⟩
  · rw [(entry u j).1] at presentQ
    rw [(entry u j).2.1]
    exact tree.small q u j shortQ atQ presentQ
  · intro q u shortQ atQ
    rw [nodes q shortQ, atQ]
  · intro q u shortQ none some
    rw [nodes q shortQ, none] at some
    cases some
  · intro q u j deep none some
    rw [nodes q deep.le, none] at some
    cases some
  · intro q u j _ _ _
    rw [store_mem]
    split
    next same =>
      obtain ⟨rfl, rfl⟩ := same
      exact .inr rfl
    next => exact .inl rfl
  · intro q u j deep atQ
    rw [store_mem, if_neg]
    rintro ⟨rfl, -⟩
    rw [tree.apart q p u deep.le short.le atQ at'] at deep
    omega

end Vm

/-! ## The allocator -/

theorem pmmAllocPage_none {p p' : Pmm} (eq : pmmAllocPage p = (none, p')) :
    p' = p ∧ searchPage p = none := by
  unfold pmmAllocPage at eq
  cases found : searchPage p with
  | none =>
      rw [found] at eq
      exact ⟨(Prod.mk.inj eq).2.symm, rfl⟩
  | some page =>
      rw [found] at eq
      cases (Prod.mk.inj eq).1

/-- A page that is handed out was free, and is the only one that is not free any more. -/
theorem pmmAllocPage_some {p p' : Pmm} {a : ℕ} (eq : pmmAllocPage p = (some a, p')) :
    ∃ page, a = page * pageSize ∧ page ≠ 0 ∧ p.IsFree page ∧ p'.totalPages = p.totalPages ∧
      ∀ q, p'.IsFree q ↔ p.IsFree q ∧ q ≠ page := by
  unfold pmmAllocPage at eq
  cases found : searchPage p with
  | none =>
      rw [found] at eq
      cases (Prod.mk.inj eq).1
  | some page =>
      rw [found] at eq
      obtain ⟨addr, rfl⟩ := Prod.mk.inj eq
      obtain ⟨pos, free⟩ := searchPage_some found
      refine ⟨page, (Option.some.inj addr).symm, pos, free, rfl, fun q => ?_⟩
      unfold Pmm.IsFree
      dsimp only
      rw [getBit_setBit]
      constructor
      · rintro ⟨inside, bit⟩
        rw [Bool.or_eq_false_iff] at bit
        exact ⟨⟨inside, bit.2⟩, by simpa [eq_comm] using bit.1⟩
      · rintro ⟨⟨inside, bit⟩, ne⟩
        exact ⟨inside, by rw [bit, Bool.or_false]; simpa [eq_comm] using ne⟩

/-- Pages have different addresses. -/
theorem page_inj {a b : ℕ} (ltA : a < 2 ^ 52) (ltB : b < 2 ^ 52)
    (same : BitVec.ofNat 64 (a * pageSize) = BitVec.ofNat 64 (b * pageSize)) : a = b := by
  have size : pageSize = 4096 := rfl
  have values := congrArg BitVec.toNat same
  rw [BitVec.toNat_ofNat, BitVec.toNat_ofNat, size, Nat.mod_eq_of_lt (by omega),
    Nat.mod_eq_of_lt (by omega)] at values
  omega

namespace Vm

variable {s s' s'' : Vm} {t : BitVec 64} {i : Fin 512} {e extra virt : BitVec 64} {level : ℕ}

/-- The entry that `walk_pt` stores for a page. -/
def link (page : ℕ) (extra : BitVec 64) : BitVec 64 :=
  BitVec.ofNat 64 (page * pageSize) ||| pagePresent ||| pageWritable ||| extra

theorem link_bits (low : extra = 0#64 ∨ extra = pageUser) (page : ℕ) :
    hasFlag pagePresent (link page extra) = true ∧ hasFlag pageHuge (link page extra) = false ∧
      pageAddr (link page extra) = BitVec.ofNat 64 (page * pageSize) ∧
      link page extra ||| extra = link page extra := by
  have flags : IsFlags (pagePresent ||| pageWritable) := show pageAddr _ = 0#64 from rfl
  obtain ⟨present, huge, addr⟩ :=
    or_present low (BitVec.ofNat 64 (page * pageSize) ||| pagePresent ||| pageWritable)
  unfold link
  refine ⟨?_, ?_, ?_, ?_⟩
  · rw [present, hasFlag_present, BitVec.getLsbD_or, BitVec.getLsbD_or]
    simp [pagePresent]
  · have bit : (BitVec.ofNat 64 (page * pageSize)).getLsbD 7 = false := by
      rw [BitVec.getLsbD_ofNat, show pageSize = 2 ^ 12 from rfl, Nat.testBit_mul_two_pow]
      rfl
    rw [huge, hasFlag_huge, BitVec.getLsbD_or, BitVec.getLsbD_or, bit]
    rfl
  · rw [addr, BitVec.or_assoc, pageAddr_or flags, pageAddr_page]
  · rw [BitVec.or_assoc, BitVec.or_self]

/-- A page that was free becomes a table below `t`. -/
def grown (s : Vm) (pmm : Pmm) (t : BitVec 64) (i : Fin 512) (page : ℕ) (extra : BitVec 64) : Vm :=
  (Vm.clear { s with pmm } (BitVec.ofNat 64 (page * pageSize))).store t i (link page extra)

section Grow

variable {p : List (Fin 512)} {pmm : Pmm} {page : ℕ}

theorem grown_mem (u : BitVec 64) (j : Fin 512) :
    (grown s pmm t i page extra).mem u j =
      if u = t ∧ j = i then link page extra
      else if u = BitVec.ofNat 64 (page * pageSize) then 0#64 else s.mem u j := by
  unfold grown
  rw [store_mem]
  split
  next => rfl
  next =>
    unfold clear
    dsimp only
    rw [Function.update_apply]
    split <;> rfl

/-- The new table is one more, and the others are where they were. -/
theorem Tree.grown_node (tree : s.Tree) (low : extra = 0#64 ∨ extra = pageUser)
    (short : p.length < 3) (at' : s.node p = some t)
    (absent : hasFlag pagePresent (s.mem t i) = false) (free : s.pmm.IsFree page)
    (q : List (Fin 512)) (shortQ : q.length ≤ 3) :
    (grown s pmm t i page extra).node q =
      if q = i :: p then some (BitVec.ofNat 64 (page * pageSize)) else s.node q := by
  have ne : t ≠ BitVec.ofNat 64 (page * pageSize) := tree.used p t page short.le at' free
  obtain ⟨present, small, addr, -⟩ := link_bits low page
  induction q with
  | nil => rfl
  | cons j q ih =>
      have less : q.length < 3 := shortQ
      unfold node
      rw [ih less.le]
      by_cases below : q = i :: p
      · subst below
        -- the new table is empty
        have parent : s.node (i :: p) = none := by
          unfold node
          rw [at', Option.bind_some, next_absent absent]
        have zero : (grown s pmm t i page extra).mem (BitVec.ofNat 64 (page * pageSize)) j =
            0#64 := by
          rw [grown_mem, if_neg (fun both => ne both.1.symm), if_pos rfl]
        have away : j :: i :: p ≠ i :: p := fun same => by
          have := congrArg List.length same
          simp at this
        rw [if_pos rfl, Option.bind_some, if_neg away, parent, Option.bind_none,
          next_absent (by rw [zero]; rfl)]
      · rw [if_neg below]
        cases atQ : s.node q with
        | none =>
            have away : j :: q ≠ i :: p := fun same => by
              rw [(List.cons.inj same).2, at'] at atQ
              cases atQ
            rw [if_neg away, Option.bind_none, Option.bind_none]
        | some u =>
            have other : u ≠ BitVec.ofNat 64 (page * pageSize) :=
              tree.used q u page less.le atQ free
            rw [Option.bind_some, Option.bind_some]
            by_cases here : j :: q = i :: p
            · obtain ⟨rfl, rfl⟩ := List.cons.inj here
              obtain rfl : t = u := Option.some.inj (at'.symm.trans atQ)
              have entry : (grown s pmm t j page extra).mem t j = link page extra := by
                rw [grown_mem, if_pos ⟨rfl, rfl⟩]
              rw [if_pos rfl, next_present (by rw [entry, present]) (by rw [entry, small]), entry,
                addr]
            · have entry : (grown s pmm t i page extra).mem u j = s.mem u j := by
                rw [grown_mem, if_neg, if_neg other]
                rintro ⟨rfl, rfl⟩
                exact here (by rw [tree.apart q p u less.le short.le atQ at'])
              rw [if_neg here]
              unfold next
              dsimp only
              rw [entry]

theorem Tree.grow (tree : s.Tree) (low : extra = 0#64 ∨ extra = pageUser)
    (short : p.length < 3) (at' : s.node p = some t)
    (absent : hasFlag pagePresent (s.mem t i) = false) (free : s.pmm.IsFree page)
    (total : pmm.totalPages = s.pmm.totalPages)
    (rest : ∀ q, pmm.IsFree q ↔ s.pmm.IsFree q ∧ q ≠ page) :
    Walked extra s (grown s pmm t i page extra) := by
  have ne : t ≠ BitVec.ofNat 64 (page * pageSize) := tree.used p t page short.le at' free
  have nodes := @Tree.grown_node s t i extra p pmm page tree low short at' absent free
  obtain ⟨present, small, addr, -⟩ := link_bits low page
  have fresh : ∀ q, q.length ≤ 3 → s.node q ≠ some (BitVec.ofNat 64 (page * pageSize)) :=
    fun q shortQ atQ => tree.used q _ page shortQ atQ free rfl
  have bound : ∀ q, s.pmm.IsFree q → q < 2 ^ 52 := fun q isFree =>
    lt_of_lt_of_le isFree.1 tree.pages
  -- a table is the new one or an old one
  have either : ∀ q u, q.length ≤ 3 → (grown s pmm t i page extra).node q = some u →
      (q = i :: p ∧ u = BitVec.ofNat 64 (page * pageSize)) ∨ (q ≠ i :: p ∧ s.node q = some u) := by
    intro q u shortQ atQ
    rw [nodes q shortQ] at atQ
    split at atQ
    next here => exact .inl ⟨here, (Option.some.inj atQ).symm⟩
    next away => exact .inr ⟨away, atQ⟩
  have parent : s.node (i :: p) = none := by
    unfold node
    rw [at', Option.bind_some, next_absent absent]
  refine ⟨⟨?_, ?_, ?_, ?_⟩, rfl, rfl, rfl, total, ?_, ?_, ?_, ?_, ?_,
    fun q isFree => ((rest q).mp isFree).1, ?_⟩
  · intro q r u shortQ shortR atQ atR
    rcases either q u shortQ atQ with ⟨rfl, rfl⟩ | ⟨-, oldQ⟩
    · rcases either r _ shortR atR with ⟨rfl, -⟩ | ⟨-, oldR⟩
      · rfl
      · exact absurd oldR (fresh r shortR)
    · rcases either r u shortR atR with ⟨rfl, rfl⟩ | ⟨-, oldR⟩
      · exact absurd oldQ (fresh q shortQ)
      · exact tree.apart q r u shortQ shortR oldQ oldR
  · intro q u j shortQ atQ isPresent
    rw [grown_mem] at isPresent ⊢
    split
    next => exact small
    next away =>
      rw [if_neg away] at isPresent
      split
      next => rfl
      next other =>
        rw [if_neg other] at isPresent
        rcases either q u shortQ.le atQ with ⟨-, rfl⟩ | ⟨-, oldQ⟩
        · exact absurd rfl other
        · exact tree.small q u j shortQ oldQ isPresent
  · intro q u page' shortQ atQ isFree same
    obtain ⟨wasFree, other⟩ := (rest page').mp isFree
    rcases either q u shortQ atQ with ⟨-, rfl⟩ | ⟨-, oldQ⟩
    · exact other (page_inj (bound page' wasFree) (bound page free) same.symm)
    · exact tree.used q u page' shortQ oldQ wasFree same
  · exact total ▸ tree.pages
  · intro q u shortQ atQ
    rw [nodes q shortQ, if_neg, atQ]
    rintro rfl
    rw [parent] at atQ
    cases atQ
  · intro q u shortQ none atQ
    rcases either q u shortQ atQ with ⟨-, rfl⟩ | ⟨-, oldQ⟩
    · exact ⟨page, free, rfl⟩
    · rw [none] at oldQ
      cases oldQ
  · intro q u j deep none atQ
    rcases either q u deep.le atQ with ⟨-, rfl⟩ | ⟨-, oldQ⟩
    · rw [grown_mem, if_neg (fun both => ne both.1.symm), if_pos rfl]
    · rw [none] at oldQ
      cases oldQ
  · intro q u j shortQ atQ isPresent
    refine .inl ?_
    rw [grown_mem, if_neg, if_neg]
    · rintro rfl
      exact fresh q shortQ.le atQ
    · rintro ⟨rfl, rfl⟩
      rw [absent] at isPresent
      cases isPresent
  · intro q u j deep atQ
    rw [grown_mem, if_neg, if_neg]
    · rintro rfl
      exact fresh q deep.le atQ
    · rintro ⟨rfl, -⟩
      rw [tree.apart q p u deep.le short.le atQ at'] at deep
      omega
  · intro q isFree gone
    obtain rfl : q = page := by
      by_contra other
      exact gone ((rest q).mpr ⟨isFree, other⟩)
    exact ⟨i :: p, short, (nodes (i :: p) short).trans (if_pos rfl)⟩

end Grow

end Vm

namespace Vm

variable {s s' s'' : Vm} {t : BitVec 64} {i : Fin 512} {e extra virt : BitVec 64} {level : ℕ}

/-! ## The walk -/

/-- Flags that an entry on the way to a table has got stay. -/
theorem Walked.flagged (walked : Walked extra s s')
    {p : List (Fin 512)} (short : p.length < 3) (at' : s.node p = some t)
    (present : hasFlag pagePresent (s.mem t i) = true)
    (flagged : s.mem t i ||| extra = s.mem t i) :
    s'.mem t i ||| extra = s'.mem t i := by
  rcases walked.upper p t i short at' present with same | more
  · rw [same, flagged]
  · rw [more, BitVec.or_assoc, BitVec.or_self]

/-- What a walk that may add tables leaves: if there was memory, the table of the last level
is reached, and all entries on the way have the flags. -/
structure Reached (extra virt : BitVec 64) (level : ℕ) (r : Walk × Vm) : Prop where
  present : r.1 ≠ .absent
  reached : ∀ e t, r.1 = .entry e t → r.2.node (above virt 0) = some t ∧
    e = r.2.mem t (ptIdx virt 0) ∧
    ∀ l, 1 ≤ l → l ≤ level → ∃ e', r.2.entryAt virt l = some e' ∧ e' ||| extra = e'

/-- One level more. -/
theorem Reached.up {r : Walk × Vm} (reached : Reached extra virt level r) (less : level < 3)
    (walked : Walked extra s r.2)
    (at' : s.node (above virt (level + 1)) = some t)
    (present : hasFlag pagePresent (s.mem t (ptIdx virt (level + 1))) = true)
    (flagged : s.mem t (ptIdx virt (level + 1)) ||| extra = s.mem t (ptIdx virt (level + 1))) :
    Reached extra virt (level + 1) r := by
  refine ⟨reached.present, fun e u eq => ?_⟩
  obtain ⟨last, entry, flags⟩ := reached.reached e u eq
  refine ⟨last, entry, fun l pos le => ?_⟩
  rcases Nat.lt_or_ge l (level + 1) with below | ge
  · exact flags l pos (by omega)
  · obtain rfl : l = level + 1 := by omega
    have short : (above virt (level + 1)).length < 3 := by rw [above_length]; omega
    refine ⟨r.2.mem t (ptIdx virt (level + 1)), ?_, walked.flagged short at' present flagged⟩
    unfold entryAt
    rw [walked.keeps _ _ short.le at', Option.map_some]

/-- The table below an entry in use. -/
theorem node_above (less : level < 3) (at' : s.node (above virt (level + 1)) = some t)
    (present : hasFlag pagePresent (s.mem t (ptIdx virt (level + 1))) = true)
    (small : hasFlag pageHuge (s.mem t (ptIdx virt (level + 1))) = false) :
    s.node (above virt level) = some (pageAddr (s.mem t (ptIdx virt (level + 1)))) := by
  rw [above_succ virt less, node, at', Option.bind_some, next_present present small]

/-- A table that is added on the way to an address is the one the walk goes on with. -/
theorem Tree.grow_above (tree : s.Tree) (low : extra = 0#64 ∨ extra = pageUser)
    (less : level < 3) (at' : s.node (above virt (level + 1)) = some t)
    (absent : hasFlag pagePresent (s.mem t (ptIdx virt (level + 1))) = false) {pmm : Pmm}
    {page : ℕ} (free : s.pmm.IsFree page) (total : pmm.totalPages = s.pmm.totalPages)
    (rest : ∀ q, pmm.IsFree q ↔ s.pmm.IsFree q ∧ q ≠ page) :
    Walked extra s (grown s pmm t (ptIdx virt (level + 1)) page extra) ∧
      (grown s pmm t (ptIdx virt (level + 1)) page extra).mem t (ptIdx virt (level + 1)) =
        link page extra ∧
      (grown s pmm t (ptIdx virt (level + 1)) page extra).node (above virt level) =
        some (pageAddr (link page extra)) := by
  have short : (above virt (level + 1)).length < 3 := by rw [above_length]; omega
  obtain ⟨linked, small, -, -⟩ := link_bits low page
  have walked : Walked extra s (grown s pmm t (ptIdx virt (level + 1)) page extra) :=
    tree.grow low short at' absent free total rest
  have entry : (grown s pmm t (ptIdx virt (level + 1)) page extra).mem t
      (ptIdx virt (level + 1)) = link page extra := by
    rw [grown_mem, if_pos ⟨rfl, rfl⟩]
  have child := node_above less (walked.keeps _ _ short.le at') (by rw [entry, linked])
    (by rw [entry, small])
  rw [entry] at child
  exact ⟨walked, entry, child⟩

theorem walkFrom_spec (low : extra = 0#64 ∨ extra = pageUser) (le : level ≤ 3) (tree : s.Tree)
    (at' : s.node (above virt level) = some t) :
    Walked extra s (walkFrom true extra virt level s t).2 ∧
      Reached extra virt level (walkFrom true extra virt level s t) := by
  induction level generalizing s t with
  | zero =>
      refine ⟨.refl tree, ⟨nofun, fun e u eq => ?_⟩⟩
      obtain ⟨rfl, rfl⟩ := Walk.entry.inj eq
      exact ⟨at', rfl, fun l pos none => by omega⟩
  | succ level ih =>
      have less : level < 3 := le
      have short : (above virt (level + 1)).length < 3 := by rw [above_length]; omega
      unfold walkFrom
      dsimp only
      cases present : hasFlag pagePresent (s.mem t (ptIdx virt (level + 1))) with
      | false =>
          rw [if_pos rfl, if_neg Bool.true_eq_false_eq_False]
          cases call : pmmAllocPage s.pmm with
          | mk answer pmm =>
              cases answer with
              | none =>
                  obtain ⟨rfl, -⟩ := pmmAllocPage_none call
                  exact ⟨.refl tree, ⟨nofun, nofun⟩⟩
              | some a =>
                  obtain ⟨page, rfl, -, free, total, rest⟩ := pmmAllocPage_some call
                  obtain ⟨linked, -, -, flagged⟩ := link_bits low page
                  obtain ⟨walked, entry, child⟩ :=
                    tree.grow_above low less at' present free total rest
                  obtain ⟨further, reached⟩ := ih less.le walked.tree child
                  exact ⟨walked.trans low further, reached.up less further
                    (walked.keeps _ _ short.le at') (by rw [entry, linked])
                    (by rw [entry, flagged])⟩
      | true =>
          have small := tree.small _ _ _ short at' present
          have child := node_above less at' present small
          rw [if_neg Bool.true_eq_false_eq_False]
          split
          next =>
            have bits := or_present low (s.mem t (ptIdx virt (level + 1)))
            have walked := tree.mark low short at' present
            have entry : (s.store t (ptIdx virt (level + 1))
                (s.mem t (ptIdx virt (level + 1)) ||| extra)).mem t (ptIdx virt (level + 1)) =
                s.mem t (ptIdx virt (level + 1)) ||| extra := by
              rw [store_mem, if_pos ⟨rfl, rfl⟩]
            obtain ⟨further, reached⟩ := ih less.le walked.tree (walked.keeps _ _
              (by rw [above_length]; omega) child)
            exact ⟨walked.trans low further, reached.up less further
              (walked.keeps _ _ short.le at') (by rw [entry, bits.1, present])
              (by rw [entry, BitVec.or_assoc, BitVec.or_self])⟩
          next none =>
            obtain ⟨further, reached⟩ := ih less.le tree child
            have zero : extra = 0#64 := not_not.mp none
            exact ⟨further, reached.up less further at' present
              (by rw [zero, BitVec.or_zero])⟩

/-- A walk that adds no tables changes nothing, and finds the entry of the last level. -/
theorem walkFrom_find (le : level ≤ 3) (tree : s.Tree)
    (at' : s.node (above virt level) = some t) :
    (walkFrom false 0#64 virt level s t).2 = s ∧
      (walkFrom false 0#64 virt level s t).1 =
        match s.node (above virt 0) with
        | some u => .entry (s.mem u (ptIdx virt 0)) u
        | none => .absent := by
  induction level generalizing t with
  | zero =>
      rw [at']
      exact ⟨rfl, rfl⟩
  | succ level ih =>
      have less : level < 3 := le
      have short : (above virt (level + 1)).length < 3 := by rw [above_length]; omega
      unfold walkFrom
      dsimp only
      cases present : hasFlag pagePresent (s.mem t (ptIdx virt (level + 1))) with
      | false =>
          have gone : ∀ l, l ≤ level → s.node (above virt l) = none := by
            intro l leL
            induction leL using Nat.decreasingInduction with
            | self => rw [above_succ virt less, node, at', Option.bind_some, next_absent present]
            | of_succ k lt ih' => rw [above_succ virt (by omega), node, ih', Option.bind_none]
          rw [if_pos rfl, if_pos rfl, gone 0 (Nat.zero_le _)]
          exact ⟨rfl, rfl⟩
      | true =>
          have small := tree.small _ _ _ short at' present
          rw [if_neg Bool.true_eq_false_eq_False, if_neg (by simp)]
          exact ih less.le (node_above less at' present small)

end Vm

end NTux.Mm
