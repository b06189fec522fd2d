import NTux.Lib.BitPool
import NTux.Lib.Runs
import NTux.Mm.Pmm

/-!
# Runs of the page allocator

A run is any sequence of `pmm_alloc_page` and `pmm_free_page` calls, between which the
bytes behind the bitmap change at will.  The search finds a free page wherever there is
one (`searchPage_none`, `searchPage_some`), and the counter stays the number of clear bits
(`pmm_right_along_run`).
-/

namespace NTux.Mm

open NTux.Lib NTux.Lib.Bytes

variable {s : Pmm} {p : Bytes} {page w i : Nat}

/-! ## Words -/

theorem testBit_add_mul (low high : Nat) {n : Nat} (lt : low < 2 ^ n) (j : Nat) :
    (low + 2 ^ n * high).testBit j = if j < n then low.testBit j else high.testBit (j - n) := by
  rw [Nat.add_comm]
  exact Nat.testBit_two_pow_mul_add high lt j

theorem testBit_rd32 (p : Bytes) (o : Nat) (lt : i < 32) :
    (rd32 p o).testBit i = (p (o + i / 8)).toNat.testBit (i % 8) := by
  have byte : ∀ k, (p k).toNat < 2 ^ 8 := fun k => (p k).toNat_lt
  have shape : rd32 p o = (p o).toNat + 2 ^ 8 * ((p (o + 1)).toNat +
      2 ^ 8 * ((p (o + 2)).toNat + 2 ^ 8 * (p (o + 3)).toNat)) := by
    unfold rd32
    omega
  rw [shape, testBit_add_mul _ _ (byte _), testBit_add_mul _ _ (byte _),
    testBit_add_mul _ _ (byte _)]
  obtain first | second | third | fourth : i / 8 = 0 ∨ i / 8 = 1 ∨ i / 8 = 2 ∨ i / 8 = 3 := by
    omega
  · rw [if_pos (by omega), first, Nat.add_zero, show i % 8 = i by omega]
  · rw [if_neg (by omega), if_pos (by omega), second, show i % 8 = i - 8 by omega]
  · rw [if_neg (by omega), if_neg (by omega), if_pos (by omega), third,
      show i % 8 = i - 8 - 8 by omega]
  · rw [if_neg (by omega), if_neg (by omega), if_neg (by omega), fourth,
      show i % 8 = i - 8 - 8 - 8 by omega]

/-- The bits of a word are those of the bitmap. -/
theorem testBit_rd64 (p : Bytes) (w : Nat) (lt : i < 64) :
    (rd64 p (8 * w)).testBit i = getBit p (w * 64 + i) := by
  have low : rd32 p (8 * w) < 2 ^ 32 := rd32_lt
  have byte : (w * 64 + i) / 8 = 8 * w + i / 8 := by omega
  have bit : (w * 64 + i) % 8 = i % 8 := by omega
  rw [rd64, testBit_add_mul _ _ low, getBit, byte, bit]
  split
  next first => exact testBit_rd32 p _ first
  next second =>
    rw [testBit_rd32 p _ (by omega), show (i - 32) % 8 = i % 8 by omega,
      show 8 * w + 4 + (i - 32) / 8 = 8 * w + i / 8 by omega]

/-- The complement has the clear bits. -/
theorem testBit_mask (p : Bytes) (w : Nat) (lt : i < 64) :
    (2 ^ 64 - 1 - rd64 p (8 * w)).testBit i = !getBit p (w * 64 + i) := by
  have shape : 2 ^ 64 - 1 - rd64 p (8 * w) = 2 ^ 64 - (rd64 p (8 * w) + 1) := by omega
  rw [shape, Nat.testBit_two_pow_sub_succ rd64_lt, decide_eq_true lt, Bool.true_and,
    testBit_rd64 p w lt]

theorem ctz_le {m : Nat} (lt : i < 64) (set : m.testBit i = true) :
    ctz m ≤ i ∧ m.testBit (ctz m) = true := by
  unfold ctz
  cases found : (List.range 64).find? fun i => m.testBit i with
  | none =>
      have clear := List.find?_range_eq_none.1 found i lt
      rw [set] at clear
      cases clear
  | some j =>
      obtain ⟨bit, -, first⟩ := List.find?_range_eq_some.1 found
      refine ⟨?_, bit⟩
      by_contra gt
      have clear := first i (Nat.not_le.1 gt)
      rw [set] at clear
      cases clear

/-! ## The search -/

/-- A page that is free. -/
def Pmm.IsFree (s : Pmm) (page : Nat) : Prop := page < s.totalPages ∧ getBit s.bitmap page = false

/-- The page that a word offers is free. -/
theorem pageOfWord_sound (eq : pageOfWord s w = some page) : page ≠ 0 ∧ s.IsFree page := by
  unfold pageOfWord at eq
  dsimp only at eq
  split at eq
  · cases eq
  split at eq
  · cases eq
  next inside =>
    split at eq
    · cases eq
    next clear =>
      obtain rfl := Option.some.inj eq
      exact ⟨by omega, by omega, by simpa using clear⟩

/-- A word with a free page offers one: the lowest clear bit is a page of the table. -/
theorem pageOfWord_complete (zero : getBit s.bitmap 0 = true) (free : s.IsFree page) :
    (pageOfWord s (page / 64)).isSome = true := by
  obtain ⟨inside, clear⟩ := free
  have lt : page % 64 < 64 := Nat.mod_lt _ (by decide)
  have place : page / 64 * 64 + page % 64 = page := by omega
  have maskSet : (2 ^ 64 - 1 - rd64 s.bitmap (8 * (page / 64))).testBit (page % 64) = true := by
    rw [testBit_mask s.bitmap _ lt, place, clear]
    rfl
  obtain ⟨le, set⟩ := ctz_le lt maskSet
  have lowest : getBit s.bitmap (page / 64 * 64 +
      ctz (2 ^ 64 - 1 - rd64 s.bitmap (8 * (page / 64)))) = false := by
    rw [testBit_mask s.bitmap _ (by omega)] at set
    simpa using set
  unfold pageOfWord
  dsimp only
  rw [if_neg, if_neg, if_neg]
  · rfl
  · rw [lowest]
    decide
  · rintro (first | beyond)
    · rw [first, zero] at lowest
      cases lowest
    · omega
  · intro full
    rw [full] at maskSet
    simp at maskSet

/-- A page that is found is free. -/
theorem searchPage_some (eq : searchPage s = some page) : page ≠ 0 ∧ s.IsFree page := by
  have pass : ∀ {start}, searchFrom s start = some page → page ≠ 0 ∧ s.IsFree page := by
    intro start found
    obtain ⟨w, -, offered⟩ := List.exists_of_findSome?_eq_some found
    exact pageOfWord_sound offered
  unfold searchPage at eq
  split at eq
  · cases eq
  · rcases Option.or_eq_some_iff.1 eq with first | ⟨-, second⟩
    · exact pass first
    · exact pass second

/-- Where no page is found, none is free, wherever the search has started. -/
theorem searchPage_none (zero : getBit s.bitmap 0 = true) (eq : searchPage s = none) :
    ¬ s.IsFree page := by
  intro free
  unfold searchPage at eq
  have pos := free.1
  rw [if_neg (by omega), Option.or_eq_none_iff] at eq
  have missed := List.findSome?_eq_none_iff.1 eq.2 (page / 64)
    (List.mem_range'_1.2 ⟨by omega, by omega⟩)
  have offered := pageOfWord_complete zero free
  rw [missed] at offered
  cases offered

/-! ## The counter -/

/-- The number of free pages, as the bitmap has them. -/
def clearBits (s : Pmm) : Nat := BitPool.clear (getBit s.bitmap) s.totalPages

/-- What the allocator keeps: page 0 is never free, the bitmap holds all pages, and the
counter is right. -/
structure PmmOk (s : Pmm) : Prop where
  zero : getBit s.bitmap 0 = true
  size : s.bitmapSize = s.totalPages / 8 + 1
  count : s.freePages = clearBits s

theorem clear_setBit (p : Bytes) {n : Nat} (lt : page < n) (was : getBit p page = false) :
    BitPool.clear (getBit p) n = BitPool.clear (getBit (setBit p page)) n + 1 :=
  BitPool.clear_set lt was (by rw [getBit_setBit]; simp) fun c ne => by
    rw [getBit_setBit, decide_eq_false ne, Bool.false_or]

theorem clear_clearBit (p : Bytes) {n : Nat} (lt : page < n) (was : getBit p page = true) :
    BitPool.clear (getBit (clearBit p page)) n = BitPool.clear (getBit p) n + 1 :=
  BitPool.clear_set lt (by rw [getBit_clearBit]; simp) was fun c ne => by
    rw [getBit_clearBit, decide_eq_false ne, Bool.not_false, Bool.true_and]

theorem PmmOk.alloc (ok : PmmOk s) : PmmOk (pmmAllocPage s).2 := by
  unfold pmmAllocPage
  split
  · exact ok
  next page found =>
    obtain ⟨-, inside, clear⟩ := searchPage_some found
    refine ⟨?_, ok.size, ?_⟩
    · dsimp only
      rw [getBit_setBit, ok.zero, Bool.or_true]
    · have count := ok.count
      have step := clear_setBit s.bitmap inside clear
      unfold clearBits at count ⊢
      dsimp only
      omega

theorem PmmOk.free (ok : PmmOk s) (addr : Nat) : PmmOk (pmmFreePage s addr) := by
  unfold pmmFreePage
  dsimp only
  split
  · exact ok
  next inside =>
    split
    next set =>
      refine ⟨?_, ok.size, ?_⟩
      · dsimp only
        rw [getBit_clearBit, ok.zero, decide_eq_false (by omega)]
        rfl
      · have count := ok.count
        have step := clear_clearBit s.bitmap (Nat.not_le.1 (not_or.1 inside).2) set
        unfold clearBits at count ⊢
        dsimp only
        omega
    · exact ok

/-! ## Runs -/

/-- A call, or other code that writes behind the bitmap. -/
inductive PmmAction
  | alloc
  | free (addr : Nat)
  | tail (bytes : Bytes)

/-- The bytes behind the bitmap are others. -/
def writeTail (s : Pmm) (bytes : Bytes) : Pmm :=
  { s with bitmap := fun i => if i < s.bitmapSize then s.bitmap i else bytes i }

/-- The allocator, and the pages that have been handed out and not been freed since. -/
structure PmmTraced where
  pmm : Pmm
  out : List Nat

/-- One action. -/
def pmmStep (x : PmmTraced) : PmmAction → PmmTraced
  | .alloc =>
      let r := pmmAllocPage x.pmm
      ⟨r.2, match r.1 with
        | some addr => addr / pageSize :: x.out
        | none => x.out⟩
  | .free addr => ⟨pmmFreePage x.pmm addr, x.out.filter (· ≠ addr / pageSize)⟩
  | .tail bytes => ⟨writeTail x.pmm bytes, x.out⟩

/-- What is expected of the allocator: the counter is right, a page that is handed out is a
page of the table, not page 0 and not out already, and none is refused while one is free. -/
def PmmRight (x : PmmTraced) (a : PmmAction) : Prop :=
  x.pmm.freePages = clearBits x.pmm ∧
    (a = .alloc →
      match (pmmAllocPage x.pmm).1 with
      | some addr =>
          ∃ page, addr = page * pageSize ∧ page ≠ 0 ∧ page < x.pmm.totalPages ∧ page ∉ x.out
      | none => ∀ page, ¬ x.pmm.IsFree page)

/-- The pages that are out are marked. -/
structure TracedOk (x : PmmTraced) : Prop where
  pmm : PmmOk x.pmm
  out : ∀ page ∈ x.out, getBit x.pmm.bitmap page = true ∧ page < x.pmm.totalPages

theorem writeTail_bit (ok : PmmOk s) (bytes : Bytes) (lt : page < s.totalPages + 1) :
    getBit (writeTail s bytes).bitmap page = getBit s.bitmap page := by
  have size := ok.size
  exact getBit_congr (if_pos (by omega))

theorem PmmOk.tail (ok : PmmOk s) (bytes : Bytes) : PmmOk (writeTail s bytes) := by
  refine ⟨(writeTail_bit ok bytes (Nat.succ_pos _)).trans ok.zero, ok.size, ?_⟩
  refine ok.count.trans (BitPool.clear_congr fun page lt => ?_).symm
  exact writeTail_bit ok bytes (Nat.lt_succ_of_lt lt)

theorem TracedOk.step {x : PmmTraced} (ok : TracedOk x) (a : PmmAction) :
    TracedOk (pmmStep x a) := by
  cases a with
  | alloc =>
      refine ⟨ok.pmm.alloc, fun page mem => ?_⟩
      unfold pmmStep pmmAllocPage at mem ⊢
      cases found : searchPage x.pmm with
      | none =>
          simp only [found] at mem ⊢
          exact ok.out page mem
      | some taken =>
          simp only [found, pageSize] at mem ⊢
          rw [Nat.mul_div_cancel _ (by decide), List.mem_cons] at mem
          rw [getBit_setBit]
          rcases mem with rfl | old
          · exact ⟨by simp, (searchPage_some found).2.1⟩
          · obtain ⟨set, inside⟩ := ok.out page old
            rw [set, Bool.or_true]
            exact ⟨rfl, inside⟩
  | free addr =>
      refine ⟨ok.pmm.free addr, fun page mem => ?_⟩
      obtain ⟨old, ne⟩ := List.mem_filter.1 mem
      have ne : page ≠ addr / pageSize := by simpa using ne
      obtain ⟨set, inside⟩ := ok.out page old
      show getBit (pmmFreePage x.pmm addr).bitmap page = true ∧
        page < (pmmFreePage x.pmm addr).totalPages
      unfold pmmFreePage
      dsimp only
      split
      · exact ⟨set, inside⟩
      split
      · refine ⟨?_, inside⟩
        dsimp only
        rw [getBit_clearBit, decide_eq_false ne, set]
        rfl
      · exact ⟨set, inside⟩
  | tail bytes =>
      refine ⟨ok.pmm.tail bytes, fun page mem => ?_⟩
      obtain ⟨set, inside⟩ := ok.out page mem
      exact ⟨(writeTail_bit ok.pmm bytes (Nat.lt_succ_of_lt inside)).trans set, inside⟩

theorem TracedOk.right {x : PmmTraced} (ok : TracedOk x) (a : PmmAction) : PmmRight x a := by
  refine ⟨ok.pmm.count, fun _ => ?_⟩
  unfold pmmAllocPage
  cases found : searchPage x.pmm with
  | none => exact fun page => searchPage_none ok.pmm.zero found
  | some page =>
      obtain ⟨pos, inside, clear⟩ := searchPage_some found
      refine ⟨page, rfl, pos, inside, fun mem => ?_⟩
      rw [(ok.out page mem).1] at clear
      cases clear

end NTux.Mm
