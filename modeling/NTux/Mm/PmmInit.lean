import NTux.Mm.PmmRun

/-!
# What the initialisation marks free

`pmm_init` places the bitmap at the front of an entry and takes its bytes off the entry.
What is left of the entry need not start at a page any more, and the first page that is
derived from it is the one the bitmap ends in (`pmm_init_safe_iff`).
-/

namespace NTux.Mm

open NTux.Lib NTux.Lib.Bytes

variable {s : Pmm} {entries entries' : List MemmapEntry} {e e' : MemmapEntry} {mem p : Bytes}
  {page size phys n : Nat}

/-! ## Entries -/

/-- An address in an entry. -/
def MemmapEntry.Holds (e : MemmapEntry) (x : Nat) : Prop := e.base ≤ x ∧ x < e.base + e.length

/-- No address is in two entries. -/
def Apart (entries : List MemmapEntry) : Prop :=
  entries.Pairwise fun a b => ∀ x, ¬ (a.Holds x ∧ b.Holds x)

/-- An entry that starts and ends at a page. -/
def MemmapEntry.Aligned (e : MemmapEntry) : Prop := e.base % pageSize = 0 ∧ e.length % pageSize = 0

/-- An entry that can hold the bitmap. -/
def MemmapEntry.canHold (size : Nat) (e : MemmapEntry) : Bool := e.usable && size ≤ e.length

theorem MemmapEntry.holds_carve {le : n ≤ e.length} {x : Nat} (holds : (e.carve n le).Holds x) :
    e.Holds x := by
  obtain ⟨low, high⟩ := holds
  simp only [carve] at low high
  exact ⟨by omega, by omega⟩

/-- The bitmap is taken from the first entry that can hold it. -/
theorem placeBitmap_eq_some (eq : placeBitmap size entries = some (phys, entries')) :
    ∃ pre e post, ∃ le : size ≤ e.length, entries = pre ++ e :: post ∧
      entries' = pre ++ e.carve size le :: post ∧ phys = e.base ∧ e.usable = true ∧
      entries.find? (MemmapEntry.canHold size) = some e := by
  induction entries generalizing entries' with
  | nil => cases eq
  | cons x rest ih =>
      unfold placeBitmap at eq
      split at eq
      next fits =>
        obtain ⟨rfl, rfl⟩ := Prod.mk.inj (Option.some.inj eq)
        refine ⟨[], x, rest, fits.2, rfl, rfl, rfl, fits.1, List.find?_cons_of_pos ?_⟩
        simp [MemmapEntry.canHold, fits.1, fits.2]
      next unfit =>
        obtain ⟨⟨phys', rest'⟩, placed, pair⟩ := Option.map_eq_some_iff.1 eq
        obtain ⟨rfl, rfl⟩ := Prod.mk.inj pair
        obtain ⟨pre, e, post, le, rfl, rfl, rfl, usable, found⟩ := ih placed
        refine ⟨x :: pre, e, post, le, rfl, rfl, rfl, usable, ?_⟩
        rw [List.find?_cons_of_neg, found]
        simpa [MemmapEntry.canHold] using unfit

/-- Carving keeps entries apart. -/
theorem Apart.carve {pre post : List MemmapEntry} {le : n ≤ e.length}
    (apart : Apart (pre ++ e :: post)) : Apart (pre ++ e.carve n le :: post) := by
  obtain ⟨first, rest, across⟩ := List.pairwise_append.1 apart
  obtain ⟨ofE, last⟩ := List.pairwise_cons.1 rest
  refine List.pairwise_append.2 ⟨first, List.pairwise_cons.2 ⟨fun b mem x both => ?_, last⟩,
    fun a memA b memB x both => ?_⟩
  · exact ofE b mem x ⟨MemmapEntry.holds_carve both.1, both.2⟩
  · rcases List.mem_cons.1 memB with rfl | memB
    · exact across a memA e (List.mem_cons_self ..) x ⟨both.1, MemmapEntry.holds_carve both.2⟩
    · exact across a memA b (List.mem_cons_of_mem _ memB) x both

theorem le_highestAddr (mem : e ∈ entries) : e.base + e.length ≤ highestAddr entries := by
  have step : ∀ (l : List MemmapEntry) (start : Nat),
      start ≤ l.foldl (fun highest e =>
        if highest < e.base + e.length then e.base + e.length else highest) start ∧
      ∀ x ∈ l, x.base + x.length ≤ l.foldl (fun highest e =>
        if highest < e.base + e.length then e.base + e.length else highest) start := by
    intro l
    induction l with
    | nil => exact fun start => ⟨Nat.le_refl _, by simp⟩
    | cons x l ih =>
        intro start
        obtain ⟨le, others⟩ := ih (if start < x.base + x.length then x.base + x.length else start)
        have head : start ≤ (if start < x.base + x.length then x.base + x.length else start) ∧
            x.base + x.length ≤
              (if start < x.base + x.length then x.base + x.length else start) := by
          split <;> omega
        exact ⟨Nat.le_trans head.1 le, List.forall_mem_cons.2 ⟨Nat.le_trans head.2 le, others⟩⟩
  exact (step entries 0).2 e mem

/-! ## The pages of an entry -/

/-- Each page of an entry is derived from an address with a whole page behind it. -/
theorem mem_entryPages :
    page ∈ entryPages e ↔ e.usable = true ∧ ∃ k, k < e.length / pageSize ∧
      page = (e.base + k * pageSize) / pageSize := by
  unfold entryPages
  split
  next usable =>
    simp only [List.mem_map, List.mem_range, usable, true_and]
    exact ⟨fun ⟨k, lt, eq⟩ => ⟨k, lt, eq.symm⟩, fun ⟨k, lt, eq⟩ => ⟨k, lt, eq.symm⟩⟩
  next reserved => simp [reserved]

theorem exists_addr_of_mem (mem : page ∈ entryPages e) :
    ∃ addr, page = addr / pageSize ∧ e.base ≤ addr ∧ addr + pageSize ≤ e.base + e.length := by
  obtain ⟨-, k, lt, rfl⟩ := mem_entryPages.1 mem
  refine ⟨_, rfl, Nat.le_add_right .., ?_⟩
  unfold pageSize at lt ⊢
  omega

theorem nodup_entryPages (e : MemmapEntry) : (entryPages e).Nodup := by
  unfold entryPages
  split
  · refine List.Nodup.map_on (fun j _ k _ same => ?_) List.nodup_range
    unfold pageSize at same
    omega
  · exact List.nodup_nil

/-- Two entries that are apart have no page in common. -/
theorem entryPages_apart {a b : MemmapEntry} (apart : ∀ x, ¬ (a.Holds x ∧ b.Holds x))
    (memA : page ∈ entryPages a) : page ∉ entryPages b := by
  intro memB
  obtain ⟨x, samePage, lowX, highX⟩ := exists_addr_of_mem memA
  obtain ⟨y, samePage', lowY, highY⟩ := exists_addr_of_mem memB
  unfold pageSize at *
  refine apart (max x y) ⟨⟨?_, ?_⟩, ⟨?_, ?_⟩⟩ <;> omega

theorem nodup_pages (apart : Apart entries) : (entries.flatMap entryPages).Nodup := by
  refine List.nodup_flatMap.2 ⟨fun e _ => nodup_entryPages e, ?_⟩
  refine List.Pairwise.imp ?_ apart
  exact fun apart page memA memB => entryPages_apart apart memA memB

theorem page_lt (le : ∀ e ∈ entries', e.base + e.length ≤ highestAddr entries)
    (mem : page ∈ entries'.flatMap entryPages) : page < totalPagesOf entries := by
  obtain ⟨e, memE, memPage⟩ := List.mem_flatMap.1 mem
  obtain ⟨addr, rfl, -, high⟩ := exists_addr_of_mem memPage
  have le := le e memE
  unfold totalPagesOf pageSize at *
  omega

/-! ## The bitmap -/

theorem foldl_markFree_bit (pages : List Nat) (b : Nat) :
    ∀ c : Bytes × Nat,
      getBit (pages.foldl markFree c).1 b = (getBit c.1 b && !decide (b ∈ pages)) := by
  induction pages with
  | nil => simp
  | cons x pages ih =>
      intro c
      rw [List.foldl_cons, ih]
      unfold markFree
      dsimp only
      rw [getBit_clearBit]
      by_cases same : b = x
      · simp [same]
      · simp [same]

theorem foldl_markFree_count (pages : List Nat) :
    ∀ c : Bytes × Nat, (pages.foldl markFree c).2 = c.2 + pages.length := by
  induction pages with
  | nil => simp
  | cons x pages ih =>
      intro c
      rw [List.foldl_cons, ih, List.length_cons]
      unfold markFree
      dsimp only
      omega

/-- Where the set bits are cleared one after the other, as many are clear as there are. -/
theorem clear_markFree {pages : List Nat} {c : Bytes × Nat} (nodup : pages.Nodup)
    (inside : ∀ x ∈ pages, x < n) (set : ∀ b < n, getBit c.1 b = true) :
    BitPool.clear (getBit (pages.foldl markFree c).1) n = pages.length := by
  have bits : ∀ b < n, getBit (pages.foldl markFree c).1 b = !decide (b ∈ pages) := by
    intro b lt
    rw [foldl_markFree_bit, set b lt, Bool.true_and]
  have count : BitPool.clear (fun b => !decide (b ∈ pages)) n = pages.length := by
    unfold BitPool.clear
    rw [Nat.count_eq_card_filter_range, ← List.toFinset_card_of_nodup nodup]
    congr 1
    ext b
    simp only [Finset.mem_filter, Finset.mem_range, List.mem_toFinset, Bool.not_eq_false',
      decide_eq_true_eq]
    exact ⟨fun both => both.2, fun mem => ⟨inside b mem, mem⟩⟩
  rw [← count]
  exact BitPool.clear_congr fun b lt => bits b lt

/-- The memory of the bitmap, all set. -/
def fullBitmap (size : Nat) (mem : Bytes) : Bytes := fun i => if i < size then 0xFF else mem i

theorem fullBitmap_bit (mem : Bytes) {b : Nat} (lt : b < 8 * size) :
    getBit (fullBitmap size mem) b = true := by
  have byte : fullBitmap size mem (b / 8) = 0xFF := if_pos (by omega)
  have bits : ∀ k < 8, (0xFF : UInt8).toNat.testBit k = true := by decide
  rw [getBit, byte]
  exact bits _ (Nat.mod_lt _ (by decide))

/-- What the initialisation leaves: the pages of the entries, but for page 0, are free. -/
structure Initialised (entries entries' : List MemmapEntry) (s : Pmm) : Prop where
  totalPages : s.totalPages = totalPagesOf entries
  bitmapSize : s.bitmapSize = bitmapSizeOf entries
  bits : ∀ b < 8 * s.bitmapSize,
    getBit s.bitmap b = (decide (b = 0) || !decide (b ∈ entries'.flatMap entryPages))
  count : s.freePages =
    (entries'.flatMap entryPages).length - if 0 ∈ entries'.flatMap entryPages then 1 else 0

theorem pmmInit_eq_some (init : pmmInit entries mem = some s) :
    ∃ entries', placeBitmap (bitmapSizeOf entries) entries = some (s.bitmapPhys, entries') ∧
      Initialised entries entries' s := by
  unfold pmmInit at init
  obtain ⟨⟨phys, entries'⟩, placed, eq⟩ := Option.map_eq_some_iff.1 init
  have bits : ∀ b < 8 * bitmapSizeOf entries,
      getBit ((entries'.flatMap entryPages).foldl markFree
        (fullBitmap (bitmapSizeOf entries) mem, 0)).1 b =
          !decide (b ∈ entries'.flatMap entryPages) := by
    intro b lt
    rw [foldl_markFree_bit, fullBitmap_bit mem lt, Bool.true_and]
  have count := foldl_markFree_count (entries'.flatMap entryPages)
    (fullBitmap (bitmapSizeOf entries) mem, 0)
  have first := bits 0 (by unfold bitmapSizeOf; omega)
  dsimp only at eq count
  rw [Nat.zero_add] at count
  by_cases mem0 : 0 ∈ entries'.flatMap entryPages
  · have clear : getBit ((entries'.flatMap entryPages).foldl markFree
        (fullBitmap (bitmapSizeOf entries) mem, 0)).1 0 = false := by
      rw [first, decide_eq_true mem0]
      rfl
    rw [show (fun i => if i < bitmapSizeOf entries then 0xFF else mem i) =
      fullBitmap (bitmapSizeOf entries) mem from rfl, clear, if_neg (by decide)] at eq
    subst eq
    refine ⟨entries', placed, rfl, rfl, fun b lt => ?_, ?_⟩
    · show getBit (setBit _ 0) b = _
      rw [getBit_setBit, bits b lt]
    · show _ - 1 = _
      rw [count, if_pos mem0]
  · have set : getBit ((entries'.flatMap entryPages).foldl markFree
        (fullBitmap (bitmapSizeOf entries) mem, 0)).1 0 = true := by
      rw [first, decide_eq_false mem0]
      rfl
    rw [show (fun i => if i < bitmapSizeOf entries then 0xFF else mem i) =
      fullBitmap (bitmapSizeOf entries) mem from rfl, set, if_pos rfl] at eq
    subst eq
    refine ⟨entries', placed, rfl, rfl, fun b lt => ?_, ?_⟩
    · show getBit _ b = _
      rw [bits b lt]
      by_cases zero : b = 0
      · subst zero
        simp [mem0]
      · simp [zero]
    · show _ = _ - _
      rw [if_neg mem0, Nat.sub_zero]
      exact count

/-- The entries without the bitmap end where the entries do. -/
theorem ends_of_placed (placed : placeBitmap size entries = some (phys, entries')) :
    ∀ x ∈ entries', x.base + x.length ≤ highestAddr entries := by
  obtain ⟨pre, e, post, le, rfl, rfl, -⟩ := placeBitmap_eq_some placed
  intro x mem
  rcases List.mem_append.1 mem with before | mem
  · exact le_highestAddr (List.mem_append_left _ before)
  · rcases List.mem_cons.1 mem with rfl | behind
    · have ofE := le_highestAddr (List.mem_append_right pre (List.mem_cons_self (a := e) (l := post)))
      show e.base + size + (e.length - size) ≤ _
      omega
    · exact le_highestAddr (List.mem_append_right _ (List.mem_cons_of_mem _ behind))

theorem apart_of_placed (apart : Apart entries)
    (placed : placeBitmap size entries = some (phys, entries')) : Apart entries' := by
  obtain ⟨pre, e, post, le, rfl, rfl, -⟩ := placeBitmap_eq_some placed
  exact apart.carve

/-- The initialised allocator keeps its books. -/
theorem pmmOk_of_init (apart : Apart entries) (init : pmmInit entries mem = some s) : PmmOk s := by
  obtain ⟨entries', placed, ok⟩ := pmmInit_eq_some init
  have size : s.bitmapSize = s.totalPages / 8 + 1 := by
    rw [ok.bitmapSize, ok.totalPages, bitmapSizeOf]
  refine ⟨?_, size, ?_⟩
  · rw [ok.bits 0 (by omega)]
    rfl
  · have nodup := nodup_pages (apart_of_placed apart placed)
    have inside : ∀ x ∈ entries'.flatMap entryPages, x < s.totalPages := fun x mem =>
      ok.totalPages ▸ page_lt (ends_of_placed placed) mem
    have others : (entries'.flatMap entryPages).filter (· ≠ 0) =
        (entries'.flatMap entryPages).erase 0 := by
      rw [nodup.erase_eq_filter]
      exact List.filter_congr fun x _ => by by_cases zero : x = 0 <;> simp [zero]
    have count : ((entries'.flatMap entryPages).filter (· ≠ 0)).length = s.freePages := by
      rw [others, List.length_erase, ok.count]
      split
      · rfl
      · rfl
    rw [← count, clearBits, ← clear_markFree (c := (fullBitmap s.bitmapSize mem, 0))
      (nodup.filter _) (fun x mem => inside x (List.mem_filter.1 mem).1)
      (fun b lt => fullBitmap_bit mem (by omega))]
    refine BitPool.clear_congr fun b lt => ?_
    rw [ok.bits b (by omega), foldl_markFree_bit, fullBitmap_bit mem (by omega)]
    by_cases zero : b = 0
    · simp [zero]
    · simp [zero]

/-! ## The allocator after the initialisation -/

/-- After `pmm_init` every call of a run does what is expected, whatever stands behind the
bitmap, and the counter is right at the end.  The entries of a memory map do not overlap:
the boot protocol guarantees it. -/
theorem pmm_right_along_run (apart : Apart entries) (init : pmmInit entries mem = some s)
    (as : List PmmAction) :
    AllSteps pmmStep PmmRight ⟨s, []⟩ as ∧
      (run pmmStep ⟨s, []⟩ as).pmm.freePages = clearBits (run pmmStep ⟨s, []⟩ as).pmm := by
  have start : TracedOk ⟨s, []⟩ := ⟨pmmOk_of_init apart init, by simp⟩
  have reach : Reaches pmmStep ⟨s, []⟩ (run pmmStep ⟨s, []⟩ as) := ⟨as, rfl⟩
  have keep : ∀ x a, TracedOk x → TracedOk (pmmStep x a) := fun _ a ok => ok.step a
  have finish : TracedOk (run pmmStep ⟨s, []⟩ as) := Reaches.invariant keep start reach
  exact ⟨AllSteps.of_kept (fun _ a ok => ok.step a) (fun _ a ok => ok.right a) start as,
    finish.pmm.count⟩

/-! ## The bitmap among the free pages -/

/-- An address in a page. -/
def InPage (page x : Nat) : Prop := page * pageSize ≤ x ∧ x < (page + 1) * pageSize

/-- An address in the bitmap. -/
def Pmm.InBitmap (s : Pmm) (x : Nat) : Prop := s.bitmapPhys ≤ x ∧ x < s.bitmapPhys + s.bitmapSize

/-- A page that is freed has been handed out before. -/
def FreesOwn (x : PmmTraced) (a : PmmAction) : Prop :=
  ∀ addr, a = .free addr → addr / pageSize ∈ x.out

/-- The pages that are marked free are usable and hold nothing of the bitmap, and so do the
pages that any run hands out that frees only what it has been handed. -/
def SafeMarks (entries : List MemmapEntry) (s : Pmm) : Prop :=
  (∀ page, s.IsFree page →
    (∃ e ∈ entries, e.usable = true ∧ ∀ x, InPage page x → e.Holds x) ∧
      ∀ x, InPage page x → ¬ s.InBitmap x) ∧
  ∀ as, AllSteps pmmStep FreesOwn ⟨s, []⟩ as →
    AllSteps pmmStep (fun x a => a = .alloc → ∀ addr, (pmmAllocPage x.pmm).1 = some addr →
      ∀ y, InPage (addr / pageSize) y → ¬ s.InBitmap y) ⟨s, []⟩ as

/-- What a run has got and what it can get has been free at its start. -/
structure Within (s : Pmm) (x : PmmTraced) : Prop where
  ok : TracedOk x
  free : ∀ page, x.pmm.IsFree page → s.IsFree page
  out : ∀ page ∈ x.out, s.IsFree page

theorem alloc_isFree {x : PmmTraced} {addr : Nat} (eq : (pmmAllocPage x.pmm).1 = some addr) :
    x.pmm.IsFree (addr / pageSize) := by
  unfold pmmAllocPage at eq
  split at eq
  · cases eq
  next page found =>
    obtain rfl := Option.some.inj eq
    unfold pageSize
    rw [Nat.mul_div_cancel _ (by decide)]
    exact (searchPage_some found).2

theorem Within.step {x : PmmTraced} (within : Within s x) {a : PmmAction}
    (own : FreesOwn x a) : Within s (pmmStep x a) := by
  refine ⟨within.ok.step a, ?_, ?_⟩
  · intro page free
    cases a with
    | alloc =>
        refine within.free page ?_
        simp only [pmmStep, pmmAllocPage] at free
        split at free
        · exact free
        · obtain ⟨inside, clear⟩ := free
          refine ⟨inside, ?_⟩
          dsimp only at clear
          rw [getBit_setBit, Bool.or_eq_false_iff] at clear
          exact clear.2
    | free addr =>
        by_cases same : page = addr / pageSize
        · exact within.out page (same ▸ own addr rfl)
        · refine within.free page ?_
          simp only [pmmStep, pmmFreePage] at free
          split at free
          · exact free
          split at free
          · obtain ⟨inside, clear⟩ := free
            refine ⟨inside, ?_⟩
            dsimp only at clear
            rw [getBit_clearBit, decide_eq_false same] at clear
            exact clear
          · exact free
    | tail bytes =>
        obtain ⟨inside, clear⟩ := free
        refine within.free page ⟨inside, ?_⟩
        rw [← clear]
        exact (writeTail_bit within.ok.pmm bytes (Nat.lt_succ_of_lt inside)).symm
  · intro page mem
    cases a with
    | alloc =>
        simp only [pmmStep] at mem
        split at mem
        next addr eq =>
          rcases List.mem_cons.1 mem with rfl | old
          · exact within.free _ (alloc_isFree eq)
          · exact within.out page old
        · exact within.out page mem
    | free addr => exact within.out page (List.mem_filter.1 mem).1
    | tail bytes => exact within.out page mem

/-- The condition on the entry that holds the bitmap: the bitmap ends at the end of a page,
no page is left behind it, or it ends in page 0. -/
def BitmapFits (entries : List MemmapEntry) : Prop :=
  ∀ e, entries.find? (MemmapEntry.canHold (bitmapSizeOf entries)) = some e →
    bitmapSizeOf entries % pageSize = 0 ∨ e.length < bitmapSizeOf entries + pageSize ∨
      e.base = 0 ∧ bitmapSizeOf entries < pageSize

/-- A free page of an entry that starts and ends at a page lies in it. -/
theorem page_inside {addr x : Nat} (aligned : e.base % pageSize = 0) (low : e.base ≤ addr)
    (high : addr + pageSize ≤ e.base + e.length) (inPage : InPage (addr / pageSize) x) :
    e.Holds x := by
  obtain ⟨lowPage, highPage⟩ := inPage
  unfold MemmapEntry.Holds
  unfold pageSize at *
  omega

section Placed

variable (apart : Apart entries) (aligned : ∀ e ∈ entries, e.Aligned)
  (placed : placeBitmap size entries = some (phys, entries'))

include apart aligned placed

/-- Every page of the entries lies in a usable entry, and it does not meet the bitmap unless
it is the one the bitmap ends in. -/
theorem page_of_placed (mem : page ∈ entries'.flatMap entryPages) :
    (∃ e ∈ entries, e.usable = true ∧ ∀ x, InPage page x → e.Holds x) ∧
      ((∃ x, InPage page x ∧ phys ≤ x ∧ x < phys + size) →
        page = (phys + size) / pageSize ∧ size % pageSize ≠ 0 ∧
          ∃ e, entries.find? (MemmapEntry.canHold size) = some e ∧ size + pageSize ≤ e.length ∧
            e.base = phys) := by
  obtain ⟨pre, e, post, le, rfl, rfl, rfl, usable, found⟩ := placeBitmap_eq_some placed
  obtain ⟨a, memA, memPage⟩ := List.mem_flatMap.1 mem
  have memE : e ∈ pre ++ e :: post := List.mem_append_right _ (List.mem_cons_self ..)
  obtain ⟨first, rest, across⟩ := List.pairwise_append.1 apart
  obtain ⟨ofE, last⟩ := List.pairwise_cons.1 rest
  -- an entry other than the one that holds the bitmap
  have other : a ∈ pre ++ e :: post → (∀ x, ¬ (a.Holds x ∧ e.Holds x)) →
      (∃ e' ∈ pre ++ e :: post, e'.usable = true ∧ ∀ x, InPage page x → e'.Holds x) ∧
        ¬ ∃ x, InPage page x ∧ e.base ≤ x ∧ x < e.base + size := by
    intro memA apartA
    obtain ⟨addr, rfl, low, high⟩ := exists_addr_of_mem memPage
    have inside : ∀ x, InPage (addr / pageSize) x → a.Holds x :=
      fun x inPage => page_inside (aligned a memA).1 low high inPage
    refine ⟨⟨a, memA, (mem_entryPages.1 memPage).1, inside⟩, ?_⟩
    rintro ⟨x, inPage, lowX, highX⟩
    exact apartA x ⟨inside x inPage, lowX, by omega⟩
  rcases List.mem_append.1 memA with before | memA
  · obtain ⟨usable, clear⟩ := other (List.mem_append_left _ before)
      (across a before e (List.mem_cons_self ..))
    exact ⟨usable, fun meets => absurd meets clear⟩
  · rcases List.mem_cons.1 memA with rfl | behind
    · obtain ⟨-, k, lt, eq⟩ := mem_entryPages.1 memPage
      have base := (aligned e memE).1
      simp only [MemmapEntry.carve] at lt eq
      refine ⟨⟨e, memE, usable, fun x inPage => ?_⟩, ?_⟩
      · rw [eq] at inPage
        refine page_inside base ?_ ?_ inPage
        · omega
        · unfold pageSize at *
          omega
      · rintro ⟨x, ⟨lowPage, highPage⟩, low, high⟩
        unfold pageSize at *
        refine ⟨by omega, by omega, e, found, by omega, rfl⟩
    · obtain ⟨usable, clear⟩ := other
        (List.mem_append_right _ (List.mem_cons_of_mem _ behind))
        (fun x both => ofE a behind x ⟨both.2, both.1⟩)
      exact ⟨usable, fun meets => absurd meets clear⟩

/-- The page that the bitmap ends in is derived, when there is a page behind the bitmap. -/
theorem last_page_of_placed {e : MemmapEntry}
    (found : entries.find? (MemmapEntry.canHold size) = some e)
    (long : size + pageSize ≤ e.length) :
    (phys + size) / pageSize ∈ entries'.flatMap entryPages := by
  obtain ⟨pre, e', post, le, rfl, rfl, rfl, usable, found'⟩ := placeBitmap_eq_some placed
  obtain rfl := Option.some.inj (found.symm.trans found')
  refine List.mem_flatMap.2 ⟨e.carve size le, by simp, mem_entryPages.2 ⟨usable, 0, ?_, ?_⟩⟩
  · show 0 < (e.length - size) / pageSize
    unfold pageSize at *
    omega
  · show _ = (e.base + size + 0 * pageSize) / pageSize
    rw [Nat.zero_mul, Nat.add_zero]

end Placed

/-- The pages that are free afterwards. -/
theorem isFree_iff_of_init
    (placed : placeBitmap (bitmapSizeOf entries) entries = some (phys, entries'))
    (ok : Initialised entries entries' s) (page : Nat) :
    s.IsFree page ↔ page ≠ 0 ∧ page ∈ entries'.flatMap entryPages := by
  have inside : ∀ page ∈ entries'.flatMap entryPages, page < s.totalPages := fun page mem =>
    ok.totalPages ▸ page_lt (ends_of_placed placed) mem
  have holds : ∀ page < s.totalPages, page < 8 * s.bitmapSize := by
    intro page lt
    rw [ok.bitmapSize, bitmapSizeOf, ← ok.totalPages]
    omega
  constructor
  · rintro ⟨lt, clear⟩
    rw [ok.bits page (holds page lt), Bool.or_eq_false_iff] at clear
    exact ⟨by simpa using clear.1, by simpa using clear.2⟩
  · rintro ⟨pos, mem⟩
    refine ⟨inside page mem, ?_⟩
    rw [ok.bits page (holds page (inside page mem)), decide_eq_false pos, decide_eq_true mem]
    rfl

/-- Where the bitmap does not fit, the page it ends in is free. -/
theorem fits_of_safeMarks (apart : Apart entries) (aligned : ∀ e ∈ entries, e.Aligned)
    (init : pmmInit entries mem = some s) (safe : SafeMarks entries s) : BitmapFits entries := by
  obtain ⟨entries', placed, ok⟩ := pmmInit_eq_some init
  have freeIff := isFree_iff_of_init placed ok
  rw [← ok.bitmapSize] at placed
  obtain ⟨marks, -⟩ := safe
  intro e found
  rw [← ok.bitmapSize] at found ⊢
  by_contra unfit
  rw [not_or, not_or, Nat.not_lt, not_and] at unfit
  obtain ⟨uneven, long, low⟩ := unfit
  obtain ⟨-, e', -, -, -, -, base, -, found'⟩ := placeBitmap_eq_some placed
  obtain rfl := Option.some.inj (found.symm.trans found')
  have even := (aligned e (List.mem_of_find?_eq_some found)).1
  have lastMem := last_page_of_placed apart aligned placed found long
  have pos : (s.bitmapPhys + s.bitmapSize) / pageSize ≠ 0 := by
    rw [base]
    unfold pageSize at *
    omega
  have free := (freeIff _).2 ⟨pos, lastMem⟩
  refine (marks _ free).2 (s.bitmapPhys + s.bitmapSize - 1) ?_ ?_
  · unfold InPage
    rw [base] at pos ⊢
    unfold pageSize at *
    omega
  · have size := ok.bitmapSize
    unfold bitmapSizeOf at size
    exact ⟨by omega, by omega⟩

/-- Where it fits, no page of it is free, and none becomes so. -/
theorem safeMarks_of_fits (apart : Apart entries) (aligned : ∀ e ∈ entries, e.Aligned)
    (init : pmmInit entries mem = some s) (fits : BitmapFits entries) : SafeMarks entries s := by
  obtain ⟨entries', placed, ok⟩ := pmmInit_eq_some init
  have freeIff := isFree_iff_of_init placed ok
  rw [← ok.bitmapSize] at placed
  have marks : ∀ page, s.IsFree page →
      (∃ e ∈ entries, e.usable = true ∧ ∀ x, InPage page x → e.Holds x) ∧
        ∀ x, InPage page x → ¬ s.InBitmap x := by
    intro page free
    obtain ⟨pos, mem⟩ := (freeIff page).1 free
    obtain ⟨usable, meets⟩ := page_of_placed apart aligned placed mem
    refine ⟨usable, fun x inPage inBitmap => ?_⟩
    obtain ⟨last, uneven, e, found, long, base⟩ := meets ⟨x, inPage, inBitmap⟩
    have fit := fits e (ok.bitmapSize ▸ found)
    rw [← ok.bitmapSize] at fit
    rcases fit with even | short | ⟨zero, low⟩
    · exact uneven even
    · omega
    · refine pos ?_
      rw [last, ← base, zero, Nat.zero_add]
      exact Nat.div_eq_of_lt low
  refine ⟨marks, fun as own => ?_⟩
  have start : Within s ⟨s, []⟩ :=
    ⟨⟨pmmOk_of_init apart init, by simp⟩, fun _ free => free, by simp⟩
  have keep : ∀ x a, Within s x → FreesOwn x a → Within s (pmmStep x a) :=
    fun _ _ within own => within.step own
  refine AllSteps.of_invariant keep (fun x a within _ _ addr eq y inPage => ?_) start own
  exact (marks _ (within.free _ (alloc_isFree eq))).2 y inPage

/-- What `pmm_init` marks free is safe to hand out just when the bitmap fits. -/
theorem pmm_init_safe_iff (apart : Apart entries) (aligned : ∀ e ∈ entries, e.Aligned)
    (init : pmmInit entries mem = some s) : SafeMarks entries s ↔ BitmapFits entries :=
  ⟨fits_of_safeMarks apart aligned init, safeMarks_of_fits apart aligned init⟩

/-! ## Memory maps -/

/-- A usable entry of a given number of pages at the start of memory. -/
def oneEntry (pages : Nat) (le : pages ≤ 2 ^ 40) : MemmapEntry where
  base := 0
  length := pages * 4096
  usable := true
  fits := by omega

/-- A machine with 1024 pages. -/
def smallMap : List MemmapEntry := [oneEntry 1024 (by decide)]

/-- A machine with 65536 pages, the bitmap of which is larger than two pages. -/
def largeMap : List MemmapEntry := [oneEntry 65536 (by decide)]

theorem exists_pmmInit (entries : List MemmapEntry)
    (placed : (placeBitmap (bitmapSizeOf entries) entries).isSome = true)
    (mem : Bytes) : ∃ s, pmmInit entries mem = some s := by
  obtain ⟨r, eq⟩ := Option.isSome_iff_exists.1 placed
  unfold pmmInit
  dsimp only
  rw [eq]
  exact ⟨_, rfl⟩

theorem oneEntry_aligned (pages : Nat) (le : pages ≤ 2 ^ 40) : (oneEntry pages le).Aligned :=
  ⟨Nat.zero_mod _, Nat.mul_mod_left _ _⟩

theorem pmm_right_along_run_small : ∃ s, pmmInit smallMap (fun _ => 0) = some s ∧
    AllSteps pmmStep PmmRight ⟨s, []⟩ [.alloc, .free 4096, .alloc] ∧
      (run pmmStep ⟨s, []⟩ [.alloc, .free 4096, .alloc]).pmm.freePages =
        clearBits (run pmmStep ⟨s, []⟩ [.alloc, .free 4096, .alloc]).pmm := by
  obtain ⟨s, init⟩ := exists_pmmInit smallMap (by decide) fun _ => 0
  exact ⟨s, init, pmm_right_along_run (List.pairwise_singleton ..) init _⟩

theorem pmm_init_safe_small : ∃ s, pmmInit smallMap (fun _ => 0) = some s ∧
    (SafeMarks smallMap s ↔ BitmapFits smallMap) := by
  obtain ⟨s, init⟩ := exists_pmmInit smallMap (by decide) fun _ => 0
  refine ⟨s, init, pmm_init_safe_iff (List.pairwise_singleton ..) ?_ init⟩
  exact List.forall_mem_singleton.2 (oneEntry_aligned ..)

/-- With 65536 pages the bitmap has 8193 bytes, the last of which is in page 2, and page 2
is free. -/
theorem pmm_init_exposes_bitmap : Apart largeMap ∧ (∀ e ∈ largeMap, e.Aligned) ∧
    ∃ s, pmmInit largeMap (fun _ => 0) = some s ∧ ¬ SafeMarks largeMap s := by
  have apart : Apart largeMap := List.pairwise_singleton ..
  have aligned : ∀ e ∈ largeMap, e.Aligned := List.forall_mem_singleton.2 (oneEntry_aligned ..)
  obtain ⟨s, init⟩ := exists_pmmInit largeMap (by decide) fun _ => 0
  refine ⟨apart, aligned, s, init, fun safe => ?_⟩
  have unfit := fits_of_safeMarks apart aligned init safe (oneEntry 65536 (by decide)) (by decide)
  revert unfit
  decide

end NTux.Mm
