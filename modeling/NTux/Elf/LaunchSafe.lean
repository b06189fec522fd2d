import NTux.Elf.Launch
import NTux.Elf.MapTree

/-!
# What a launch exposes

The root of a launch shares the tables of the upper half with the kernel's.  A range that
stays below it is mapped by tables and pages of the launch's own, whatever fails
(`elfLaunchThread_unexposed`).  An image that can be moved gets such a range
(`rebase_range`), but one with fixed addresses names its range itself, and nothing is
checked before it is mapped (`launch_unexposed_iff`).
-/

namespace NTux.Elf

open NTux.Lib NTux.Lib.Bytes NTux.Mm

/-- What the allocator promises: the frames it will hand out are pages, all different, and
the root that is loaded is not among them. -/
structure Promised (cur : Nat) (m : PageMem) : Prop where
  once : (m.answers.filterMap id).Nodup
  nonzero : 0 ∉ m.answers.filterMap id
  other : cur ∉ m.answers.filterMap id
  taken : m.taken = []
  freed : m.freed = []

/-- A launch changes no frame but those it takes, its root has the kernel's entries in the
upper half, and the pages below that are mapped are its own. -/
structure Unexposed (cur : Nat) (m : PageMem) (launched : Launched) (m' : PageMem) : Prop where
  others : ∀ f, f ∉ m'.taken → m'.tables f = m.tables f
  upper : ∀ root ∈ launched.root, ∀ i, 256 ≤ i → i < 512 → m'.tables root i = m.tables cur i
  pages : ∀ root ∈ launched.root, ∀ page, tableIndex 3 page < 256 →
    ∀ f ∈ userPageFrame m' root page, f ∈ m'.taken

/-- Whatever the kernel's tables are and the allocator answers, a launch of the image
exposes nothing. -/
def LaunchUnexposed (img : Image) : Prop :=
  ∀ cur content slots m, Promised cur m →
    Unexposed cur m (elfLaunchThread img cur content slots m).1
      (elfLaunchThread img cur content slots m).2.2

/-- The range of an image with fixed addresses. -/
def fixedRange (img : Image) : Option (Nat × Nat) :=
  if !tableReadable img.bytes img.size ∨ (ehdrOf img.bytes).type ≠ 2 then none
  else
    match extractElfLoadRangeRaw img.bytes img.size with
    | none => none
    | some (start, stop) => (imageSpan start stop).map fun span =>
        (alignDownPage start, wrap64 (alignDownPage start + span))

/-- An image with fixed addresses names no page of the upper half. -/
def StaysLow (img : Image) : Prop :=
  ∀ range ∈ fixedRange img, ∀ page, range.1 / pageSize ≤ page → page < range.2 / pageSize →
    tableIndex 3 page < 256

/-! ## Ranges -/

/-- An image is loaded as it is at its fixed addresses, or below the end of the user's. -/
theorem rebase_range {img : Image} {slots slots' : Slots} {r : Rebased}
    (eq : rebaseElfImageInplace img slots = (some r, slots')) :
    (fixedRange img = some (r.start, r.stop) ∧ r.bytes = img.bytes) ∨ r.stop ≤ aslrMax := by
  unfold rebaseElfImageInplace at eq
  dsimp only at eq
  split at eq
  · cases eq
  next readable =>
    split at eq
    · cases eq
    next rawStart rawEnd extracted =>
      split at eq
      · cases eq
      next span spanned =>
        split at eq
        next fixed =>
          split at eq
          · cases eq
          · obtain ⟨same, -⟩ := Prod.mk.inj eq
            obtain rfl := Option.some.inj same
            refine .inl ⟨?_, rfl⟩
            unfold fixedRange
            rw [if_neg (not_or.2 ⟨readable, not_not.2 fixed⟩), extracted]
            dsimp only
            rw [spanned]
            rfl
        next =>
          right
          split at eq
          · cases eq
          next base slot taken chosen =>
            unfold chooseDynamicUserBase at chosen
            dsimp only at chosen
            split at chosen
            next room =>
              obtain ⟨⟨i, s⟩, -, same⟩ := Option.map_eq_some_iff.1 chosen
              obtain ⟨rfl, -⟩ := Prod.mk.inj same
              -- the span is whole pages, and no larger than what was compared
              have stop : wrap64 (alignDownPage aslrMin + span) ≤ aslrMax := by
                have whole : alignUpPage span = span := by
                  unfold imageSpan at spanned
                  dsimp only at spanned
                  split at spanned
                  · cases spanned
                  · obtain rfl := Option.some.inj spanned
                    unfold alignUpPage alignDownPage wrap64 rangeExtraBytes pageSize at *
                    omega
                rw [whole] at room
                exact room
              split at eq
              · obtain ⟨same, -⟩ := Prod.mk.inj eq
                obtain rfl := Option.some.inj same
                exact stop
              · split at eq
                · cases eq
                · split at eq
                  · cases eq
                  · obtain ⟨same, -⟩ := Prod.mk.inj eq
                    obtain rfl := Option.some.inj same
                    exact stop
            · cases chosen

/-- With a free slot an image is loaded at its fixed addresses. -/
theorem rebase_fixed {img : Image} {start stop : Nat} (eq : fixedRange img = some (start, stop)) :
    rebaseElfImageInplace img [none] =
      (some ⟨start, stop, 0, img.bytes⟩, [some (start, stop)]) := by
  unfold fixedRange at eq
  split at eq
  · cases eq
  next readable =>
    rw [not_or] at readable
    split at eq
    · cases eq
    next rawStart rawEnd extracted =>
      obtain ⟨span, spanned, same⟩ := Option.map_eq_some_iff.1 eq
      obtain ⟨rfl, rfl⟩ := Prod.mk.inj same
      unfold rebaseElfImageInplace
      dsimp only
      rw [if_neg readable.1, extracted]
      dsimp only
      rw [spanned]
      dsimp only
      rw [if_pos (not_not.1 readable.2)]
      rfl

/-- A fixed range starts at a page. -/
theorem fixedRange_aligned {img : Image} {start stop : Nat}
    (eq : fixedRange img = some (start, stop)) : start % pageSize = 0 := by
  unfold fixedRange at eq
  split at eq
  · cases eq
  · split at eq
    · cases eq
    · obtain ⟨span, -, same⟩ := Option.map_eq_some_iff.1 eq
      obtain ⟨rfl, -⟩ := Prod.mk.inj same
      exact Nat.mul_mod_left ..

theorem tableIndex_low {page : Nat} (low : page < 2 ^ 27) : tableIndex 3 page = 0 := by
  unfold tableIndex
  omega

/-! ## The tree of a launch -/

/-- The tree that is a root only. -/
def rootNode (root : Nat) : List Nat → Option Nat := Function.update (fun _ => none) [] (some root)

/-- `clone_kernel_pml4` makes a root: its entries in `own` lead nowhere. -/
theorem cloneKernelPml4_spec (own : Nat → Prop) {cur root : Nat} {m m' : PageMem}
    (promised : Promised cur m) (eq : cloneKernelPml4 m cur = (some root, m'))
    (empty : ∀ i, own i → 256 ≤ i → i < 512 → m.tables cur i = .zero) :
    TableTree own root (rootNode root) m' ∧ m'.taken = [root] ∧ m'.freed = [] ∧
      (∀ f, f ≠ root → m'.tables f = m.tables f) ∧
      (∀ i, 256 ≤ i → i < 512 → m'.tables root i = m.tables cur i) ∧
      m.answers = some root :: m'.answers := by
  unfold cloneKernelPml4 at eq
  rcases alloc_cases m with ⟨refused, -⟩ | ⟨f, l, answers, called⟩
  · cases called : m.alloc with
    | mk r m₁ =>
        rw [called] at refused eq
        obtain rfl : r = none := refused
        cases eq
  · rw [called] at eq
    dsimp only at eq
    obtain ⟨same, rfl⟩ := Prod.mk.inj eq
    obtain rfl := Option.some.inj same
    have other := promised.other
    have once := promised.once
    rw [answers] at other once
    have ne : cur ≠ f := fun same => other (same ▸ List.mem_cons_self ..)
    have atRoot : ∀ i, 256 ≤ i → i < 512 →
        (Function.update (Function.update m.tables f fun _ => Entry.zero) f
          (fun i => if 256 ≤ i ∧ i < 512 then
            Function.update m.tables f (fun _ => Entry.zero) cur i
          else Function.update m.tables f (fun _ => Entry.zero) f i)) f i = m.tables cur i := by
      intro i lower upper
      rw [Function.update_self, if_pos ⟨lower, upper⟩, Function.update_of_ne ne]
    have only : ∀ p g, rootNode f p = some g → p = [] ∧ g = f := by
      intro p g eqP
      unfold rootNode at eqP
      rcases eq_or_ne p [] with rfl | away
      · rw [Function.update_self] at eqP
        exact ⟨rfl, (Option.some.inj eqP).symm⟩
      · rw [Function.update_of_ne away] at eqP
        cases eqP
    have noChild : ∀ i p, rootNode f (i :: p) = none := fun i p =>
      Function.update_of_ne (List.cons_ne_nil i p) _ _
    refine ⟨⟨Function.update_self .., fun p q g eqP eqQ => ?_, fun i p _ => noChild i p,
      fun p g eqP => ?_, fun p t i _ eqP mine => ?_, fun g => ?_, ?_, ?_, ?_⟩, ?_, promised.freed,
      fun g away => ?_, atRoot, answers⟩
    · rw [(only p g eqP).1, (only q g eqQ).1]
    · rw [(only p g eqP).1]
      decide
    · obtain ⟨rfl, rfl⟩ := only p t eqP
      rw [noChild]
      by_cases upper : 256 ≤ i ∧ i < 512
      · exact (atRoot i upper.1 upper.2).trans (empty i (mine rfl) upper.1 upper.2)
      · show (Function.update (Function.update m.tables t fun _ => Entry.zero) t
          (fun i => if 256 ≤ i ∧ i < 512 then
            Function.update m.tables t (fun _ => Entry.zero) cur i
          else Function.update m.tables t (fun _ => Entry.zero) t i)) t i = _
        rw [Function.update_self, if_neg upper, Function.update_self]
        rfl
    · show g ∈ f :: m.taken ↔ g ∈ m.freed ∨ _
      rw [promised.taken, promised.freed, List.mem_singleton]
      constructor
      · rintro rfl
        exact .inr ⟨[], Function.update_self ..⟩
      · rintro (none | ⟨p, eqP⟩)
        · cases none
        · exact (only p g eqP).2
    · show (f :: m.taken ++ l.filterMap id).Nodup
      rw [promised.taken]
      exact once
    · show m.freed.Nodup
      rw [promised.freed]
      exact List.nodup_nil
    · show ∀ g ∈ m.freed, _
      rw [promised.freed]
      exact fun g mem => absurd mem List.not_mem_nil
    · show f :: m.taken = [f]
      rw [promised.taken]
    · show Function.update (Function.update m.tables f _) f _ g = m.tables g
      rw [Function.update_of_ne away, Function.update_of_ne away]

/-- The pages that the loader stores to lie in the user's half. -/
theorem loadedPages_low (img : Image) (mem : Nat → UInt8) :
    ∀ page ∈ (loadElfImage img mem).2.log.flatMap Access.pages, page < 2 ^ 19 := by
  intro page inPages
  obtain ⟨access, inLog, inAccess⟩ := List.mem_flatMap.1 inPages
  have confined := (elf_load_exact img mem).1 access inLog
  cases access with
  | read offset len => cases inAccess
  | write addr len =>
      have confined : addr + len ≤ userVaddrMax := confined
      unfold Access.pages at inAccess
      dsimp only at inAccess
      split at inAccess
      · cases inAccess
      · obtain ⟨lower, upper⟩ := List.mem_range'_1.1 inAccess
        unfold userVaddrMax at confined
        unfold pageSize at lower upper
        omega

/-! ## Launches -/

/-- The launch behind `clone_kernel_pml4`: the range is mapped, and the image copied. -/
theorem elfLaunchThread_tree (content : Nat → Nat → Entry) {img : Image} {cur root : Nat}
    {slots slots' : Slots} {r : Rebased} {m m₁ : PageMem} {own : Nat → Prop}
    {node : List Nat → Option Nat}
    (rebased : rebaseElfImageInplace img slots = (some r, slots'))
    (cloned : cloneKernelPml4 m cur = (some root, m₁)) (tree : TableTree own root node m₁)
    (low : own 0)
    (mine : ∀ page, r.start / pageSize ≤ page → page < r.stop / pageSize →
      own (tableIndex 3 page)) :
    (elfLaunchThread img cur content slots m).1.root = some root ∧
      ∃ node', TableTree own root node' (elfLaunchThread img cur content slots m).2.2 ∧
        Grows own root m₁ (elfLaunchThread img cur content slots m).2.2 ∧
        ((mapUserRangePml4 m₁ root r.start r.stop).1 = true → ∀ page, r.start / pageSize ≤ page →
          page < r.start / pageSize + (r.stop - r.start) / pageSize →
          ∀ q ∈ pageNodes page, node' q ≠ none) := by
  have mapped : ∃ node', TableTree own root node' (mapUserRangePml4 m₁ root r.start r.stop).2 ∧
      Grows own root m₁ (mapUserRangePml4 m₁ root r.start r.stop).2 ∧
      ((mapUserRangePml4 m₁ root r.start r.stop).1 = true → ∀ page, r.start / pageSize ≤ page →
        page < r.start / pageSize + (r.stop - r.start) / pageSize →
        ∀ q ∈ pageNodes page, node' q ≠ none) := by
    unfold mapUserRangePml4
    split
    · exact ⟨node, tree, .refl _, fun no => absurd no Bool.false_ne_true⟩
    · obtain ⟨node', ext⟩ := mapUserPages_spec
        (r.start / pageSize) ((r.stop - r.start) / pageSize) tree
        fun page lower upper => mine page lower (by
          unfold pageSize at *
          omega)
      refine ⟨node', ext.tree, ext.grows, fun yes page lower upper q mem => ?_⟩
      exact ext.reached yes q
        (List.mem_flatMap.2 ⟨page, List.mem_range'_1.2 ⟨lower, upper⟩, mem⟩)
  obtain ⟨node', tree', grows', reached⟩ := mapped
  unfold elfLaunchThread
  rw [rebased]
  dsimp only
  rw [cloned]
  dsimp only
  cases map : mapUserRangePml4 m₁ root r.start r.stop with
  | mk ok m₂ =>
      rw [map] at tree' grows' reached
      cases ok with
      | false => exact ⟨rfl, node', tree', grows', reached⟩
      | true =>
          dsimp only
          have copied := copyPages_spec tree' content (fun page mem => by
            have below := loadedPages_low ⟨r.bytes, img.size, img.fits⟩ (fun _ => 0) page mem
            rw [tableIndex_low (below.trans (by decide))]
            exact low)
          obtain ⟨tree₃, grows₃⟩ := copied
          split
          · exact ⟨rfl, node', tree₃, grows'.trans grows₃, reached⟩
          split
          · exact ⟨rfl, node', tree₃, grows'.trans grows₃, reached⟩
          · exact ⟨rfl, node', tree₃, grows'.trans grows₃, reached⟩

/-- A launch that stays low exposes nothing. -/
theorem elfLaunchThread_unexposed {img : Image} (low : StaysLow img) : LaunchUnexposed img := by
  intro cur content slots m promised
  cases rebased : rebaseElfImageInplace img slots with
  | mk result slots' =>
      cases result with
      | none =>
          unfold elfLaunchThread
          rw [rebased]
          exact ⟨fun _ _ => rfl, fun root none => (by cases none), fun root none => by cases none⟩
      | some r =>
          cases cloned : cloneKernelPml4 m cur with
          | mk result m₁ =>
              cases result with
              | none =>
                  unfold elfLaunchThread
                  rw [rebased]
                  dsimp only
                  rw [cloned]
                  have same : m₁.tables = m.tables := by
                    unfold cloneKernelPml4 at cloned
                    rcases alloc_cases m with ⟨-, tables, -⟩ | ⟨f, l, -, called⟩
                    · cases called : m.alloc with
                      | mk f m₂ =>
                          rw [called] at cloned tables
                          cases f with
                          | none => exact (Prod.mk.inj cloned).2 ▸ tables
                          | some f => cases cloned
                    · rw [called] at cloned
                      cases cloned
                  exact ⟨fun f _ => congrFun same f, fun root none => (by cases none),
                    fun root none => by cases none⟩
              | some root =>
                  obtain ⟨tree, taken, -, others, upper, -⟩ :=
                    cloneKernelPml4_spec (· < 256) promised cloned
                      fun i mine above => absurd mine (Nat.not_lt.2 above)
                  have mine : ∀ page, r.start / pageSize ≤ page → page < r.stop / pageSize →
                      tableIndex 3 page < 256 := by
                    intro page lower below
                    rcases rebase_range rebased with ⟨fixed, -⟩ | stop
                    · exact low _ fixed page lower below
                    · rw [tableIndex_low (by
                        unfold aslrMax at stop
                        unfold pageSize at below
                        omega)]
                      decide
                  obtain ⟨atRoot, node', tree', grows, -⟩ := elfLaunchThread_tree
                    content rebased cloned tree (by decide) mine
                  refine ⟨fun f off => ?_, fun root' same i above below => ?_,
                    fun root' same page lower f walked => ?_⟩
                  · rw [grows.others f off]
                    refine others f fun same => off (grows.taken f ?_)
                    rw [taken, same]
                    exact List.mem_singleton_self root
                  · rw [atRoot] at same
                    obtain rfl := Option.some.inj same
                    rw [grows.upper i (Nat.not_lt.2 above)]
                    exact upper i above below
                  · rw [atRoot] at same
                    obtain rfl := Option.some.inj same
                    rw [userPageFrame_spec tree' lower] at walked
                    exact tree'.mem_taken walked

theorem allSome_of_all {l : List (Option Nat)} (all : ∀ a ∈ l, a.isSome = true) {n : Nat}
    (enough : n ≤ l.length) : allSome n l = true := by
  induction n generalizing l with
  | zero => rfl
  | succ n ih =>
      cases l with
      | nil => exact absurd enough (by simp)
      | cons a l =>
          obtain ⟨f, rfl⟩ := Option.isSome_iff_exists.1 (all a (List.mem_cons_self ..))
          exact ih (fun b mem => all b (List.mem_cons_of_mem _ mem)) (Nat.le_of_succ_le_succ enough)

/-- Memory of zeroes, and frames from 1 on. -/
def emptyMem (n : Nat) : PageMem where
  tables _ _ := .zero
  answers := (List.range' 1 n).map some
  taken := []
  freed := []

theorem emptyMem_promised (n : Nat) : Promised 0 (emptyMem n) := by
  have frames : (emptyMem n).answers.filterMap id = List.range' 1 n := by
    unfold emptyMem
    rw [List.filterMap_map]
    exact List.filterMap_some
  refine ⟨?_, ?_, ?_, rfl, rfl⟩
  · rw [frames]
    exact List.nodup_range'
  · rw [frames]
    exact fun mem => absurd (List.mem_range'_1.1 mem).1 (by decide)
  · rw [frames]
    exact fun mem => absurd (List.mem_range'_1.1 mem).1 (by decide)

/-- An image that names a page of the upper half gets an entry there. -/
theorem staysLow_of_unexposed {img : Image} (safe : LaunchUnexposed img) : StaysLow img := by
  rintro ⟨start, stop⟩ fixed page lower upper
  by_contra high
  have launch := safe 0 (fun _ _ => .zero) [none] (emptyMem (4 * ((stop - start) / pageSize) + 1))
    (emptyMem_promised _)
  have rebased := rebase_fixed fixed
  cases cloned : cloneKernelPml4 (emptyMem (4 * ((stop - start) / pageSize) + 1)) 0 with
  | mk result m₁ =>
      obtain ⟨root, rfl⟩ : ∃ root, result = some root := by
        unfold cloneKernelPml4 at cloned
        exact ⟨_, (Prod.mk.inj cloned).1.symm⟩
      obtain ⟨tree, -, -, -, -, answers⟩ := cloneKernelPml4_spec (fun _ => True)
        (emptyMem_promised _) cloned fun _ _ _ _ => rfl
      obtain ⟨atRoot, node', tree', -, reached⟩ := elfLaunchThread_tree
        (fun _ _ => .zero) rebased cloned tree trivial fun _ _ _ => trivial
      -- there are frames for every page
      have mapped : (mapUserRangePml4 m₁ root start stop).1 = true := by
        have some : start < stop := by
          unfold pageSize at lower upper
          omega
        unfold mapUserRangePml4
        rw [if_neg (Nat.not_le.2 some)]
        obtain ⟨node₂, ext⟩ := mapUserPages_spec (start / pageSize)
          ((stop - start) / pageSize) tree fun _ _ _ => trivial
        rw [ext.paid]
        have bound := lacking_rangeNodes_le (rootNode root) (start / pageSize)
          ((stop - start) / pageSize)
        have length := congrArg List.length answers
        unfold emptyMem at length
        rw [List.length_map, List.length_range', List.length_cons] at length
        refine allSome_of_all (fun a mem => ?_) (by omega)
        have inAll : a ∈ (emptyMem (4 * ((stop - start) / pageSize) + 1)).answers :=
          answers ▸ List.mem_cons_of_mem _ mem
        obtain ⟨f, -, rfl⟩ := List.mem_map.1 inAll
        rfl
      have inRange : page < start / pageSize + (stop - start) / pageSize := by
        have aligned := fixedRange_aligned fixed
        unfold pageSize at aligned upper ⊢
        omega
      have there := reached mapped page lower inRange (tablePath page 1) (List.mem_cons_self ..)
      obtain ⟨f, eq⟩ := Option.ne_none_iff_exists'.1 there
      have entry := tree'.entry [] root (tableIndex 3 page) (by decide) tree'.top fun _ => trivial
      rw [show node' [tableIndex 3 page] = some f from eq] at entry
      have same := launch.upper root atRoot (tableIndex 3 page) (Nat.not_lt.1 high)
        (Nat.mod_lt _ (by decide))
      rw [entry] at same
      have used : (Entry.fresh f).present = Entry.zero.present := congrArg Entry.present same
      exact absurd used.symm Bool.false_ne_true

/-- Launches of an image expose nothing just when it does not have fixed addresses that
name a page of the upper half. -/
theorem launch_unexposed_iff (img : Image) : LaunchUnexposed img ↔ StaysLow img :=
  ⟨staysLow_of_unexposed, elfLaunchThread_unexposed⟩

/-- An image with fixed addresses and one segment, a page. -/
def onePageImage (vaddr : Nat) : Image where
  bytes := wr64 (wr64 (wr32 (wr16 (wr16 (wr64 (wr16 (fun _ => 0) 16 2) 32 64) 54 56) 56 1) 64
    ptLoad) 80 vaddr) 104 0x1000
  size := 120
  fits := by decide

/-- An image that starts with the upper half has user entries made there. -/
theorem launch_exposed : ¬ LaunchUnexposed (onePageImage 0x800000000000) := fun safe => by
  have low := staysLow_of_unexposed safe (0x800000000000, 0x800002012000) (by decide +kernel)
    0x800000000 (by decide) (by decide)
  exact absurd low (by decide)

end NTux.Elf
