import NTux.Elf.LaunchSafe
import NTux.Elf.Teardown

/-!
# The pages of a launch

A launch that starts takes a page for its root, for each table and for each page of its
range, and teardown of the range frees them all.  A launch that fails once it has its root
frees none.  So pages are conserved just when the launch ends before it has a root, or the
image is one that starts and there are pages for all of it (`launch_conserves_iff`).
-/

namespace NTux.Elf

open NTux.Lib NTux.Lib.Bytes NTux.Mm

/-- After a launch that fails there are as many free pages as before, and after one that
starts and is torn down every page it has taken is freed once.  The reserved ranges are as
before. -/
def LaunchConserves (img : Image) (cur : Nat) (content : Nat → Nat → Entry) (slots : Slots)
    (m : PageMem) : Prop :=
  let (launched, slots', m') := elfLaunchThread img cur content slots m
  slots' = slots ∧
    match launched.root, launched.range with
    | some root, some (start, stop) =>
        (moduleLoaderFreeUserSpace m' root start stop).freed.Perm m'.taken
    | _, _ => m'.taken.length = m'.freed.length

/-- The pages that a range needs: its own, the tables above them and the root. -/
def launchPages (start stop : Nat) : Nat :=
  (rangeNodes (start / pageSize) ((stop - start) / pageSize)).toFinset.card + 1

/-- The image gets no range, or there is no page for a root, or the loader accepts the image
that was moved and there are pages for all of its range. -/
def LaunchPays (img : Image) (slots : Slots) (m : PageMem) : Prop :=
  match (rebaseElfImageInplace img slots).1 with
  | none => True
  | some r => allSome 1 m.answers = false ∨
      r.start < r.stop ∧ (loadElfImage ⟨r.bytes, img.size, img.fits⟩ fun _ => 0).1 ≠ none ∧
        computeUserStackTop r.bytes img.size ≠ none ∧
        allSome (launchPages r.start r.stop) m.answers = true

/-! ## Reserved ranges -/

/-- A slot that was reserved is released. -/
theorem reserve_release {slots slots' : Slots} {start stop i : Nat}
    (eq : reserveUserRangeSlot slots start stop = some (i, slots')) :
    releaseUserRangeSlot slots' i = slots := by
  obtain ⟨j, found, same⟩ := Option.map_eq_some_iff.1 eq
  obtain ⟨rfl, rfl⟩ := Prod.mk.inj same
  obtain ⟨inside, free, -⟩ := List.findIdx?_eq_some_iff_getElem.1 found
  have free : slots[j] = none := of_decide_eq_true free
  unfold releaseUserRangeSlot
  rw [List.set_set, ← free, List.set_getElem_self]

/-- The slots are as before, once the one of the range is released. -/
def SlotsBack (slots : Slots) : Option Rebased × Slots → Prop
  | (none, slots') => slots' = slots
  | (some r, slots') => releaseUserRangeSlot slots' r.slot = slots

theorem rebase_slots (img : Image) (slots : Slots) :
    SlotsBack slots (rebaseElfImageInplace img slots) := by
  unfold rebaseElfImageInplace
  dsimp only
  split
  · exact rfl
  split
  · exact rfl
  split
  · exact rfl
  split
  · split
    · exact rfl
    next reserved => exact reserve_release reserved
  · split
    · exact rfl
    next base slot taken chosen =>
      have back : releaseUserRangeSlot taken slot = slots := by
        unfold chooseDynamicUserBase at chosen
        dsimp only at chosen
        split at chosen
        · obtain ⟨⟨i, s⟩, reserved, same⟩ := Option.map_eq_some_iff.1 chosen
          obtain ⟨-, same⟩ := Prod.mk.inj same
          obtain ⟨rfl, rfl⟩ := Prod.mk.inj same
          exact reserve_release reserved
        · cases chosen
      split
      · exact back
      split
      · exact back
      split
      · exact back
      · exact back

/-! ## Accepted images -/

/-- The segments of an image that was loaded end in the user's half. -/
theorem loadSegments_low {img : Image} {eh : Ehdr} {n o count : Nat} {inSegment : Bool}
    {s s' : LoadState} {r : Nat × Bool}
    (eq : loadSegments img eh n o count inSegment s = (some r, s')) :
    ∀ ph ∈ phdrsFrom img n o, ph.loads = true → ph.vaddr + ph.memsz ≤ userVaddrMax := by
  induction n generalizing o count inSegment s with
  | zero => exact fun ph none => by cases none
  | succ n ih =>
      unfold loadSegments at eq
      dsimp only at eq
      rw [phdrsFrom_succ]
      cases copied : copyLoadSegment (phdrAt img.bytes o) img (s.reads o phdrSize) with
      | mk result t =>
          rw [copied] at eq
          cases result with
          | failed => cases eq
          | skipped =>
              obtain ⟨-, skipped⟩ := copyLoadSegment_skipped copied
              intro ph mem loads
              rcases List.mem_cons.1 mem with rfl | later
              · rw [skipped] at loads
                cases loads
              · exact ih eq ph later loads
          | loaded =>
              obtain ⟨-, user, -⟩ := copyLoadSegment_loaded copied
              intro ph mem loads
              rcases List.mem_cons.1 mem with rfl | later
              · exact user
              · exact ih eq ph later loads

theorem loadElfImage_low {img : Image} {mem : Nat → UInt8}
    (loaded : (loadElfImage img mem).1 ≠ none) :
    ∀ ph ∈ phdrsOf img, ph.loads = true → ph.vaddr + ph.memsz ≤ userVaddrMax := by
  unfold loadElfImage at loaded
  split at loaded
  · exact absurd rfl loaded
  dsimp only at loaded
  split at loaded
  · exact absurd rfl loaded
  split at loaded
  · exact absurd rfl loaded
  split at loaded
  · exact absurd rfl loaded
  next done => exact loadSegments_low done

theorem loadRange_le {l : List Phdr} {start stop a b bound : Nat} {found c : Bool}
    (eq : loadRange l (start, stop, found) = some (a, b, c))
    (low : ∀ ph ∈ l, ph.loads = true → ph.vaddr + ph.memsz ≤ bound) (le : stop ≤ bound) :
    b ≤ bound := by
  induction l generalizing start stop found with
  | nil =>
      cases eq
      exact le
  | cons ph l ih =>
      unfold loadRange at eq
      have rest : ∀ ph ∈ l, ph.loads = true → ph.vaddr + ph.memsz ≤ bound :=
        fun ph mem => low ph (List.mem_cons_of_mem _ mem)
      split at eq
      · exact ih eq rest le
      next loads =>
        rw [not_or] at loads
        have segEnd := low ph (List.mem_cons_self ..) (by
          unfold Phdr.loads
          rw [decide_eq_true (not_not.1 loads.1), decide_eq_true loads.2]
          rfl)
        dsimp only at eq
        split at eq
        · cases eq
        · refine ih eq rest ?_
          unfold wrap64
          split
          · exact (Nat.mod_le ..).trans segEnd
          · exact le

/-- An image with fixed addresses that is loaded has its range below 2 GiB, what is added to
it aside. -/
theorem fixedRange_low {img : Image} {start stop : Nat}
    (eq : fixedRange img = some (start, stop))
    (low : ∀ ph ∈ phdrsOf img, ph.loads = true → ph.vaddr + ph.memsz ≤ userVaddrMax) :
    stop ≤ userVaddrMax + rangeExtraBytes := by
  unfold fixedRange at eq
  split at eq
  · cases eq
  split at eq
  · cases eq
  next rawStart rawEnd extracted =>
    obtain ⟨span, spanned, same⟩ := Option.map_eq_some_iff.1 eq
    obtain ⟨rfl, rfl⟩ := Prod.mk.inj same
    unfold extractElfLoadRangeRaw at extracted
    split at extracted
    · cases extracted
    dsimp only at extracted
    split at extracted
    next first last ranged =>
      split at extracted
      next nonempty =>
        obtain ⟨rfl, rfl⟩ := Prod.mk.inj (Option.some.inj extracted)
        have le := loadRange_le ranged low (Nat.zero_le _)
        unfold imageSpan at spanned
        dsimp only at spanned
        split at spanned
        · cases spanned
        · obtain rfl := Option.some.inj spanned
          unfold userVaddrMax rangeExtraBytes alignUpPage alignDownPage wrap64 pageSize at *
          omega
      · cases extracted
    · cases extracted

/-- The range of an image that is loaded. -/
theorem loaded_low {img : Image} {slots slots' : Slots} {r : Rebased}
    (rebased : rebaseElfImageInplace img slots = (some r, slots'))
    (loaded : (loadElfImage ⟨r.bytes, img.size, img.fits⟩ fun _ => 0).1 ≠ none) :
    r.stop ≤ userVaddrMax + rangeExtraBytes := by
  rcases rebase_range rebased with ⟨fixed, same⟩ | stop
  · rw [same] at loaded
    exact fixedRange_low fixed (loadElfImage_low loaded)
  · exact stop.trans (by decide)

/-! ## Nothing is freed -/

/-- Frames are taken, and none is freed. -/
structure Holds (m m' : PageMem) : Prop where
  taken : ∀ f ∈ m.taken, f ∈ m'.taken
  freed : m'.freed = m.freed

theorem Holds.refl (m : PageMem) : Holds m m := ⟨fun _ mem => mem, rfl⟩

theorem Holds.trans {m m' m'' : PageMem} (first : Holds m m') (second : Holds m' m'') :
    Holds m m'' :=
  ⟨fun f mem => second.taken f (first.taken f mem), second.freed.trans first.freed⟩

theorem alloc_holds (m : PageMem) : Holds m m.alloc.2 := by
  rcases alloc_cases m with ⟨-, -, taken, freed, -⟩ | ⟨f, l, -, eq⟩
  · exact ⟨fun f mem => taken ▸ mem, freed⟩
  · rw [eq]
    exact ⟨fun g mem => List.mem_cons_of_mem _ mem, rfl⟩

theorem ensureEntry_holds (m : PageMem) (t i : Nat) : Holds m (ensureEntry m t i).2 := by
  have called := alloc_holds m
  unfold ensureEntry
  dsimp only
  split
  · exact ⟨fun _ mem => mem, rfl⟩
  split
  next eq =>
    rw [eq] at called
    exact called
  next eq =>
    rw [eq] at called
    exact ⟨called.taken, called.freed⟩

theorem mapUserPagePml4_holds (m : PageMem) (root page : Nat) :
    Holds m (mapUserPagePml4 m root page).2 := by
  unfold mapUserPagePml4
  split
  next eq =>
    have first := ensureEntry_holds m root (tableIndex 3 page)
    rw [eq] at first
    exact first
  next e₁ m₁ eq =>
    have first := ensureEntry_holds m root (tableIndex 3 page)
    rw [eq] at first
    refine first.trans ?_
    have second := ensureEntry_holds m₁ e₁.frame (tableIndex 2 page)
    split
    next eq =>
      rw [eq] at second
      exact second
    next e₂ m₂ eq =>
      rw [eq] at second
      refine second.trans ?_
      have third := ensureEntry_holds m₂ e₂.frame (tableIndex 1 page)
      split
      · exact .refl m₂
      split
      next eq =>
        rw [eq] at third
        exact third
      next e₃ m₃ eq =>
        rw [eq] at third
        refine third.trans ?_
        have fourth := ensureEntry_holds m₃ e₃.frame (tableIndex 0 page)
        split
        · exact .refl m₃
        split
        next eq =>
          rw [eq] at fourth
          exact fourth
        next eq =>
          rw [eq] at fourth
          exact fourth

theorem mapUserPages_holds (m : PageMem) (root page n : Nat) :
    Holds m (mapUserPages m root page n).2 := by
  induction n generalizing m page with
  | zero => exact .refl m
  | succ n ih =>
      have first := mapUserPagePml4_holds m root page
      unfold mapUserPages
      split
      next eq =>
        rw [eq] at first
        exact first
      next m₁ eq =>
        rw [eq] at first
        exact first.trans (ih m₁ (page + 1))

theorem mapUserRangePml4_holds (m : PageMem) (root start stop : Nat) :
    Holds m (mapUserRangePml4 m root start stop).2 := by
  unfold mapUserRangePml4
  split
  · exact .refl m
  · exact mapUserPages_holds m root _ _

theorem copyPages_holds (m : PageMem) (root : Nat) (content : Nat → Nat → Entry)
    (pages : List Nat) : Holds m (copyPages m root content pages) := by
  induction pages generalizing m with
  | nil => exact .refl m
  | cons page l ih =>
      unfold copyPages
      split
      next f _ => exact ⟨(ih (m.fill f (content f))).taken, (ih (m.fill f (content f))).freed⟩
      next => exact ih m

/-! ## The launch -/

/-- A launch behind `clone_kernel_pml4`. -/
theorem elfLaunchThread_behind (content : Nat → Nat → Entry) {img : Image} {cur root : Nat}
    {slots slots' : Slots} {r : Rebased} {m m₁ : PageMem}
    (rebased : rebaseElfImageInplace img slots = (some r, slots'))
    (cloned : cloneKernelPml4 m cur = (some root, m₁)) :
    elfLaunchThread img cur content slots m =
      (⟨some root,
        if (mapUserRangePml4 m₁ root r.start r.stop).1 = true ∧
            (loadElfImage ⟨r.bytes, img.size, img.fits⟩ fun _ => 0).1 ≠ none ∧
            computeUserStackTop r.bytes img.size ≠ none then
          some (r.start, r.stop)
        else none⟩, releaseUserRangeSlot slots' r.slot,
        if (mapUserRangePml4 m₁ root r.start r.stop).1 = true then
          copyPages (mapUserRangePml4 m₁ root r.start r.stop).2 root content
            ((loadElfImage ⟨r.bytes, img.size, img.fits⟩ fun _ => 0).2.log.flatMap Access.pages)
        else (mapUserRangePml4 m₁ root r.start r.stop).2) := by
  unfold elfLaunchThread
  rw [rebased]
  dsimp only
  rw [cloned]
  dsimp only
  cases mapUserRangePml4 m₁ root r.start r.stop with
  | mk ok m₂ =>
      cases ok with
      | false => rfl
      | true =>
          dsimp only
          split
          next unloaded =>
            rw [if_neg fun all => all.2.1 unloaded]
            rfl
          next loaded =>
            split
            next noStack =>
              rw [if_neg fun all => all.2.2 noStack]
              rfl
            next stack =>
              rw [if_pos ⟨rfl, loaded, stack⟩]
              rfl

/-- A root takes the first answer. -/
theorem cloneKernelPml4_cases {cur : Nat} {m : PageMem} (promised : Promised cur m) :
    (allSome 1 m.answers = false ∧ ∃ m₁, cloneKernelPml4 m cur = (none, m₁) ∧ m₁.taken = [] ∧
        m₁.freed = []) ∨
      ∃ root m₁, cloneKernelPml4 m cur = (some root, m₁) ∧ m₁.taken = [root] ∧ m₁.freed = [] ∧
        m.answers = some root :: m₁.answers := by
  obtain ⟨tables, answers, taken, freed⟩ := m
  obtain rfl : taken = [] := promised.taken
  obtain rfl : freed = [] := promised.freed
  cases answers with
  | nil => exact .inl ⟨rfl, _, rfl, rfl, rfl⟩
  | cons a l =>
      cases a with
      | none => exact .inl ⟨rfl, _, rfl, rfl, rfl⟩
      | some root => exact .inr ⟨root, _, rfl, rfl, rfl, rfl⟩

/-- The nodes of a range are tables and pages on the way to its pages. -/
theorem mem_rangeNodes {page n : Nat} {q : List Nat} (mem : q ∈ rangeNodes page n) :
    ∃ p, page ≤ p ∧ p < page + n ∧ ∃ d, q = tablePath p (d + 1) := by
  obtain ⟨p, inRange, node⟩ := List.mem_flatMap.1 mem
  obtain ⟨lower, upper⟩ := List.mem_range'_1.1 inRange
  refine ⟨p, lower, upper, ?_⟩
  unfold pageNodes at node
  simp only [List.mem_cons, List.not_mem_nil, or_false] at node
  rcases node with rfl | rfl | rfl | rfl
  · exact ⟨0, rfl⟩
  · exact ⟨1, rfl⟩
  · exact ⟨2, rfl⟩
  · exact ⟨3, rfl⟩

theorem rootNode_of_ne {root : Nat} {q : List Nat} (ne : q ≠ []) : rootNode root q = none :=
  Function.update_of_ne ne _ _

/-- A range costs all its nodes where there is a root only. -/
theorem lacking_rootNode (root page n : Nat) :
    lacking (rootNode root) (rangeNodes page n) = (rangeNodes page n).toFinset.card := by
  unfold lacking
  rw [Finset.filter_true_of_mem]
  intro q mem
  obtain ⟨p, -, -, d, rfl⟩ := mem_rangeNodes (List.mem_toFinset.1 mem)
  exact rootNode_of_ne (List.cons_ne_nil _ _)

/-- A range that is mapped in a tree with a root only, and what the tree is then. -/
theorem mapUserRangePml4_root {root start stop : Nat} {m : PageMem}
    (tree : TableTree (· = 0) root (rootNode root) m) (range : start < stop)
    (low : stop ≤ userVaddrMax + rangeExtraBytes) :
    ∃ node, Extends (· = 0) root (rootNode root) m
      (rangeNodes (start / pageSize) ((stop - start) / pageSize))
      (rangeNodes (start / pageSize) ((stop - start) / pageSize)).toFinset.card
      (mapUserRangePml4 m root start stop).1 node (mapUserRangePml4 m root start stop).2 := by
  unfold mapUserRangePml4
  rw [if_neg (Nat.not_le.2 range), ← lacking_rootNode root]
  refine mapUserPages_spec _ _ tree fun page lower upper => tableIndex_low ?_
  unfold userVaddrMax rangeExtraBytes at low
  unfold pageSize at lower upper
  omega

/-- Teardown of a launch that has started. -/
theorem teardown_launched {root start stop : Nat} {m m' : PageMem} {node : List Nat → Option Nat}
    (ext : Extends (· = 0) root (rootNode root) m
      (rangeNodes (start / pageSize) ((stop - start) / pageSize))
      (rangeNodes (start / pageSize) ((stop - start) / pageSize)).toFinset.card true node m')
    (content : Nat → Nat → Entry) {pages : List Nat} (user : ∀ page ∈ pages, page < 2 ^ 19)
    (nonzero : root ≠ 0) (range : start < stop) (low : stop ≤ userVaddrMax + rangeExtraBytes) :
    (moduleLoaderFreeUserSpace (copyPages m' root content pages) root start stop).freed.Perm
      (copyPages m' root content pages).taken := by
  have copied := copyPages_spec ext.tree content fun page mem =>
    tableIndex_low ((user page mem).trans (by decide))
  -- every node but the root is on the way to a page of the range
  have only : ∀ q, q ≠ [] → node q ≠ none → ∃ p, start / pageSize ≤ p ∧
      p < start / pageSize + (stop - start) / pageSize ∧ ∃ d, q = tablePath p (d + 1) := by
    intro q ne there
    by_cases mem : q ∈ rangeNodes (start / pageSize) ((stop - start) / pageSize)
    · exact mem_rangeNodes mem
    · rw [ext.only q mem, rootNode_of_ne ne] at there
      exact absurd rfl there
  have index : ∀ i q, node (i :: q) ≠ none → i < 512 ∧ (q = [] → i = 0) := by
    intro i q there
    obtain ⟨p, lower, upper, d, same⟩ := only (i :: q) (List.cons_ne_nil i q) there
    obtain ⟨rfl, rfl⟩ := List.cons.inj same
    refine ⟨Nat.mod_lt _ (by decide), fun empty => ?_⟩
    have length := tablePath_length p d
    rw [empty] at length
    obtain rfl : d = 0 := length.symm
    refine tableIndex_low ?_
    unfold userVaddrMax rangeExtraBytes at low
    unfold pageSize at lower upper
    omega
  refine (moduleLoaderFreeUserSpace_spec copied.1 rfl nonzero range ?_ (fun i q wide => ?_)
    (fun q deep there => ?_) fun i other => ?_).1
  · refine low.trans ?_
    decide
  · by_contra there
    exact absurd (index i q there).1 (Nat.not_lt.2 wide)
  · obtain ⟨p, lower, upper, d, rfl⟩ := only q (by
      rintro rfl
      cases deep) there
    rw [tablePath_length] at deep
    obtain rfl : d = 3 := Nat.succ.inj deep
    exact ⟨p, lower, upper, rfl⟩
  · by_contra there
    exact other ((index i [] there).2 rfl)

/-- A launch conserves pages just when it ends before it has a root, or the image is one that
starts and there are pages for all of it. -/
theorem launch_conserves_iff (img : Image) (cur : Nat) (content : Nat → Nat → Entry)
    (slots : Slots) (m : PageMem) (promised : Promised cur m) :
    LaunchConserves img cur content slots m ↔ LaunchPays img slots m := by
  have back := rebase_slots img slots
  cases rebased : rebaseElfImageInplace img slots with
  | mk result slots' =>
    rw [rebased] at back
    cases result with
    | none =>
      unfold LaunchConserves LaunchPays elfLaunchThread
      rw [rebased]
      refine ⟨fun _ => trivial, fun _ => ⟨back, ?_⟩⟩
      show m.taken.length = m.freed.length
      rw [promised.taken, promised.freed]
    | some r =>
      have back : releaseUserRangeSlot slots' r.slot = slots := back
      unfold LaunchConserves LaunchPays
      rw [rebased]
      dsimp only
      rcases cloneKernelPml4_cases promised with
        ⟨refused, m₁, cloned, taken, freed⟩ | ⟨root, m₁, cloned, taken, freed, answers⟩
      · unfold elfLaunchThread
        rw [rebased]
        dsimp only
        rw [cloned]
        refine ⟨fun _ => .inl refused, fun _ => ⟨back, ?_⟩⟩
        show m₁.taken.length = m₁.freed.length
        rw [taken, freed]
      · rw [elfLaunchThread_behind content rebased cloned]
        dsimp only
        have tree := (cloneKernelPml4_spec (· = 0) promised cloned fun i zero above => by
          obtain rfl : i = 0 := zero
          cases above).1
        have paid : ∀ n, allSome (n + 1) m.answers = allSome n m₁.answers := fun n => by
          rw [answers]
          rfl
        constructor
        · rintro ⟨-, conserves⟩
          split at conserves
          next start stop root' range' same started =>
            split at started
            next ok =>
              obtain ⟨mapped, loaded, stack⟩ := ok
              have range : r.start < r.stop := by
                by_contra empty
                unfold mapUserRangePml4 at mapped
                rw [if_pos (Nat.not_lt.1 empty)] at mapped
                cases mapped
              obtain ⟨node, ext⟩ := mapUserRangePml4_root tree range (loaded_low rebased loaded)
              refine .inr ⟨range, loaded, stack, ?_⟩
              rw [mapped] at ext
              unfold launchPages
              rw [paid, ← ext.paid]
            next => cases started
          next =>
            -- the root is taken, and nothing is freed
            have holds : Holds m₁ (if (mapUserRangePml4 m₁ root r.start r.stop).1 = true then
                copyPages (mapUserRangePml4 m₁ root r.start r.stop).2 root content
                  ((loadElfImage ⟨r.bytes, img.size, img.fits⟩ fun _ => 0).2.log.flatMap
                    Access.pages)
                else (mapUserRangePml4 m₁ root r.start r.stop).2) := by
              have mapped := mapUserRangePml4_holds m₁ root r.start r.stop
              split
              · exact mapped.trans (copyPages_holds _ root content _)
              · exact mapped
            rw [holds.freed, freed] at conserves
            have mem := holds.taken root (taken ▸ List.mem_singleton_self root)
            rw [List.eq_nil_of_length_eq_zero conserves] at mem
            cases mem
        · rintro (refused | ⟨range, loaded, stack, enough⟩)
          · rw [answers] at refused
            cases refused
          · refine ⟨back, ?_⟩
            have low := loaded_low rebased loaded
            obtain ⟨node, ext⟩ := mapUserRangePml4_root tree range low
            have mapped : (mapUserRangePml4 m₁ root r.start r.stop).1 = true := by
              rw [ext.paid, ← paid]
              exact enough
            rw [mapped] at ext
            rw [if_pos ⟨mapped, loaded, stack⟩, if_pos mapped]
            have nonzero : root ≠ 0 := by
              rintro rfl
              refine promised.nonzero ?_
              rw [answers]
              exact List.mem_cons_self ..
            exact teardown_launched ext content
              (loadedPages_low ⟨r.bytes, img.size, img.fits⟩ fun _ => 0) nonzero range low

/-- Where there is no page at all, nothing is lost. -/
theorem launch_conserves_none :
    LaunchConserves (onePageImage 0x400000) 0 (fun _ _ => .zero) [none] (emptyMem 0) := by
  refine (launch_conserves_iff _ 0 _ [none] (emptyMem 0) (emptyMem_promised 0)).2 ?_
  have fixed : fixedRange (onePageImage 0x400000) = some (0x400000, 0x2412000) := by
    decide +kernel
  unfold LaunchPays
  rw [rebase_fixed fixed]
  exact .inl rfl

/-- Where there is one page, the root takes it and keeps it. -/
theorem launch_leaks :
    ¬ LaunchConserves (onePageImage 0x400000) 0 (fun _ _ => .zero) [none] (emptyMem 1) := by
  have range : (elfLaunchThread (onePageImage 0x400000) 0 (fun _ _ => .zero) [none]
    (emptyMem 1)).1.range = none := by decide +kernel
  have taken : (elfLaunchThread (onePageImage 0x400000) 0 (fun _ _ => .zero) [none]
    (emptyMem 1)).2.2.taken = [1] := by decide +kernel
  have freed : (elfLaunchThread (onePageImage 0x400000) 0 (fun _ _ => .zero) [none]
    (emptyMem 1)).2.2.freed = [] := by decide +kernel
  unfold LaunchConserves
  generalize elfLaunchThread (onePageImage 0x400000) 0 (fun _ _ => .zero) [none]
    (emptyMem 1) = r at range taken freed ⊢
  obtain ⟨⟨root, range'⟩, slots', m'⟩ := r
  obtain rfl : range' = none := range
  rintro ⟨-, conserves⟩
  have same : m'.taken.length = m'.freed.length := by
    cases root with
    | none => exact conserves
    | some root => exact conserves
  rw [show m'.taken = [1] from taken, show m'.freed = [] from freed] at same
  cases same

end NTux.Elf
