import NTux.Elf.Loader
import NTux.Mm.Kmalloc
import Mathlib.Logic.Function.Basic

/-!
# Page tables of a launch

`clone_kernel_pml4`, `map_user_page_pml4`, `map_user_range_pml4` and
`module_loader_free_user_space` of `elf/module_loader.c`, over memory in which every page
frame may be read as a table of 512 entries.

What `pmm_alloc_page` answers is a list: each call takes the next answer, a frame or none.
The frames that were handed out and the ones that were given back are noted.
-/

namespace NTux.Elf

open NTux.Mm

/-- An entry of a table: the address, by the number of its frame, the flags, and the bits
that nothing here reads. -/
structure Entry where
  frame : Nat
  present : Bool
  writable : Bool
  user : Bool
  huge : Bool
  other : Nat
  deriving DecidableEq

namespace Entry

/-- An entry of a table of zeroes. -/
def zero : Entry := ⟨0, false, false, false, false, 0⟩

/-- `phys | PAGE_PRESENT | PAGE_WRITABLE | PAGE_USER`. -/
def fresh (frame : Nat) : Entry := ⟨frame, true, true, true, false, 0⟩

/-- `e | PAGE_USER | PAGE_WRITABLE`. -/
def marked (e : Entry) : Entry := { e with writable := true, user := true }

@[simp] theorem fresh_marked (frame : Nat) : (fresh frame).marked = fresh frame := rfl

end Entry

/-- Physical memory as tables, what the allocator answers from now on, and the frames it
has handed out and been given back. -/
structure PageMem where
  tables : Nat → Nat → Entry
  answers : List (Option Nat)
  taken : List Nat
  freed : List Nat

namespace PageMem

/-- `pmm_alloc_page`. -/
def alloc (m : PageMem) : Option Nat × PageMem :=
  match m.answers with
  | [] => (none, m)
  | none :: l => (none, { m with answers := l })
  | some f :: l => (some f, { m with answers := l, taken := f :: m.taken })

/-- `pmm_free_page`. -/
def free (m : PageMem) (f : Nat) : PageMem := { m with freed := f :: m.freed }

/-- A store to an entry. -/
def set (m : PageMem) (t i : Nat) (e : Entry) : PageMem :=
  { m with tables := Function.update m.tables t (Function.update (m.tables t) i e) }

/-- A store to a whole frame. -/
def fill (m : PageMem) (f : Nat) (page : Nat → Entry) : PageMem :=
  { m with tables := Function.update m.tables f page }

end PageMem

/-- The index of a page, given by its number, at a level of the tables, 3 for the root. -/
def tableIndex (level page : Nat) : Nat := page / 512 ^ level % 512

/-- `clone_kernel_pml4`, the root `cur` being loaded. -/
def cloneKernelPml4 (m : PageMem) (cur : Nat) : Option Nat × PageMem :=
  match m.alloc with
  | (none, m) => (none, m)
  | (some f, m) =>
      let m := m.fill f fun _ => .zero
      (some f, m.fill f fun i => if 256 ≤ i ∧ i < 512 then m.tables cur i else m.tables f i)

/-- What `map_user_page_pml4` does at each level: the entry it goes on with. -/
def ensureEntry (m : PageMem) (table i : Nat) : Option Entry × PageMem :=
  let e := m.tables table i
  if e.present then (some e, m.set table i e.marked)
  else
    match m.alloc with
    | (none, m) => (none, m)
    | (some f, m) => (some (.fresh f), (m.fill f fun _ => .zero).set table i (.fresh f))

/-- `map_user_page_pml4`. -/
def mapUserPagePml4 (m : PageMem) (root page : Nat) : Bool × PageMem :=
  match ensureEntry m root (tableIndex 3 page) with
  | (none, m) => (false, m)
  | (some e, m) =>
      match ensureEntry m e.frame (tableIndex 2 page) with
      | (none, m) => (false, m)
      | (some e, m) =>
          if e.huge then (true, m)
          else
            match ensureEntry m e.frame (tableIndex 1 page) with
            | (none, m) => (false, m)
            | (some e, m) =>
                if e.huge then (true, m)
                else
                  match ensureEntry m e.frame (tableIndex 0 page) with
                  | (none, m) => (false, m)
                  | (some _, m) => (true, m)

/-- The loop of `map_user_range_pml4`, over `n` pages. -/
def mapUserPages (m : PageMem) (root : Nat) : Nat → Nat → Bool × PageMem
  | _, 0 => (true, m)
  | page, n + 1 =>
      match mapUserPagePml4 m root page with
      | (false, m) => (false, m)
      | (true, m) => mapUserPages m root (page + 1) n

/-- `map_user_range_pml4`; the addresses are whole pages. -/
def mapUserRangePml4 (m : PageMem) (root start stop : Nat) : Bool × PageMem :=
  if stop ≤ start then (false, m)
  else mapUserPages m root (start / pageSize) ((stop - start) / pageSize)

/-- The frame that a page is mapped to. -/
def userPageFrame (m : PageMem) (root page : Nat) : Option Nat :=
  let e := m.tables root (tableIndex 3 page)
  if !e.present then none
  else
    let e := m.tables e.frame (tableIndex 2 page)
    if !e.present then none
    else
      let e := m.tables e.frame (tableIndex 1 page)
      if !e.present then none
      else
        let e := m.tables e.frame (tableIndex 0 page)
        if !e.present then none else some e.frame

/-- Stores to pages of the address space; `content` is what a frame holds then.  A page
that is not mapped faults, and nothing is stored. -/
def copyPages (m : PageMem) (root : Nat) (content : Nat → Nat → Entry) : List Nat → PageMem
  | [] => m
  | page :: l =>
      match userPageFrame m root page with
      | some f => copyPages (m.fill f (content f)) root content l
      | none => copyPages m root content l

/-! ## Teardown -/

/-- The loop over the pages of the range: the data pages are freed. -/
def freeUserPages (m : PageMem) (root : Nat) : Nat → Nat → PageMem
  | _, 0 => m
  | page, n + 1 =>
      let e := m.tables root (tableIndex 3 page)
      let m :=
        if e.present then
          let e := m.tables e.frame (tableIndex 2 page)
          if e.present ∧ !e.huge then
            let e := m.tables e.frame (tableIndex 1 page)
            if e.present ∧ !e.huge then
              let pt := e.frame
              let e := m.tables pt (tableIndex 0 page)
              if e.present then
                (if e.user then m.free e.frame else m).set pt (tableIndex 0 page) .zero
              else m
            else m
          else m
        else m
      freeUserPages m root (page + 1) n

/-- `table_has_present`. -/
def tableHasPresent (m : PageMem) (t : Nat) : Bool :=
  (List.range 512).any fun i => (m.tables t i).present

/-- A loop over the entries of a table that frees what `below` leaves empty: whether it
leaves none in use. -/
def sweepTable (below : PageMem → Nat → Bool × PageMem) (t : Nat) :
    List Nat → PageMem → Bool × PageMem
  | [], m => (true, m)
  | i :: l, m =>
      let e := m.tables t i
      if !e.present then sweepTable below t l m
      else if e.huge then (false, (sweepTable below t l m).2)
      else
        match below m e.frame with
        | (true, m) => sweepTable below t l ((m.free e.frame).set t i .zero)
        | (false, m) => (false, (sweepTable below t l m).2)

/-- A table of the last level. -/
def sweepPt (m : PageMem) (pt : Nat) : Bool × PageMem := (!tableHasPresent m pt, m)

/-- The loop over a page directory. -/
def sweepPd (m : PageMem) (pd : Nat) : Bool × PageMem :=
  match sweepTable sweepPt pd (List.range 512) m with
  | (empty, m) => (empty && !tableHasPresent m pd, m)

/-- The loop over a page-directory-pointer table. -/
def sweepPdpt (m : PageMem) (pdpt : Nat) : Bool × PageMem :=
  match sweepTable sweepPd pdpt (List.range 512) m with
  | (empty, m) => (empty && !tableHasPresent m pdpt, m)

/-- An entry of the root, at which no huge flag is looked at. -/
def sweepRootEntry (root : Nat) (m : PageMem) (i : Nat) : PageMem :=
  let e := m.tables root i
  if !e.present then m
  else
    match sweepPdpt m e.frame with
    | (true, m) => (m.free e.frame).set root i .zero
    | (false, m) => m

/-- The loop over the entries of the root. -/
def sweepRoot (root : Nat) (is : List Nat) (m : PageMem) : PageMem :=
  is.foldl (sweepRootEntry root) m

/-- `module_loader_free_user_space`; the addresses are whole pages. -/
def moduleLoaderFreeUserSpace (m : PageMem) (root start stop : Nat) : PageMem :=
  if root = 0 ∨ stop ≤ start then m
  else
    let m := freeUserPages m root (start / pageSize) ((stop - start) / pageSize)
    let first := tableIndex 3 (start / pageSize)
    let last := tableIndex 3 ((stop - 1) / pageSize)
    (sweepRoot root (List.range' first (last + 1 - first)) m).free root

end NTux.Elf
