import NTux.Elf.LoaderExact
import NTux.Elf.PageTables

/-!
# Launching an image

`elf_launch_thread` of `elf/module_loader.c`, up to the record of the new address space in
the thread: the image is moved to a free range of user addresses, a root is made for it,
the range is mapped and the segments are loaded.

`rebase_elf_image_inplace` writes into the image it reads, so the headers may change while
it goes through them.
-/

namespace NTux.Elf

open NTux.Lib NTux.Lib.Bytes NTux.Mm

/-- `uint64_t` arithmetic. -/
def wrap64 (x : Nat) : Nat := x % 2 ^ 64

/-- `align_up_u64` to a page. -/
def alignUpPage (v : Nat) : Nat := wrap64 (v + 0xFFF) / pageSize * pageSize

/-- `align_down_u64` to a page. -/
def alignDownPage (v : Nat) : Nat := v / pageSize * pageSize

/-- Write a 64-bit field. -/
def wr64 (p : Bytes) (o v : Nat) : Bytes := wr32 (wr32 p o (v % 2 ^ 32)) (o + 4) (v / 2 ^ 32)

/-- The guard page, `NTUX_USER_STACK_PAGES` and `NTUX_USER_HEAP_EXTRA_BYTES`. -/
def rangeExtraBytes : Nat := 0x1000 + 16 * 0x1000 + 32 * 1024 * 1024

/-- `NTUX_USER_ASLR_MIN`. -/
def aslrMin : Nat := 0x160000

/-- `NTUX_USER_ASLR_MAX`. -/
def aslrMax : Nat := 0x80000000

/-! ## The range of an image -/

/-- The checks that `extract_elf_load_range_raw` and `rebase_elf_image_inplace` make of the
table of program headers. -/
def tableReadable (p : Bytes) (size : Nat) : Bool :=
  let eh := ehdrOf p
  ehdrSize ≤ size && eh.phnum ≠ 0 && eh.phentsize = phdrSize && eh.phoff ≤ size &&
    wrap64 (eh.phoff + eh.phnum * eh.phentsize) ≤ size

/-- The loop of `extract_elf_load_range_raw`: the lowest and the highest address so far, and
whether there is a segment. -/
def loadRange : List Phdr → Nat × Nat × Bool → Option (Nat × Nat × Bool)
  | [], r => some r
  | ph :: l, (start, stop, found) =>
      if ph.type ≠ ptLoad ∨ ph.memsz = 0 then loadRange l (start, stop, found)
      else
        let segEnd := wrap64 (ph.vaddr + ph.memsz)
        if segEnd < ph.vaddr then none
        else
          loadRange l (if ph.vaddr < start then ph.vaddr else start,
            if stop < segEnd then segEnd else stop, true)

/-- `extract_elf_load_range_raw`. -/
def extractElfLoadRangeRaw (p : Bytes) (size : Nat) : Option (Nat × Nat) :=
  if !tableReadable p size then none
  else
    let eh := ehdrOf p
    let phs := (List.range eh.phnum).map fun i => phdrAt p (eh.phoff + i * phdrSize)
    match loadRange phs (2 ^ 64 - 1, 0, false) with
    | some (start, stop, true) =>
        if alignDownPage start < alignUpPage stop then
          some (alignDownPage start, alignUpPage stop)
        else none
    | _ => none

/-- `compute_user_stack_top`. -/
def computeUserStackTop (p : Bytes) (size : Nat) : Option Nat :=
  match extractElfLoadRangeRaw p size with
  | none => none
  | some (start, stop) =>
      let stop := if stop ≤ 2 ^ 64 - 1 - rangeExtraBytes then stop + rangeExtraBytes else stop
      if stop < wrap64 (start + 0x1000 + 0x10) then none
      else some (wrap64 (stop / 16 * 16 + 2 ^ 64 - 8))

/-! ## Reserved ranges -/

/-- `g_user_resv`: the ranges that are in use. -/
abbrev Slots := List (Option (Nat × Nat))

/-- `reserve_user_range_slot`. -/
def reserveUserRangeSlot (slots : Slots) (start stop : Nat) : Option (Nat × Slots) :=
  (slots.findIdx? (· = none)).map fun i => (i, slots.set i (some (start, stop)))

/-- `release_user_range_slot`. -/
def releaseUserRangeSlot (slots : Slots) (i : Nat) : Slots := slots.set i none

/-- `choose_dynamic_user_base`: the walk over the bases ends at the first one, which is
reserved, or for which there is no slot or no room. -/
def chooseDynamicUserBase (slots : Slots) (span : Nat) : Option (Nat × Nat × Slots) :=
  let span := alignUpPage span
  if wrap64 (aslrMin + span) ≤ aslrMax then
    (reserveUserRangeSlot slots aslrMin (wrap64 (aslrMin + span))).map fun (i, slots) =>
      (aslrMin, i, slots)
  else none

/-- The loop of `rebase_elf_image_inplace` over the headers from the `i`th on; `phnum` is
read again each time.  There are fewer headers than steps. -/
def rebasePhdrs (phoff delta : Nat) : Nat → Nat → Bytes → Option Bytes
  | 0, _, p => some p
  | steps + 1, i, p =>
      if (ehdrOf p).phnum ≤ i then some p
      else
        let o := phoff + i * phdrSize
        let ph := phdrAt p o
        if ph.type ≠ ptLoad ∨ ph.memsz = 0 then rebasePhdrs phoff delta steps (i + 1) p
        else if 2 ^ 64 - 1 - delta < ph.vaddr then none
        else if 2 ^ 64 - 1 - delta < rd64 p (o + 24) then none
        else
          let p := wr64 p (o + 16) (ph.vaddr + delta)
          rebasePhdrs phoff delta steps (i + 1)
            (wr64 p (o + 24) (wrap64 (rd64 p (o + 24) + delta)))

/-- What `rebase_elf_image_inplace` leaves: the range, the slot and the image. -/
structure Rebased where
  start : Nat
  stop : Nat
  slot : Nat
  bytes : Bytes

/-- The bytes a range takes with what is added to it. -/
def imageSpan (start stop : Nat) : Option Nat :=
  let span := alignUpPage stop - alignDownPage start
  if 2 ^ 64 - 1 - rangeExtraBytes < span then none else some (span + rangeExtraBytes)

/-- `rebase_elf_image_inplace`. -/
def rebaseElfImageInplace (img : Image) (slots : Slots) : Option Rebased × Slots :=
  let p := img.bytes
  if !tableReadable p img.size then (none, slots)
  else
    match extractElfLoadRangeRaw p img.size with
    | none => (none, slots)
    | some (rawStart, rawEnd) =>
        match imageSpan rawStart rawEnd with
        | none => (none, slots)
        | some span =>
            if (ehdrOf p).type = 2 then
              let start := alignDownPage rawStart
              match reserveUserRangeSlot slots start (wrap64 (start + span)) with
              | none => (none, slots)
              | some (slot, slots) => (some ⟨start, wrap64 (start + span), slot, p⟩, slots)
            else
              match chooseDynamicUserBase slots span with
              | none => (none, slots)
              | some (base, slot, slots) =>
                  let stop := wrap64 (alignDownPage base + span)
                  if base = rawStart then (some ⟨rawStart, stop, slot, p⟩, slots)
                  else
                    let delta := wrap64 (base + 2 ^ 64 - rawStart)
                    if 2 ^ 64 - 1 - delta < (ehdrOf p).entry then
                      (none, releaseUserRangeSlot slots slot)
                    else
                      let p := wr64 p 24 ((ehdrOf p).entry + delta)
                      match rebasePhdrs (ehdrOf p).phoff delta 65536 0 p with
                      | none => (none, releaseUserRangeSlot slots slot)
                      | some p => (some ⟨alignDownPage base, stop, slot, p⟩, slots)

/-! ## The launch -/

/-- The pages that a store meets. -/
def Access.pages : Access → List Nat
  | .read _ _ => []
  | .write addr len =>
      if len = 0 then []
      else List.range' (addr / pageSize) ((addr + len - 1) / pageSize + 1 - addr / pageSize)

/-- What a launch leaves: the root it has made, and the range of a thread that starts. -/
structure Launched where
  root : Option Nat
  range : Option (Nat × Nat)

/-- `elf_launch_thread`, the root `cur` being loaded; `content` is what a frame holds once
the image has been copied to it. -/
def elfLaunchThread (img : Image) (cur : Nat) (content : Nat → Nat → Entry) (slots : Slots)
    (m : PageMem) : Launched × Slots × PageMem :=
  match rebaseElfImageInplace img slots with
  | (none, slots) => (⟨none, none⟩, slots, m)
  | (some r, slots) =>
      match cloneKernelPml4 m cur with
      | (none, m) => (⟨none, none⟩, releaseUserRangeSlot slots r.slot, m)
      | (some root, m) =>
          match mapUserRangePml4 m root r.start r.stop with
          | (false, m) => (⟨root, none⟩, releaseUserRangeSlot slots r.slot, m)
          | (true, m) =>
              -- what the address space held before does not matter to the loader
              let loaded := loadElfImage ⟨r.bytes, img.size, img.fits⟩ fun _ => 0
              let m := copyPages m root content (loaded.2.log.flatMap Access.pages)
              if loaded.1 = none then (⟨root, none⟩, releaseUserRangeSlot slots r.slot, m)
              else if computeUserStackTop r.bytes img.size = none then
                (⟨root, none⟩, releaseUserRangeSlot slots r.slot, m)
              else (⟨root, some (r.start, r.stop)⟩, releaseUserRangeSlot slots r.slot, m)

end NTux.Elf
