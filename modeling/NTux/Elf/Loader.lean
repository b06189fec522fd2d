import NTux.Lib.Bytes

/-!
# Loading ELF images

`load_elf_image` of `elf/elf.c`: the header and the table of program headers are checked,
and the segments of type `PT_LOAD` are copied to their addresses in table order.

The image lies in the kernel's half of the address space, the segments in the user's, so a
copy never changes the image.  Every access is logged: reads of the image, by offset, and
writes to the address space.
-/

namespace NTux.Elf

open NTux.Lib NTux.Lib.Bytes

/-- An image: its bytes and how many there are, a `size_t`. -/
structure Image where
  bytes : Bytes
  size : Nat
  fits : size < 2 ^ 64

/-! ## The headers -/

/-- `sizeof(Elf64_Ehdr)`. -/
def ehdrSize : Nat := 64

/-- `sizeof(Elf64_Phdr)`. -/
def phdrSize : Nat := 56

/-- The fields of `Elf64_Ehdr` that the loader reads. -/
structure Ehdr where
  ident : List UInt8
  type : Nat
  machine : Nat
  version : Nat
  entry : Nat
  phoff : Nat
  ehsize : Nat
  phentsize : Nat
  phnum : Nat

/-- The fields of `Elf64_Phdr` that the loader reads. -/
structure Phdr where
  type : Nat
  offset : Nat
  vaddr : Nat
  filesz : Nat
  memsz : Nat
  deriving DecidableEq

/-- The header of an image. -/
def ehdrOf (p : Bytes) : Ehdr :=
  ⟨slice p 0 6, rd16 p 16, rd16 p 18, rd32 p 20, rd64 p 24, rd64 p 32, rd16 p 52, rd16 p 54,
    rd16 p 56⟩

/-- The program header at an offset. -/
def phdrAt (p : Bytes) (o : Nat) : Phdr :=
  ⟨rd32 p o, rd64 p (o + 8), rd64 p (o + 16), rd64 p (o + 32), rd64 p (o + 40)⟩

/-- `ELF_PT_LOAD`. -/
def ptLoad : Nat := 1

/-- `ELF_MAX_PHNUM`. -/
def maxPhnum : Nat := 128

/-- `NTUX_USER_VADDR_MAX`. -/
def userVaddrMax : Nat := 0x80000000

/-- `is_valid_elf`. -/
def isValidElf (eh : Ehdr) : Bool :=
  eh.ident = [0x7f, 69, 76, 70, 2, 1] && eh.version = 1 && eh.machine = 0x3e &&
    (eh.type = 2 || eh.type = 3)

/-- `range_add_overflow_u64`. -/
def rangeAdd (base len : Nat) : Option Nat :=
  if 2 ^ 64 - 1 - base < len then none else some (base + len)

/-- `validate_phdr_table`. -/
def validatePhdrTable (eh : Ehdr) (elfSize : Nat) : Bool :=
  if eh.ehsize < ehdrSize then false
  else if eh.phentsize ≠ phdrSize then false
  else if eh.phnum = 0 ∨ maxPhnum < eh.phnum then false
  else if elfSize < eh.phoff then false
  else
    match rangeAdd eh.phoff (eh.phnum * eh.phentsize) with
    | none => false
    | some tableEnd => tableEnd ≤ elfSize

/-! ## Copying -/

/-- An access to the image, or to the address space. -/
inductive Access
  | read (offset len : Nat)
  | write (addr len : Nat)
  deriving DecidableEq

/-- The address space, and the accesses so far. -/
structure LoadState where
  mem : Nat → UInt8
  log : List Access

/-- A read of the image. -/
def LoadState.reads (s : LoadState) (offset len : Nat) : LoadState :=
  { s with log := s.log ++ [.read offset len] }

/-- `memcpy` from the image. -/
def memcpy (img : Image) (s : LoadState) (dest offset len : Nat) : LoadState :=
  ⟨fun a => if dest ≤ a ∧ a < dest + len then img.bytes (offset + (a - dest)) else s.mem a,
    s.log ++ [.read offset len, .write dest len]⟩

/-- `memset` with 0. -/
def memset0 (s : LoadState) (dest len : Nat) : LoadState :=
  ⟨fun a => if dest ≤ a ∧ a < dest + len then 0 else s.mem a, s.log ++ [.write dest len]⟩

/-- What `copy_load_segment` returns: below 0, 0, or above. -/
inductive SegmentResult
  | failed
  | skipped
  | loaded
  deriving DecidableEq

/-- `copy_load_segment`. -/
def copyLoadSegment (ph : Phdr) (img : Image) (s : LoadState) : SegmentResult × LoadState :=
  if ph.type ≠ ptLoad then (.skipped, s)
  else if ph.memsz < ph.filesz then (.failed, s)
  else
    match rangeAdd ph.offset ph.filesz with
    | none => (.failed, s)
    | some srcEnd =>
        if img.size < srcEnd then (.failed, s)
        else if ph.memsz = 0 then (.skipped, s)
        else
          match rangeAdd ph.vaddr ph.memsz with
          | none => (.failed, s)
          | some segEnd =>
              if userVaddrMax ≤ ph.vaddr ∨ userVaddrMax < segEnd then (.failed, s)
              else
                let s := memcpy img s ph.vaddr ph.offset ph.filesz
                (.loaded,
                  if ph.filesz < ph.memsz then
                    memset0 s (ph.vaddr + ph.filesz) (ph.memsz - ph.filesz)
                  else s)

/-- The loop over the program headers, `n` of which are left, the next one at `o`: whether
it runs to its end, how many segments were loaded, and whether the entry lies in one. -/
def loadSegments (img : Image) (eh : Ehdr) :
    Nat → Nat → Nat → Bool → LoadState → Option (Nat × Bool) × LoadState
  | 0, _, count, inSegment, s => (some (count, inSegment), s)
  | n + 1, o, count, inSegment, s =>
      let ph := phdrAt img.bytes o
      match copyLoadSegment ph img (s.reads o phdrSize) with
      | (.failed, s) => (none, s)
      | (.skipped, s) => loadSegments img eh n (o + phdrSize) count inSegment s
      | (.loaded, s) =>
          loadSegments img eh n (o + phdrSize) (count + 1)
            (if ph.vaddr ≤ eh.entry ∧ eh.entry < (ph.vaddr + ph.memsz) % 2 ^ 64 then true
              else inSegment) s

/-- `load_elf_image`: the entry, where it succeeds. -/
def loadElfImage (img : Image) (mem : Nat → UInt8) : Option Nat × LoadState :=
  if img.size < ehdrSize then (none, ⟨mem, []⟩)
  else
    let s : LoadState := LoadState.reads ⟨mem, []⟩ 0 ehdrSize
    let eh := ehdrOf img.bytes
    if !isValidElf eh then (none, s)
    else if !validatePhdrTable eh img.size then (none, s)
    else
      match loadSegments img eh eh.phnum eh.phoff 0 false s with
      | (none, s) => (none, s)
      | (some (count, inSegment), s) =>
          if count = 0 ∨ !inSegment then (none, s) else (some eh.entry, s)

/-! ## What a loaded image is -/

/-- The program headers of an image, in table order. -/
def phdrsOf (img : Image) : List Phdr :=
  (List.range (ehdrOf img.bytes).phnum).map fun i =>
    phdrAt img.bytes ((ehdrOf img.bytes).phoff + i * phdrSize)

/-- A segment that takes up memory. -/
def Phdr.loads (ph : Phdr) : Bool := ph.type = ptLoad && ph.memsz ≠ 0

/-- An address in a segment. -/
def Phdr.covers (ph : Phdr) (a : Nat) : Bool := ph.vaddr ≤ a && a < ph.vaddr + ph.memsz

/-- The byte that a segment has at an address: one of the file, or a zero behind them. -/
def Phdr.byteAt (ph : Phdr) (img : Image) (a : Nat) : UInt8 :=
  if a < ph.vaddr + ph.filesz then img.bytes (ph.offset + (a - ph.vaddr)) else 0

/-- The address space that an image describes: every address has the byte of the last
segment of the table that covers it, or the one it had. -/
def specMemory (img : Image) (mem : Nat → UInt8) (a : Nat) : UInt8 :=
  match (phdrsOf img).reverse.find? fun ph => ph.loads && ph.covers a with
  | some ph => ph.byteAt img a
  | none => mem a

/-- An access that stays inside the image, or below the end of the user's half. -/
def Access.Confined (img : Image) : Access → Prop
  | .read offset len => offset + len ≤ img.size
  | .write addr len => addr + len ≤ userVaddrMax

end NTux.Elf
