import NTux.Ext.FileClear

/-!
# Directories

A directory of `ext2.c` is a list of records in each of its twelve direct blocks.  The
functions here find, add and remove an entry: `ext2_dir_find`, `ext2_dir_find_slot`,
`ext2_dir_add_entry` and `ext2_dir_remove_entry`.  They all walk along the records by
`rec_len`, the first one with a `size_t` offset and the others with one of 16 bits.
-/

namespace NTux.Ext

open NTux.Lib NTux.Lib.Bytes

/-- The fields of `ext2_dir_entry_t`; the bytes of the name of an unused record are not
looked at. -/
structure DirEntry where
  inode : Nat
  recLen : Nat
  nameLen : Nat
  fileType : UInt8
  name : List UInt8

/-- The record at an offset of a block. -/
def dirEntryAt (buf : Bytes) (off : Nat) : DirEntry where
  inode := rd32 buf off
  recLen := rd16 buf (off + 4)
  nameLen := (buf (off + 6)).toNat
  fileType := buf (off + 7)
  name := if rd32 buf off = 0 then [] else slice buf (off + 8) (buf (off + 6)).toNat

/-- The record is in use. -/
def DirEntry.live (e : DirEntry) : Bool := e.inode ≠ 0 ∧ 0 < e.nameLen

/-- The record is in use, and `ext2_name_equals`. -/
def DirEntry.names (name : List UInt8) (e : DirEntry) : Bool := e.live && e.name = name

/-- `ext2_align4`. -/
def extAlign4 (v : Nat) : Nat := (v + 3) / 4 * 4

/-- What the record needs. -/
def DirEntry.used (e : DirEntry) : Nat := extAlign4 (8 + e.nameLen)

/-- The record can be used again. -/
def DirEntry.unused (need : Nat) (e : DirEntry) : Bool := e.inode = 0 ∧ need ≤ e.recLen

/-- There is room for `need` bytes in the record, or behind what it needs. -/
def DirEntry.hasRoom (need : Nat) (e : DirEntry) : Bool :=
  e.unused need || e.used + need ≤ e.recLen

/-- The walk along the records of a block from `off` on: the first that passes the test,
and the one before it.  `next` is the conversion of the offset. -/
def dirWalk (size : Nat) (next : Nat → Nat) (test : DirEntry → Bool) (buf : Bytes) :
    Nat → Nat → Option Nat → Option (Nat × Option Nat)
  | 0, _, _ => none
  | fuel + 1, off, prev =>
      let e := dirEntryAt buf off
      if size < off + 8 ∨ e.recLen < 8 then none
      else if test e then some (off, prev)
      else dirWalk size next test buf fuel (next (off + e.recLen)) (some off)

/-- The direct blocks of a directory. -/
def dirBlocks (dir : Bytes) : List Nat := livePtrs (inodePtr dir) 0 12

/-- `uint16_t`. -/
def wrap16 (off : Nat) : Nat := off % 2 ^ 16

/-- `ext2_dir_find`. -/
def extDirFind (fs : ExtFs) (d : Volume) (dir : Bytes) (name : List UInt8) :
    Option (Nat × UInt8) :=
  (dirBlocks dir).findSome? fun block =>
    (dirWalk fs.blockSize id (DirEntry.names name) (d block) fs.blockSize 0 none).map fun r =>
      let e := dirEntryAt (d block) r.1
      (e.inode, e.fileType)

/-- `ext2_dir_find_slot`: the block, the offset and that of the record before. -/
def extDirFindSlot (fs : ExtFs) (d : Volume) (dir : Bytes) (name : List UInt8) :
    Option (Nat × Nat × Option Nat) :=
  (dirBlocks dir).findSome? fun block =>
    (dirWalk fs.blockSize wrap16 (DirEntry.names name) (d block) fs.blockSize 0 none).map fun r =>
      (block, r.1, r.2)

/-- Store all fields of a record but its length. -/
def putEntry (buf : Bytes) (off child : Nat) (fileType : UInt8) (name : List UInt8) : Bytes :=
  let buf := wr32 buf off child
  let buf := Function.update buf (off + 6) (UInt8.ofNat name.length)
  let buf := Function.update buf (off + 7) fileType
  splice buf (off + 8) name.length fun i => name.getD i 0

/-- Use the record at `off` again, or split it. -/
def placeEntry (need child : Nat) (fileType : UInt8) (name : List UInt8) (buf : Bytes)
    (off : Nat) : Bytes :=
  let e := dirEntryAt buf off
  if e.unused need then putEntry buf off child fileType name
  else
    let buf := wr16 buf (off + 4) e.used
    let buf := wr16 buf (off + e.used + 4) (e.recLen - e.used)
    putEntry buf (off + e.used) child fileType name

/-- The block of a directory with one entry. -/
def newDirBlock (size child : Nat) (fileType : UInt8) (name : List UInt8) : Bytes :=
  putEntry (wr16 (fun _ => 0) 4 size) 0 child fileType name

/-- `size` and `blocks` of a directory that gets one more block. -/
def growDir (fs : ExtFs) (dir : Bytes) : Bytes :=
  setSize dir (rd32 dir inSize + fs.blockSize) (rd32 dir inBlocks + fs.blockSize / 512)

/-- `ext2_dir_add_entry`; the inode of the directory in memory is changed as well. -/
def extDirAddEntry (fs : ExtFs) (d : Volume) (parent : Nat) (dir : Bytes) (child : Nat)
    (fileType : UInt8) (name : List UInt8) : Except Volume (Volume × Bytes) :=
  if name.length = 0 ∨ 255 < name.length then .error d
  else
    let need := extAlign4 (8 + name.length)
    let room := (dirBlocks dir).findSome? fun block =>
      (dirWalk fs.blockSize wrap16 (DirEntry.hasRoom need) (d block) fs.blockSize 0 none).map fun r =>
        (block, r.1)
    match room with
    | some (block, off) =>
        .ok (extWriteBlock d block (placeEntry need child fileType name (d block) off), dir)
    | none =>
        match (List.range 12).find? fun bi => inodePtr dir bi = 0 with
        | none => .error d
        | some bi => do
            let (b, d) ← orFail d (extAllocBlock fs d)
            let dir := growDir fs (wr32 dir (inBlock + 4 * bi) b)
            let d := extWriteBlock d b (newDirBlock fs.blockSize child fileType name)
            let d ← orFail d (extWriteInode fs d parent dir)
            .ok (d, dir)

/-- Take the record at `off` out of its block. -/
def dropEntry (buf : Bytes) (off : Nat) : Option Nat → Bytes
  | none => wr32 buf off 0
  | some prev =>
      wr16 buf (prev + 4) ((dirEntryAt buf prev).recLen + (dirEntryAt buf off).recLen)

/-- `ext2_dir_remove_entry`: the volume, the inode and the type of the entry removed. -/
def extDirRemoveEntry (fs : ExtFs) (d : Volume) (dir : Bytes) (name : List UInt8) :
    Option (Volume × Nat × UInt8) :=
  (extDirFindSlot fs d dir name).map fun (block, off, prev) =>
    let e := dirEntryAt (d block) off
    (extWriteBlock d block (dropEntry (d block) off prev), e.inode, e.fileType)

end NTux.Ext
