import NTux.Lib.Bytes

/-!
# Ext volumes

The block layer of `ext2.c` and `ext4.c`: the superblock, the blocks, the group
descriptors and the inodes, and the two allocators on top of them.  The functions of
the two drivers are the same, except that the superblock record of `ext4.c` is longer;
its size is the field `superSize` here.

A volume is a partition as its blocks.  Reading and writing sectors always succeeds.
A packed record is the buffer of its bytes, and its fields are read and written at
their offsets, so that reading or writing a record is a copy.  A buffer is as long as
the block it is read from or written to.
-/

namespace NTux.Ext

open NTux.Lib NTux.Lib.Bytes

/-- The blocks of a partition. -/
abbrev Volume := Nat → Bytes

/-- `ext2_fs_t` and `ext4_fs_t`; `superSize` is the size of the superblock record, 204 in
`ext2.c` and 236 in `ext4.c`. -/
structure ExtFs where
  superSize : Nat
  blockSize : Nat
  inodeSize : Nat
  blocksPerGroup : Nat
  inodesPerGroup : Nat
  firstDataBlock : Nat
  groupCount : Nat
  blocksCount : Nat
  inodesCount : Nat
  rootInode : Nat

/-! ## Records -/

/-- The size of a group descriptor. -/
def bgDescSize : Nat := 32

/-- The size of `ext2_inode_t`. -/
def inodeRecordSize : Nat := 128

/-- The offsets of the fields of the superblock. -/
def sbFreeBlocks : Nat := 12

@[inherit_doc sbFreeBlocks] def sbFreeInodes : Nat := 16
@[inherit_doc sbFreeBlocks] def sbFirstIno : Nat := 84

/-- The offsets of the fields of a group descriptor. -/
def bgBlockBitmap : Nat := 0

@[inherit_doc bgBlockBitmap] def bgInodeBitmap : Nat := 4
@[inherit_doc bgBlockBitmap] def bgInodeTable : Nat := 8
@[inherit_doc bgBlockBitmap] def bgFreeBlocks : Nat := 12
@[inherit_doc bgBlockBitmap] def bgFreeInodes : Nat := 14
@[inherit_doc bgBlockBitmap] def bgUsedDirs : Nat := 16

namespace ExtFs

variable (fs : ExtFs)

/-- The block the superblock is in: it is at byte 1024 of the partition. -/
def superBlock : Nat := 1024 / fs.blockSize

/-- The offset of the superblock in its block. -/
def superOffset : Nat := 1024 % fs.blockSize

/-- `desc_table_block`. -/
def descBlock : Nat := if fs.blockSize = 1024 then 2 else 1

end ExtFs

/-- `ext2_read_super`. -/
def extReadSuper (fs : ExtFs) (d : Volume) : Bytes := fun i =>
  d fs.superBlock (fs.superOffset + i)

/-- `ext2_write_super`. -/
def extWriteSuper (fs : ExtFs) (d : Volume) (sb : Bytes) : Volume :=
  Function.update d fs.superBlock (splice (d fs.superBlock) fs.superOffset fs.superSize sb)

/-- `ext2_write_block`. -/
def extWriteBlock (d : Volume) (block : Nat) (buf : Bytes) : Volume :=
  Function.update d block buf

/-- `ext2_read_bg_desc`; `none` where the descriptor is past the one block it looks at. -/
def extReadBgDesc (fs : ExtFs) (d : Volume) (group : Nat) : Option Bytes :=
  let off := group * bgDescSize
  if fs.blockSize < off + bgDescSize then none
  else some fun i => d fs.descBlock (off + i)

/-- `ext2_write_bg_desc`. -/
def extWriteBgDesc (fs : ExtFs) (d : Volume) (group : Nat) (desc : Bytes) : Option Volume :=
  let off := group * bgDescSize
  if fs.blockSize < off + bgDescSize then none
  else some (extWriteBlock d fs.descBlock (splice (d fs.descBlock) off bgDescSize desc))

/-! ## Allocation -/

/-- The loop over the bits of a group: `skip` and `stop` are its `continue` and `break`
conditions before the bit is tested. -/
def extFindBit (map : Bytes) (skip stop : Nat → Bool) (b : Nat) : Nat → Option Nat
  | 0 => none
  | fuel + 1 =>
      if stop b then none
      else if skip b || getBit map b then extFindBit map skip stop (b + 1) fuel
      else some b

/-- The loop of `ext2_alloc_block` over the groups from `g` on. -/
def extAllocBlockFrom (fs : ExtFs) (d : Volume) (g : Nat) : Nat → Option (Nat × Volume)
  | 0 => none
  | fuel + 1 => do
      let bg ← extReadBgDesc fs d g
      let blk := fun b => (fs.firstDataBlock + g * fs.blocksPerGroup + b) % 2 ^ 32
      if rd16 bg bgFreeBlocks = 0 then extAllocBlockFrom fs d (g + 1) fuel
      else
        let map := d (rd32 bg bgBlockBitmap)
        match extFindBit map (fun _ => false) (fun b => fs.blocksCount ≤ blk b) 0
            fs.blocksPerGroup with
        | none => extAllocBlockFrom fs d (g + 1) fuel
        | some b =>
            let sb := extReadSuper fs d
            let d := extWriteBlock d (rd32 bg bgBlockBitmap) (setBit map b)
            let d ← extWriteBgDesc fs d g (wr16 bg bgFreeBlocks (rd16 bg bgFreeBlocks - 1))
            let d := extWriteSuper fs d (wr32 sb sbFreeBlocks (rd32 sb sbFreeBlocks - 1))
            some (blk b, extWriteBlock d (blk b) fun _ => 0)

/-- `ext2_alloc_block`. -/
def extAllocBlock (fs : ExtFs) (d : Volume) : Option (Nat × Volume) :=
  extAllocBlockFrom fs d 0 fs.groupCount

/-- The loop of `ext2_alloc_inode` over the groups from `g` on. -/
def extAllocInodeFrom (fs : ExtFs) (isDir : Bool) (d : Volume) (g : Nat) :
    Nat → Option (Nat × Volume)
  | 0 => none
  | fuel + 1 => do
      let bg ← extReadBgDesc fs d g
      let sb := extReadSuper fs d
      let firstIno := if rd32 sb sbFirstIno = 0 then 11 else rd32 sb sbFirstIno
      let ino := fun b => (g * fs.inodesPerGroup + b + 1) % 2 ^ 32
      if rd16 bg bgFreeInodes = 0 then extAllocInodeFrom fs isDir d (g + 1) fuel
      else
        let map := d (rd32 bg bgInodeBitmap)
        match extFindBit map (fun b => ino b < firstIno && ino b ≠ 2)
            (fun b => fs.inodesCount < ino b) 0 fs.inodesPerGroup with
        | none => extAllocInodeFrom fs isDir d (g + 1) fuel
        | some b =>
            let d := extWriteBlock d (rd32 bg bgInodeBitmap) (setBit map b)
            let bg := wr16 bg bgFreeInodes (rd16 bg bgFreeInodes - 1)
            let bg := if isDir then wr16 bg bgUsedDirs (rd16 bg bgUsedDirs + 1) else bg
            let d ← extWriteBgDesc fs d g bg
            some (ino b, extWriteSuper fs d (wr32 sb sbFreeInodes (rd32 sb sbFreeInodes - 1)))

/-- `ext2_alloc_inode`. -/
def extAllocInode (fs : ExtFs) (d : Volume) (isDir : Bool) : Option (Nat × Volume) :=
  extAllocInodeFrom fs isDir d 0 fs.groupCount

/-- `ext2_free_block`. -/
def extFreeBlock (fs : ExtFs) (d : Volume) (block : Nat) : Option Volume :=
  if block = 0 then some d
  else if fs.blocksCount ≤ block then none
  else do
    let rel := (block + 2 ^ 32 - fs.firstDataBlock) % 2 ^ 32
    let g := rel / fs.blocksPerGroup
    let b := rel % fs.blocksPerGroup
    let bg ← extReadBgDesc fs d g
    let map := d (rd32 bg bgBlockBitmap)
    if !getBit map b then some d
    else
      let d := extWriteBlock d (rd32 bg bgBlockBitmap) (clearBit map b)
      let d ← extWriteBgDesc fs d g (wr16 bg bgFreeBlocks (rd16 bg bgFreeBlocks + 1))
      let sb := extReadSuper fs d
      some (extWriteSuper fs d (wr32 sb sbFreeBlocks (rd32 sb sbFreeBlocks + 1)))

/-- `ext2_free_inode`. -/
def extFreeInode (fs : ExtFs) (d : Volume) (ino : Nat) (wasDir : Bool) : Option Volume :=
  if ino = 0 ∨ fs.inodesCount < ino then none
  else do
    let g := (ino - 1) / fs.inodesPerGroup
    let b := (ino - 1) % fs.inodesPerGroup
    let bg ← extReadBgDesc fs d g
    let map := d (rd32 bg bgInodeBitmap)
    if !getBit map b then some d
    else
      let d := extWriteBlock d (rd32 bg bgInodeBitmap) (clearBit map b)
      let bg := wr16 bg bgFreeInodes (rd16 bg bgFreeInodes + 1)
      let bg := if wasDir && decide (0 < rd16 bg bgUsedDirs) then
        wr16 bg bgUsedDirs (rd16 bg bgUsedDirs - 1) else bg
      let d ← extWriteBgDesc fs d g bg
      let sb := extReadSuper fs d
      some (extWriteSuper fs d (wr32 sb sbFreeInodes (rd32 sb sbFreeInodes + 1)))

end NTux.Ext
