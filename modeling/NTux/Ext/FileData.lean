import NTux.Ext.Volume

/-!
# The data of a file

Reading and writing inodes, and reading, writing and releasing the blocks of a file:
twelve direct pointers, one indirect block and one double indirect block.  An inode is
the buffer of its 128 bytes.

A function that can fail in the middle returns the volume it leaves behind as the error
of an `Except`.
-/

namespace NTux.Ext

open NTux.Lib NTux.Lib.Bytes

/-! ## Inodes -/

/-- The offsets of the fields of an inode. -/
def inMode : Nat := 0

@[inherit_doc inMode] def inSize : Nat := 4
@[inherit_doc inMode] def inBlocks : Nat := 28
@[inherit_doc inMode] def inFlags : Nat := 32
@[inherit_doc inMode] def inBlock : Nat := 40

/-- `EXT2_S_IFREG`. -/
def sIfReg : Nat := 0x8000

/-- `EXT2_S_IFDIR`. -/
def sIfDir : Nat := 0x4000

/-- `inode->block[i]`. -/
def inodePtr (inode : Bytes) (i : Nat) : Nat := rd32 inode (inBlock + 4 * i)

/-- The block of an inode and its offset there, from the descriptor of its group. -/
def extInodePlace (fs : ExtFs) (bg : Bytes) (ino : Nat) : Nat × Nat :=
  let off := (ino - 1) % fs.inodesPerGroup * fs.inodeSize % 2 ^ 32
  ((rd32 bg bgInodeTable + off / fs.blockSize) % 2 ^ 32, off % fs.blockSize)

/-- `ext2_read_inode`. -/
def extReadInode (fs : ExtFs) (d : Volume) (ino : Nat) : Option Bytes :=
  if ino = 0 then none
  else do
    let bg ← extReadBgDesc fs d ((ino - 1) / fs.inodesPerGroup)
    let (block, inner) := extInodePlace fs bg ino
    if fs.blockSize < inner + inodeRecordSize then none
    else some fun i => d block (inner + i)

/-- `ext2_write_inode`. -/
def extWriteInode (fs : ExtFs) (d : Volume) (ino : Nat) (inode : Bytes) : Option Volume :=
  if ino = 0 then none
  else do
    let bg ← extReadBgDesc fs d ((ino - 1) / fs.inodesPerGroup)
    let (block, inner) := extInodePlace fs bg ino
    if fs.blockSize < inner + inodeRecordSize then none
    else some (extWriteBlock d block (splice (d block) inner inodeRecordSize inode))

/-! ## Reading -/

/-- The number of pointers in a block. -/
def ExtFs.ptrs (fs : ExtFs) : Nat := fs.blockSize / 4

/-- The bytes still to be read, and those read so far. -/
structure Reading where
  remain : Nat
  out : List UInt8

/-- A loop of `ext2_read_file_data` over the pointers `p j, p (j + 1), …`. -/
def extReadBlocks (fs : ExtFs) (d : Volume) (p : Nat → Nat) : Nat → Nat → Reading → Reading
  | 0, _, r => r
  | n + 1, j, r =>
      if r.remain = 0 ∨ p j = 0 then r
      else
        let take := min r.remain fs.blockSize
        extReadBlocks fs d p n (j + 1) ⟨r.remain - take, r.out ++ slice (d (p j)) 0 take⟩

/-- The loop of `ext2_read_file_data` over the blocks of pointers `p i, p (i + 1), …`. -/
def extReadIndirect (fs : ExtFs) (d : Volume) (p : Nat → Nat) : Nat → Nat → Reading → Reading
  | 0, _, r => r
  | n + 1, i, r =>
      if r.remain = 0 ∨ p i = 0 then r
      else
        extReadIndirect fs d p n (i + 1)
          (extReadBlocks fs d (fun j => rd32 (d (p i)) (4 * j)) fs.ptrs 0 r)

/-- `ext2_read_file_data` into a buffer of `outCap` bytes. -/
def extReadFileData (fs : ExtFs) (d : Volume) (inode : Bytes) (outCap : Nat) :
    Option (List UInt8) :=
  let size := rd32 inode inSize
  if rd16 inode inMode &&& sIfReg = 0 ∨ outCap < size then none
  else
    let r := extReadBlocks fs d (inodePtr inode) 12 0 ⟨size, []⟩
    let r := if r.remain ≠ 0 ∧ inodePtr inode 12 ≠ 0 then
      extReadBlocks fs d (fun j => rd32 (d (inodePtr inode 12)) (4 * j)) fs.ptrs 0 r else r
    let r := if r.remain ≠ 0 ∧ inodePtr inode 13 ≠ 0 then
      extReadIndirect fs d (fun i => rd32 (d (inodePtr inode 13)) (4 * i)) fs.ptrs 0 r else r
    if r.remain = 0 then some r.out else none

/-! ## Releasing -/

/-- Fail on `none`, leaving `d`. -/
def orFail {α : Type} (d : Volume) : Option α → Except Volume α
  | none => .error d
  | some a => .ok a

theorem eq_some_of_orFail {α : Type} {d : Volume} {o : Option α} {a : α}
    (eq : orFail d o = .ok a) : o = some a := by
  cases o with
  | none => exact absurd eq (by simp [orFail])
  | some b => rw [Except.ok.inj eq]

theorem exists_of_bind_ok {α β : Type} {r : Except Volume α} {f : α → Except Volume β} {b : β}
    (eq : (r >>= f) = .ok b) : ∃ a, r = .ok a ∧ f a = .ok b := by
  cases r with
  | error d => exact absurd eq (by simp [bind, Except.bind])
  | ok a => exact ⟨a, rfl, eq⟩

/-- The loop of `ext2_inode_clear_data` over the direct pointers. -/
def extClearDirect (fs : ExtFs) : Nat → Nat → Volume → Bytes → Except Volume (Volume × Bytes)
  | 0, _, d, inode => .ok (d, inode)
  | n + 1, i, d, inode =>
      if inodePtr inode i = 0 then extClearDirect fs n (i + 1) d inode
      else do
        let d' ← orFail d (extFreeBlock fs d (inodePtr inode i))
        extClearDirect fs n (i + 1) d' (wr32 inode (inBlock + 4 * i) 0)

/-- The loop of `ext2_inode_clear_data` over the pointers of an indirect block. -/
def extClearPtrs (fs : ExtFs) (ind : Bytes) : Nat → Nat → Volume → Except Volume Volume
  | 0, _, d => .ok d
  | n + 1, j, d =>
      if rd32 ind (4 * j) = 0 then extClearPtrs fs ind n (j + 1) d
      else do
        let d' ← orFail d (extFreeBlock fs d (rd32 ind (4 * j)))
        extClearPtrs fs ind n (j + 1) d'

/-- Release a block of pointers after what it points to. -/
def extClearIndirect (fs : ExtFs) (block : Nat) (d : Volume) : Except Volume Volume := do
  let d' ← extClearPtrs fs (d block) fs.ptrs 0 d
  orFail d' (extFreeBlock fs d' block)

/-- The loop of `ext2_inode_clear_data` over the pointers of the double indirect block. -/
def extClearDouble (fs : ExtFs) (ind2 : Bytes) : Nat → Nat → Volume → Except Volume Volume
  | 0, _, d => .ok d
  | n + 1, i, d =>
      if rd32 ind2 (4 * i) = 0 then extClearDouble fs ind2 n (i + 1) d
      else do
        let d' ← extClearIndirect fs (rd32 ind2 (4 * i)) d
        extClearDouble fs ind2 n (i + 1) d'

/-- The single indirect part of `ext2_inode_clear_data`. -/
def extClearSingle (fs : ExtFs) (d : Volume) (inode : Bytes) : Except Volume (Volume × Bytes) :=
  if inodePtr inode 12 = 0 then .ok (d, inode)
  else do
    let d' ← extClearIndirect fs (inodePtr inode 12) d
    .ok (d', wr32 inode (inBlock + 48) 0)

/-- The double indirect part of `ext2_inode_clear_data`. -/
def extClearDoubles (fs : ExtFs) (d : Volume) (inode : Bytes) : Except Volume (Volume × Bytes) :=
  if inodePtr inode 13 = 0 then .ok (d, inode)
  else do
    let d₁ ← extClearDouble fs (d (inodePtr inode 13)) fs.ptrs 0 d
    let d₂ ← orFail d₁ (extFreeBlock fs d₁ (inodePtr inode 13))
    .ok (d₂, wr32 inode (inBlock + 52) 0)

/-- `inode->size` and `inode->blocks` are set. -/
def setSize (inode : Bytes) (size blocks : Nat) : Bytes :=
  wr32 (wr32 inode inSize size) inBlocks blocks

/-- `ext2_inode_clear_data`. -/
def extInodeClearData (fs : ExtFs) (d : Volume) (inode : Bytes) :
    Except Volume (Volume × Bytes) := do
  let (d, inode) ← extClearDirect fs 12 0 d inode
  let (d, inode) ← extClearSingle fs d inode
  let (d, inode) ← extClearDoubles fs d inode
  .ok (d, setSize inode 0 0)

/-! ## Writing -/

/-- Where the bytes of a file come from: `len` bytes at an offset. -/
abbrev Reader := Nat → Nat → Option Bytes

/-- The bytes of a buffer. -/
def bufferReader (data : Bytes) : Reader := fun off _ => some fun i => data (off + i)

/-- The volume, the number of bytes written and of blocks allocated so far. -/
structure Filling where
  vol : Volume
  off : Nat
  total : Nat

/-- The next block of the file: `ext2_fill_block_reader`, and the `memset` and `memcpy` of
`ext2_inode_write_data`. -/
def extFillBlock (fs : ExtFs) (reader : Reader) (len off : Nat) : Option Bytes :=
  let take := min (len - off) fs.blockSize
  if take = 0 then some fun _ => 0
  else (reader off take).map fun buf i => if i < take then buf i else 0

/-- A loop of `ext2_inode_write_data` that allocates blocks, stores their numbers at the
places `j, j + 1, …` of `buf` and fills them. -/
def extFillBlocks (fs : ExtFs) (reader : Reader) (len base : Nat) :
    Nat → Nat → Filling → Bytes → Except Volume (Filling × Bytes)
  | 0, _, s, buf => .ok (s, buf)
  | n + 1, j, s, buf => do
      let (b, d) ← orFail s.vol (extAllocBlock fs s.vol)
      let chunk ← orFail d (extFillBlock fs reader len s.off)
      extFillBlocks fs reader len base n (j + 1)
        ⟨extWriteBlock d b chunk, s.off + min (len - s.off) fs.blockSize, s.total + 1⟩
        (wr32 buf (base + 4 * j) b)

/-- Allocate a block of `n` pointers, and fill the blocks it points to. -/
def extFillIndirect (fs : ExtFs) (reader : Reader) (len n : Nat) (s : Filling) :
    Except Volume (Nat × Filling) := do
  let (b, d) ← orFail s.vol (extAllocBlock fs s.vol)
  let (s, buf) ← extFillBlocks fs reader len 0 n 0 ⟨d, s.off, s.total + 1⟩ fun _ => 0
  .ok (b, { s with vol := extWriteBlock s.vol b buf })

/-- The loop of `ext2_inode_write_data` over the indirect blocks of the double indirect
block, `remaining` blocks being left; each turn takes one at least. -/
def extFillDouble (fs : ExtFs) (reader : Reader) (len : Nat) :
    Nat → Nat → Nat → Filling → Bytes → Except Volume (Filling × Bytes)
  | 0, _, _, s, ind2 => .ok (s, ind2)
  | fuel + 1, idx, remaining, s, ind2 =>
      if remaining = 0 then .ok (s, ind2)
      else do
        let take := min remaining fs.ptrs
        let (b, s) ← extFillIndirect fs reader len take s
        extFillDouble fs reader len fuel (idx + 1) (remaining - take) s (wr32 ind2 (4 * idx) b)

/-- `needed`, a 32-bit number. -/
def ExtFs.needed (fs : ExtFs) (len : Nat) : Nat :=
  (len + fs.blockSize - 1) % 2 ^ 64 / fs.blockSize % 2 ^ 32

/-- `max_blocks`. -/
def ExtFs.maxBlocks (fs : ExtFs) : Nat := 12 + fs.ptrs + fs.ptrs * fs.ptrs

/-- The single indirect part of `ext2_inode_write_data`. -/
def extFillSinglePart (fs : ExtFs) (reader : Reader) (len needed : Nat) (s : Filling)
    (inode : Bytes) : Except Volume (Filling × Bytes) :=
  if needed ≤ 12 then .ok (s, inode)
  else do
    let (b, s) ← extFillIndirect fs reader len (min (needed - 12) fs.ptrs) s
    .ok (s, wr32 inode (inBlock + 48) b)

/-- The double indirect part of `ext2_inode_write_data`. -/
def extFillDoublePart (fs : ExtFs) (reader : Reader) (len needed : Nat) (s : Filling)
    (inode : Bytes) : Except Volume (Filling × Bytes) :=
  if needed ≤ 12 + fs.ptrs then .ok (s, inode)
  else do
    let (b, d) ← orFail s.vol (extAllocBlock fs s.vol)
    let remaining := needed - 12 - fs.ptrs
    let (s, ind2) ← extFillDouble fs reader len remaining 0 remaining ⟨d, s.off, s.total + 1⟩
      fun _ => 0
    .ok ({ s with vol := extWriteBlock s.vol b ind2 }, wr32 inode (inBlock + 52) b)

/-- What `ext2_inode_write_data` does with a cleared inode and some data. -/
def extFillInode (fs : ExtFs) (reader : Reader) (len : Nat) (d : Volume) (inode : Bytes) :
    Except Volume (Volume × Bytes) := do
  let needed := fs.needed len
  let (s, inode) ← extFillBlocks fs reader len inBlock (min needed 12) 0 ⟨d, 0, 0⟩ inode
  let (s, inode) ← extFillSinglePart fs reader len needed s inode
  let (s, inode) ← extFillDoublePart fs reader len needed s inode
  .ok (s.vol, setSize inode len (s.total * (fs.blockSize / 512)))

/-- `ext2_inode_write_data_reader` with a reader that is there. -/
def extInodeWriteDataReader (fs : ExtFs) (d : Volume) (inode : Bytes) (len : Nat)
    (reader : Reader) : Except Volume (Volume × Bytes) := do
  let (d, inode) ← extInodeClearData fs d inode
  if len = 0 then .ok (d, setSize inode 0 0)
  else if fs.maxBlocks < fs.needed len then .error d
  else extFillInode fs reader len d inode

/-- `ext2_inode_write_data`. -/
def extInodeWriteData (fs : ExtFs) (d : Volume) (inode data : Bytes) (len : Nat) :
    Except Volume (Volume × Bytes) :=
  extInodeWriteDataReader fs d inode len (bufferReader data)

/-- What `ext2_create_or_write_file_reader` does with an inode it has found. -/
def extWriteFileReader (fs : ExtFs) (d : Volume) (ino : Nat) (inode : Bytes) (len : Nat)
    (reader : Reader) : Except Volume Volume :=
  if rd16 inode inMode &&& sIfReg = 0 then .error d
  else do
    let (d, inode) ← extInodeWriteDataReader fs d inode len reader
    orFail d (extWriteInode fs d ino inode)

/-- What `ext2_create_or_write_file` does with an inode it has found. -/
def extWriteFile (fs : ExtFs) (d : Volume) (ino : Nat) (inode data : Bytes) (len : Nat) :
    Except Volume Volume :=
  extWriteFileReader fs d ino inode len (bufferReader data)

/-- The volume an operation leaves behind. -/
def volumeAfter : Except Volume Volume → Volume
  | .ok d => d
  | .error d => d

theorem eq_ok_volumeAfter {r : Except Volume Volume} (ok : r.isOk = true) :
    r = .ok (volumeAfter r) := by
  cases r with
  | ok d => rfl
  | error d => exact absurd ok (by simp [Except.isOk, Except.toBool])

end NTux.Ext
