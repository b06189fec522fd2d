import NTux.Ext.PathFiles

/-!
# What mounting an ext volume checks

`ext2_fs_mount` and `ext4_fs_mount` take the geometry of a volume from its superblock.  They
check the block size, after the shift, and that the two group sizes are not zero.  The
bitmaps are read into buffers of 4096 bytes, which hold the bits of 32768 blocks or inodes.

* `extMount` — the two mount routines, on the superblock read.
* `MountSound` — what later computations rely on: divisors, shift counts, and indices into
  the buffers.
* `Fits` — the group is no greater than its bitmap, or the volume ends before that matters.
* `mount_sound_iff` — which accepted superblocks are harmless.
-/

namespace NTux.Ext

open NTux.Lib NTux.Lib.Bytes

/-! ## Mounting -/

/-- The offsets of the fields of the superblock that mounting reads. -/
def sbInodesCount : Nat := 0

@[inherit_doc sbInodesCount] def sbBlocksCount : Nat := 4
@[inherit_doc sbInodesCount] def sbFirstDataBlock : Nat := 20
@[inherit_doc sbInodesCount] def sbLogBlockSize : Nat := 24
@[inherit_doc sbInodesCount] def sbBlocksPerGroup : Nat := 32
@[inherit_doc sbInodesCount] def sbInodesPerGroup : Nat := 40
@[inherit_doc sbInodesCount] def sbMagic : Nat := 56
@[inherit_doc sbInodesCount] def sbInodeSize : Nat := 88
@[inherit_doc sbInodesCount] def sbFeatureCompat : Nat := 92
@[inherit_doc sbInodesCount] def sbFeatureIncompat : Nat := 96

/-- `v << n` for 32 bits, as the processor shifts: by `n` modulo 32. -/
def shiftLeft32 (v n : Nat) : Nat := v * 2 ^ (n % 32) % 2 ^ 32

/-- `ext4_fs_mount` wants one of four features. -/
def ext4HasFeature (sb : Bytes) : Bool :=
  rd32 sb sbFeatureIncompat &&& 0x40 ≠ 0 ∨ rd32 sb sbFeatureIncompat &&& 0x80 ≠ 0 ∨
    rd32 sb sbFeatureIncompat &&& 0x200 ≠ 0 ∨ rd32 sb sbFeatureCompat &&& 0x0004 ≠ 0

/-- The geometry taken from the superblock. -/
def extFsOf (driver : Driver) (sb : Bytes) : ExtFs where
  superSize := match driver with
    | .ext2 => 204
    | .ext4 => 236
  blockSize := shiftLeft32 1024 (rd32 sb sbLogBlockSize)
  inodeSize := if rd16 sb sbInodeSize = 0 then 128 else rd16 sb sbInodeSize
  blocksPerGroup := rd32 sb sbBlocksPerGroup
  inodesPerGroup := rd32 sb sbInodesPerGroup
  firstDataBlock := rd32 sb sbFirstDataBlock
  groupCount :=
    (rd32 sb sbBlocksCount + rd32 sb sbBlocksPerGroup + (2 ^ 32 - 1)) % 2 ^ 32 /
      rd32 sb sbBlocksPerGroup
  blocksCount := rd32 sb sbBlocksCount
  inodesCount := rd32 sb sbInodesCount
  rootInode := 2

/-- `ext2_fs_mount` and `ext4_fs_mount`, once the superblock has been read. -/
def extMount (driver : Driver) (sb : Bytes) : Except Int ExtFs :=
  let fs := extFsOf driver sb
  if rd16 sb sbMagic ≠ 0xEF53 then .error (-2)
  else if driver = .ext4 ∧ ext4HasFeature sb = false then .error (-3)
  else if 4096 < fs.blockSize ∨ fs.blockSize < 1024 then .error (-3)
  else if fs.blocksPerGroup = 0 ∨ fs.inodesPerGroup = 0 then .error (-4)
  else .ok fs

/-! ## What is computed later -/

/-- The bytes of a block buffer. -/
def blockBuffer : Nat := 4096

/-- The descriptor of the group is found in the one block that is looked at. -/
def ExtFs.HasDesc (fs : ExtFs) (g : Nat) : Prop := g * bgDescSize + bgDescSize ≤ fs.blockSize

/-- The number of the bit `b` of group `g` in the loop of `ext2_alloc_block`. -/
def ExtFs.loopBlock (fs : ExtFs) (g b : Nat) : Nat :=
  (fs.firstDataBlock + g * fs.blocksPerGroup + b) % 2 ^ 32

/-- The number of the bit `b` of group `g` in the loop of `ext2_alloc_inode`. -/
def ExtFs.loopInode (fs : ExtFs) (g b : Nat) : Nat := (g * fs.inodesPerGroup + 1 + b) % 2 ^ 32

/-- The first inode that `ext2_alloc_inode` gives away, the root apart. -/
def firstFreeInode (sb : Bytes) : Nat := if rd32 sb sbFirstIno = 0 then 11 else rd32 sb sbFirstIno

/-- The indices in blocks of pointers for a block of a file. -/
def ExtFs.ptrIndices (fs : ExtFs) (lblock : Nat) : List Nat :=
  if lblock < 12 then []
  else if lblock - 12 < fs.ptrs then [lblock - 12]
  else [(lblock - 12 - fs.ptrs) / fs.ptrs, (lblock - 12 - fs.ptrs) % fs.ptrs]

/-- What is computed from an accepted superblock is harmless. -/
structure MountSound (fs : ExtFs) (sb : Bytes) : Prop where
  /-- no divisor is zero -/
  divisors : fs.blockSize ≠ 0 ∧ fs.blocksPerGroup ≠ 0 ∧ fs.inodesPerGroup ≠ 0 ∧ fs.ptrs ≠ 0
  /-- the one shift count that is read from the disk is less than the width -/
  shift : rd32 sb sbLogBlockSize < 32
  /-- the byte of the bit of a block that is released -/
  freeBlock : ∀ x, fs.HasBlock x → fs.HasDesc (fs.groupOf x) → fs.bitOf x / 8 < blockBuffer
  /-- the bytes that the search for a block comes to -/
  allocBlock : ∀ g < fs.groupCount, fs.HasDesc g → ∀ b < fs.blocksPerGroup,
    (∀ b' ≤ b, fs.loopBlock g b' < fs.blocksCount) → b / 8 < blockBuffer
  /-- the byte of the bit of an inode that is released -/
  freeInode : ∀ ino, fs.HasInode ino → fs.HasDesc ((ino - 1) / fs.inodesPerGroup) →
    (ino - 1) % fs.inodesPerGroup / 8 < blockBuffer
  /-- the bytes that the search for an inode comes to, those passed over excepted -/
  allocInode : ∀ g < fs.groupCount, fs.HasDesc g → ∀ b < fs.inodesPerGroup,
    (∀ b' ≤ b, fs.loopInode g b' ≤ fs.inodesCount) →
    (firstFreeInode sb ≤ fs.loopInode g b ∨ fs.loopInode g b = 2) → b / 8 < blockBuffer
  /-- an inode in the buffer, where `ext2_read_inode` copies it -/
  inodeTable : ∀ bg ino, fs.HasInode ino → (extInodePlace fs bg ino).2 < blockBuffer ∧
    (¬ fs.blockSize < (extInodePlace fs bg ino).2 + inodeRecordSize →
      (extInodePlace fs bg ino).2 + inodeRecordSize ≤ blockBuffer)
  /-- the pointers to a block of a file -/
  pointers : ∀ lblock < fs.maxBlocks, ∀ k ∈ fs.ptrIndices lblock, 4 * k + 4 ≤ blockBuffer

/-- The bits of the blocks and of the inodes stay in the bitmaps: the group has at most
32768, or too few numbers are left from its first one on. -/
structure Fits (fs : ExtFs) (sb : Bytes) : Prop where
  blocks : fs.blocksPerGroup ≤ 32768 ∨
    fs.blocksCount ≤ fs.firstDataBlock + 32768 ∧
      ∀ g < fs.groupCount, fs.HasDesc g → fs.blocksCount ≤ fs.loopBlock g 0 + 32768
  inodes : fs.inodesPerGroup ≤ 32768 ∨
    fs.inodesCount ≤ 32768 ∧ ∀ g < fs.groupCount, fs.HasDesc g →
      fs.inodesCount < fs.loopInode g 0 + 32768 ∨ fs.inodesCount < firstFreeInode sb

/-! ## The accepted superblocks -/

variable {driver : Driver} {sb : Bytes} {fs : ExtFs}

/-- What an accepted superblock has passed. -/
structure Accepted (fs : ExtFs) (sb : Bytes) : Prop where
  blockSize : 1024 ≤ fs.blockSize ∧ fs.blockSize ≤ 4096
  blocksPerGroup : fs.blocksPerGroup ≠ 0
  inodesPerGroup : fs.inodesPerGroup ≠ 0
  blocksCount : fs.blocksCount < 2 ^ 32
  inodesCount : fs.inodesCount < 2 ^ 32

theorem extMount_accepted (eq : extMount driver sb = .ok fs) : Accepted fs sb := by
  unfold extMount at eq
  dsimp only at eq
  split at eq
  next => cases eq
  next =>
    split at eq
    next => cases eq
    next =>
      split at eq
      next => cases eq
      next size =>
        split at eq
        next => cases eq
        next groups =>
          obtain rfl := Except.ok.inj eq
          push Not at size groups
          exact ⟨⟨size.2, size.1⟩, groups.1, groups.2, rd32_lt, rd32_lt⟩

theorem Accepted.ptrs_pos (ok : Accepted fs sb) : 0 < fs.ptrs := by
  have := ok.blockSize
  unfold ExtFs.ptrs
  omega

theorem Accepted.hasDesc_zero (ok : Accepted fs sb) : fs.HasDesc 0 := by
  have := ok.blockSize
  unfold ExtFs.HasDesc bgDescSize
  omega

/-- A loop from `s` up to `n` that wraps at 32 bits comes to no 32769th turn exactly if
less than that is left. -/
theorem loop_short_iff {s n per : Nat} (small : n < 2 ^ 32) (many : 32768 < per)
    (start : s < 2 ^ 32) :
    (∀ b < per, (∀ b' ≤ b, (s + b') % 2 ^ 32 < n) → b / 8 < blockBuffer) ↔ n ≤ s + 32768 := by
  unfold blockBuffer
  constructor
  · intro short
    by_contra far
    have := short 32768 many (by
      intro b' le
      rw [Nat.mod_eq_of_lt (by omega)]
      omega)
    omega
  · intro ends b _ reached
    by_contra far
    by_cases wraps : s + 32768 < 2 ^ 32
    · have := reached 32768 (by omega)
      rw [Nat.mod_eq_of_lt wraps] at this
      omega
    · -- the loop ends before it wraps
      have := reached (2 ^ 32 - 1 - s) (by omega)
      rw [Nat.mod_eq_of_lt (by omega)] at this
      omega

theorem loopBlock_eq (g b : Nat) : fs.loopBlock g b = (fs.loopBlock g 0 + b) % 2 ^ 32 := by
  simp [ExtFs.loopBlock]

theorem loopInode_eq (g b : Nat) : fs.loopInode g b = (fs.loopInode g 0 + b) % 2 ^ 32 := by
  simp [ExtFs.loopInode]

/-- The search for a block stays in its bitmap exactly if less than 32768 blocks are left. -/
theorem allocBlock_iff (ok : Accepted fs sb) (many : 32768 < fs.blocksPerGroup) (g : Nat) :
    (∀ b < fs.blocksPerGroup, (∀ b' ≤ b, fs.loopBlock g b' < fs.blocksCount) →
      b / 8 < blockBuffer) ↔ fs.blocksCount ≤ fs.loopBlock g 0 + 32768 := by
  have start : fs.loopBlock g 0 < 2 ^ 32 := Nat.mod_lt _ (by decide)
  have number : ∀ b, fs.loopBlock g b = (fs.loopBlock g 0 + b) % 2 ^ 32 := loopBlock_eq g
  generalize fs.loopBlock g 0 = s at number start ⊢
  simp only [number]
  exact loop_short_iff ok.blocksCount many start

/-- And so does the release, by the blocks of group 0. -/
theorem freeBlock_iff (ok : Accepted fs sb) (many : 32768 < fs.blocksPerGroup) :
    (∀ x, fs.HasBlock x → fs.HasDesc (fs.groupOf x) → fs.bitOf x / 8 < blockBuffer) ↔
      fs.blocksCount ≤ fs.firstDataBlock + 32768 := by
  unfold blockBuffer
  constructor
  · intro inside
    by_contra far
    have group : fs.groupOf (fs.firstDataBlock + 32768) = 0 := by
      unfold ExtFs.groupOf
      rw [Nat.add_sub_cancel_left, Nat.div_eq_of_lt many]
    have bit : fs.bitOf (fs.firstDataBlock + 32768) = 32768 := by
      unfold ExtFs.bitOf
      rw [Nat.add_sub_cancel_left, Nat.mod_eq_of_lt many]
    have := inside (fs.firstDataBlock + 32768) ⟨by omega, by omega⟩ (group ▸ ok.hasDesc_zero)
    rw [bit] at this
    omega
  · intro short x has _
    have le : fs.bitOf x ≤ x - fs.firstDataBlock := Nat.mod_le _ _
    have := has.1
    have := has.2
    omega

theorem freeInode_iff (ok : Accepted fs sb) (many : 32768 < fs.inodesPerGroup) :
    (∀ ino, fs.HasInode ino → fs.HasDesc ((ino - 1) / fs.inodesPerGroup) →
      (ino - 1) % fs.inodesPerGroup / 8 < blockBuffer) ↔ fs.inodesCount ≤ 32768 := by
  unfold blockBuffer
  constructor
  · intro inside
    by_contra far
    have := inside 32769 ⟨by omega, by omega⟩ (by
      rw [Nat.div_eq_of_lt (by omega)]
      exact ok.hasDesc_zero)
    rw [Nat.mod_eq_of_lt (by omega)] at this
    omega
  · intro short ino has _
    have le : (ino - 1) % fs.inodesPerGroup ≤ ino - 1 := Nat.mod_le _ _
    have := has.1
    have := has.2
    omega

/-- The search for an inode, on a volume with at most 32768: it passes over the reserved
numbers, so it matters whether there are others. -/
theorem allocInode_iff (few : fs.inodesCount ≤ 32768) (many : 32768 < fs.inodesPerGroup)
    (g : Nat) :
    (∀ b < fs.inodesPerGroup, (∀ b' ≤ b, fs.loopInode g b' ≤ fs.inodesCount) →
      (firstFreeInode sb ≤ fs.loopInode g b ∨ fs.loopInode g b = 2) → b / 8 < blockBuffer) ↔
      (fs.inodesCount < fs.loopInode g 0 + 32768 ∨ fs.inodesCount < firstFreeInode sb) := by
  have start : fs.loopInode g 0 < 2 ^ 32 := Nat.mod_lt _ (by decide)
  unfold blockBuffer
  constructor
  · intro inside
    by_contra far
    push Not at far
    -- the last number is looked at, and it is a 32769th or later one
    have number : ∀ b' ≤ fs.inodesCount - fs.loopInode g 0,
        fs.loopInode g b' = fs.loopInode g 0 + b' := by
      intro b' le
      rw [loopInode_eq, Nat.mod_eq_of_lt (by omega)]
    have last := number (fs.inodesCount - fs.loopInode g 0) (le_refl _)
    have := inside (fs.inodesCount - fs.loopInode g 0) (by omega)
      (fun b' le => by rw [number b' le]; omega) (.inl (by omega))
    omega
  · intro short b _ reached tested
    by_contra far
    have first : fs.loopInode g 0 ≤ fs.inodesCount := by simpa using reached 0 (by omega)
    by_cases wraps : fs.loopInode g 0 + b < 2 ^ 32
    · have number : fs.loopInode g b = fs.loopInode g 0 + b := by
        rw [loopInode_eq, Nat.mod_eq_of_lt wraps]
      have := reached b (le_refl _)
      omega
    · have := reached (2 ^ 32 - 1 - fs.loopInode g 0) (by omega)
      rw [loopInode_eq, Nat.mod_eq_of_lt (by omega)] at this
      omega

/-- Bits below 32768 are in the buffer. -/
theorem bit_inside {b per : Nat} (few : per ≤ 32768) (lt : b < per) : b / 8 < blockBuffer := by
  unfold blockBuffer
  omega

/-- The bitmap indices stay inside exactly if the bits fit. -/
theorem bitmaps_iff (ok : Accepted fs sb) :
    ((∀ x, fs.HasBlock x → fs.HasDesc (fs.groupOf x) → fs.bitOf x / 8 < blockBuffer) ∧
      (∀ g < fs.groupCount, fs.HasDesc g → ∀ b < fs.blocksPerGroup,
        (∀ b' ≤ b, fs.loopBlock g b' < fs.blocksCount) → b / 8 < blockBuffer)) ∧
      ((∀ ino, fs.HasInode ino → fs.HasDesc ((ino - 1) / fs.inodesPerGroup) →
        (ino - 1) % fs.inodesPerGroup / 8 < blockBuffer) ∧
      (∀ g < fs.groupCount, fs.HasDesc g → ∀ b < fs.inodesPerGroup,
        (∀ b' ≤ b, fs.loopInode g b' ≤ fs.inodesCount) →
        (firstFreeInode sb ≤ fs.loopInode g b ∨ fs.loopInode g b = 2) → b / 8 < blockBuffer)) ↔
      Fits fs sb := by
  have blocks_pos : 0 < fs.blocksPerGroup := Nat.pos_of_ne_zero ok.blocksPerGroup
  have inodes_pos : 0 < fs.inodesPerGroup := Nat.pos_of_ne_zero ok.inodesPerGroup
  constructor
  · rintro ⟨⟨freeB, allocB⟩, freeI, allocI⟩
    constructor
    · rcases Nat.lt_or_ge 32768 fs.blocksPerGroup with many | few
      · refine .inr ⟨(freeBlock_iff ok many).mp freeB, ?_⟩
        intro g lt has
        exact (allocBlock_iff ok many g).mp (allocB g lt has)
      · exact .inl few
    · rcases Nat.lt_or_ge 32768 fs.inodesPerGroup with many | few
      · have count := (freeInode_iff ok many).mp freeI
        refine .inr ⟨count, ?_⟩
        intro g lt has
        exact (allocInode_iff count many g).mp (allocI g lt has)
      · exact .inl few
  · rintro ⟨blocks, inodes⟩
    constructor
    · rcases Nat.lt_or_ge 32768 fs.blocksPerGroup with many | few
      · obtain ⟨count, groups⟩ := blocks.resolve_left (by omega)
        refine ⟨(freeBlock_iff ok many).mpr count, ?_⟩
        intro g lt has
        exact (allocBlock_iff ok many g).mpr (groups g lt has)
      · refine ⟨fun x _ _ => bit_inside few (Nat.mod_lt _ blocks_pos), ?_⟩
        intro g _ _ b lt _
        exact bit_inside few lt
    · rcases Nat.lt_or_ge 32768 fs.inodesPerGroup with many | few
      · obtain ⟨count, groups⟩ := inodes.resolve_left (by omega)
        refine ⟨(freeInode_iff ok many).mpr count, ?_⟩
        intro g lt has
        exact (allocInode_iff count many g).mpr (groups g lt has)
      · refine ⟨fun ino _ _ => bit_inside few (Nat.mod_lt _ inodes_pos), ?_⟩
        intro g _ _ b lt _ _
        exact bit_inside few lt

/-- The index in a block of pointers is less than their number. -/
theorem ptrIndices_lt (ok : Accepted fs sb) {lblock k : Nat} (lt : lblock < fs.maxBlocks)
    (mem : k ∈ fs.ptrIndices lblock) : k < fs.ptrs := by
  have pos := ok.ptrs_pos
  unfold ExtFs.maxBlocks at lt
  unfold ExtFs.ptrIndices at mem
  split at mem
  next => cases mem
  next =>
    split at mem
    next single =>
      obtain rfl := List.mem_singleton.mp mem
      exact single
    next =>
      rcases List.mem_cons.mp mem with rfl | mem
      · rw [Nat.div_lt_iff_lt_mul pos]
        omega
      · obtain rfl := List.mem_singleton.mp mem
        exact Nat.mod_lt _ pos

/-- For every superblock that a mount accepts: what is computed from it later is harmless
exactly if its shift count is less than 32 and the bits of the bitmaps fit. -/
theorem mount_sound_iff (mounted : extMount driver sb = .ok fs) :
    MountSound fs sb ↔ rd32 sb sbLogBlockSize < 32 ∧ Fits fs sb := by
  have ok := extMount_accepted mounted
  constructor
  · intro sound
    exact ⟨sound.shift, (bitmaps_iff ok).mp
      ⟨⟨sound.freeBlock, sound.allocBlock⟩, sound.freeInode, sound.allocInode⟩⟩
  · rintro ⟨shift, fits⟩
    obtain ⟨⟨freeB, allocB⟩, freeI, allocI⟩ := (bitmaps_iff ok).mpr fits
    have size := ok.blockSize
    refine ⟨⟨by omega, ok.blocksPerGroup, ok.inodesPerGroup, ok.ptrs_pos.ne'⟩, shift, freeB, allocB,
      freeI, allocI, ?_, ?_⟩
    · intro bg ino _
      have inner : (extInodePlace fs bg ino).2 < fs.blockSize := Nat.mod_lt _ (by omega)
      unfold blockBuffer
      exact ⟨by omega, fun copied => by omega⟩
    · intro lblock lt k mem
      have few := ptrIndices_lt ok lt mem
      unfold ExtFs.ptrs at few
      unfold blockBuffer
      omega

/-- A superblock with groups of `per` blocks, of which there are `count`. -/
def groupSuper (count per : Nat) : Bytes :=
  let sb := wr16 (wr32 (wr32 (fun _ => 0) sbInodesCount 16) sbBlocksCount count) sbMagic 0xEF53
  wr32 (wr32 sb sbBlocksPerGroup per) sbInodesPerGroup 16

/-- Groups of 65536 blocks are accepted, and the bit of block 32768 lies behind the buffer. -/
theorem wide_group_accepted :
    ¬ ∀ driver sb fs, extMount driver sb = .ok fs → MountSound fs sb := by
  intro sound
  have mounted : extMount .ext2 (groupSuper 65536 65536) =
      .ok (extFsOf .ext2 (groupSuper 65536 65536)) := by
    unfold extMount
    rw [if_neg (by decide), if_neg (by decide), if_neg (by decide), if_neg (by decide)]
  have has : (extFsOf .ext2 (groupSuper 65536 65536)).HasBlock 32768 :=
    ⟨by decide, by decide⟩
  have desc : (extFsOf .ext2 (groupSuper 65536 65536)).HasDesc 0 := by
    unfold ExtFs.HasDesc
    decide
  have inside := (sound _ _ _ mounted).freeBlock 32768 has desc
  exact absurd inside (by decide)

/-- Groups of 8192 blocks. -/
theorem mount_sound_narrow :
    MountSound (extFsOf .ext2 (groupSuper 8192 8192)) (groupSuper 8192 8192) ↔
      rd32 (groupSuper 8192 8192) sbLogBlockSize < 32 ∧
        Fits (extFsOf .ext2 (groupSuper 8192 8192)) (groupSuper 8192 8192) := by
  have mounted : extMount .ext2 (groupSuper 8192 8192) =
      .ok (extFsOf .ext2 (groupSuper 8192 8192)) := by
    unfold extMount
    rw [if_neg (by decide), if_neg (by decide), if_neg (by decide), if_neg (by decide)]
  exact mount_sound_iff mounted

end NTux.Ext
