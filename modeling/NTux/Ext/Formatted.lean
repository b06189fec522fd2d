import NTux.Ext.Format

/-!
# Formatted volumes

The mount reads back what the format has stored (`extFsMount_mkfs`), the volume is
consistent (`mkfs_consistent`), and its root is a directory of one block that holds `"."`
and `".."`.
-/

namespace NTux.Ext

open NTux.Lib NTux.Lib.Bytes NTux.Lib.BitPool

variable {drv : Driver} {blocks : Nat} {old : Volume}

/-! ## The records -/

theorem getBit_mkfsMap (n b : Nat) : getBit (mkfsMap n) b = decide (b < n) := by
  induction n with
  | zero =>
      show getBit zeroed b = _
      simp [getBit, zeroed]
  | succ n ih =>
      unfold mkfsMap at ih ⊢
      rw [List.range_succ, List.foldl_append, List.foldl_cons, List.foldl_nil, getBit_setBit, ih]
      by_cases last : b = n
      · simp [last]
      · have step : decide (b < n + 1) = decide (b < n) := decide_eq_decide.2 (by omega)
        rw [step, decide_eq_false last, Bool.false_or]

/-- The superblock as the mounts read it. -/
def volumeSuper (d : Volume) : Bytes := fun i => d 0 (1024 + i)

theorem volumeSuper_mkfs {i : Nat} (lt : i < 512) :
    volumeSuper (mkfsVolume drv blocks old) i = mkfsSuper drv blocks i :=
  splice_of_mem lt

theorem rd32_volumeSuper {o : Nat} (le : o + 4 ≤ 512) :
    rd32 (volumeSuper (mkfsVolume drv blocks old)) o = rd32 (mkfsSuper drv blocks) o :=
  rd32_congr fun _ _ => volumeSuper_mkfs (by omega)

theorem rd16_volumeSuper {o : Nat} (le : o + 2 ≤ 512) :
    rd16 (volumeSuper (mkfsVolume drv blocks old)) o = rd16 (mkfsSuper drv blocks) o :=
  rd16_congr fun _ _ => volumeSuper_mkfs (by omega)

/-- The fields of the superblock. -/
structure SuperFields (drv : Driver) (blocks : Nat) (sb : Bytes) : Prop where
  inodesCount : rd32 sb 0 = mkfsInodes blocks
  blocksCount : rd32 sb 4 = blocks
  freeBlocks : rd32 sb sbFreeBlocks = blocks - mkfsUsedBlocks blocks
  freeInodes : rd32 sb sbFreeInodes = mkfsInodes blocks - mkfsUsedInodes
  firstDataBlock : rd32 sb 20 = 0
  logBlockSize : rd32 sb 24 = 2
  blocksPerGroup : rd32 sb 32 = blocks
  inodesPerGroup : rd32 sb 40 = mkfsInodes blocks
  magic : rd16 sb 56 = 0xEF53
  firstIno : rd32 sb sbFirstIno = 11
  inodeSize : rd16 sb 88 = inodeRecordSize
  incompat : rd32 sb 96 = if drv = .ext4 then 0x42 else 0x02

theorem mkfsSuper_fields (drv : Driver) (fit : MkfsBlocks blocks) :
    SuperFields drv blocks (mkfsSuper drv blocks) := by
  obtain ⟨-, inodes, -, -, -, -, -, -⟩ := mkfs_sizes fit
  have most : blocks ≤ 32768 := fit.2
  have feature : (if drv = .ext4 then 0x42 else 0x02) < 4294967296 := by
    split <;> omega
  have free : sbFreeBlocks = 12 ∧ sbFreeInodes = 16 ∧ sbFirstIno = 84 ∧ inodeRecordSize = 128 :=
    ⟨rfl, rfl, rfl, rfl⟩
  obtain ⟨freeBlocks, freeInodes, firstIno, record⟩ := free
  constructor <;>
    simp (disch := omega) only [mkfsSuper, freeBlocks, freeInodes, firstIno, record,
      rd32_wr32_of_apart, rd32_wr16_of_apart, rd16_wr32_of_apart, rd16_wr16_of_apart,
      rd32_wr32, rd16_wr16]

/-- The mount finds the parameters of the format. -/
theorem extFsMount_mkfs (fit : MkfsBlocks blocks) :
    extFsMount drv (volumeSuper (mkfsVolume drv blocks old)) = .ok (mkfsFs drv blocks) := by
  have fields := mkfsSuper_fields drv fit
  obtain ⟨inodes, -⟩ := mkfs_sizes fit
  obtain ⟨low, high⟩ := fit
  have count : (blocks + blocks - 1) % 2 ^ 32 / blocks = 1 := by
    rw [Nat.mod_eq_of_lt (by omega)]
    exact Nat.div_eq_of_lt_le (by omega) (by omega)
  have extents : ¬ (drv = .ext4 ∧ (if drv = .ext4 then 0x42 else 0x02) &&& 0x40 = 0 ∧
      (if drv = .ext4 then 0x42 else 0x02) &&& 0x80 = 0 ∧
      (if drv = .ext4 then 0x42 else 0x02) &&& 0x200 = 0 ∧
      rd32 (volumeSuper (mkfsVolume drv blocks old)) 92 &&& 0x4 = 0) := by
    rintro ⟨same, none, -⟩
    rw [if_pos same] at none
    exact absurd none (by decide)
  unfold extFsMount
  simp only [rd32_volumeSuper (Nat.le_of_ble_eq_true rfl : 0 + 4 ≤ 512),
    rd32_volumeSuper (Nat.le_of_ble_eq_true rfl : 4 + 4 ≤ 512),
    rd32_volumeSuper (Nat.le_of_ble_eq_true rfl : 20 + 4 ≤ 512),
    rd32_volumeSuper (Nat.le_of_ble_eq_true rfl : 24 + 4 ≤ 512),
    rd32_volumeSuper (Nat.le_of_ble_eq_true rfl : 32 + 4 ≤ 512),
    rd32_volumeSuper (Nat.le_of_ble_eq_true rfl : 40 + 4 ≤ 512),
    rd32_volumeSuper (Nat.le_of_ble_eq_true rfl : 96 + 4 ≤ 512),
    rd16_volumeSuper (Nat.le_of_ble_eq_true rfl : 56 + 2 ≤ 512),
    rd16_volumeSuper (Nat.le_of_ble_eq_true rfl : 88 + 2 ≤ 512),
    fields.inodesCount, fields.blocksCount, fields.firstDataBlock, fields.logBlockSize,
    fields.blocksPerGroup, fields.inodesPerGroup, fields.magic, fields.inodeSize,
    fields.incompat]
  rw [if_neg (by decide), if_neg extents, if_neg (by decide), if_neg (by omega), count]
  rfl

/-! ## The groups -/

theorem mkfsFs_superBlock : (mkfsFs drv blocks).superBlock = 0 := by
  show 1024 / 4096 = 0
  decide

theorem mkfsFs_superOffset : (mkfsFs drv blocks).superOffset = 1024 := by
  show 1024 % 4096 = 1024
  decide

theorem mkfsFs_descBlock : (mkfsFs drv blocks).descBlock = 1 := by
  show (if (4096 : Nat) = 1024 then 2 else 1) = 1
  exact if_neg (by decide)

section Group

variable (fit : MkfsBlocks blocks)

include fit

theorem mkfsFs_groups : (mkfsFs drv blocks).groups = 1 := by
  have low : 512 ≤ blocks := fit.1
  show (blocks - 0 + blocks - 1) / blocks = 1
  exact Nat.div_eq_of_lt_le (by omega) (by omega)

theorem mkfsFs_geometry : Geometry (mkfsFs drv blocks) := by
  obtain ⟨few, many, -⟩ := mkfs_sizes fit
  have groups : (mkfsFs drv blocks).groups = 1 := mkfsFs_groups fit
  obtain ⟨low, high⟩ := fit
  refine {
    superSize := ?_
    blockSize := .inr (.inr rfl)
    inodeSize := ⟨show 0 < 128 by decide, show 128 < 2 ^ 16 by decide⟩
    firstDataBlock := mkfsFs_superBlock.symm
    blocksPerGroup := ⟨show 0 < blocks by omega, show blocks ≤ 8 * 4096 by omega⟩
    inodesPerGroup := ⟨show 0 < mkfsInodes blocks by omega,
      show mkfsInodes blocks ≤ 8 * 4096 by omega⟩
    blocksCount := ⟨show 0 < blocks by omega, show blocks < 2 ^ 32 by omega⟩
    inodesCount := ⟨?_, show mkfsInodes blocks < 2 ^ 32 by omega⟩
    groupCount := ?_ }
  · cases drv with
    | ext2 => exact .inl rfl
    | ext4 => exact .inr rfl
  · show mkfsInodes blocks = _ * mkfsInodes blocks
    rw [groups, Nat.one_mul]
  · show 1 = (blocks + blocks - 1) % 2 ^ 32 / blocks
    rw [Nat.mod_eq_of_lt (by omega)]
    exact (Nat.div_eq_of_lt_le (by omega) (by omega)).symm

omit fit in
theorem groupDesc_mkfs : groupDesc (mkfsFs drv blocks) (mkfsVolume drv blocks old) 0 =
    mkfsDesc blocks := by
  funext i
  unfold groupDesc
  rw [mkfsFs_descBlock, Nat.zero_mul, Nat.zero_div, Nat.zero_mod, Nat.zero_add]
  rfl

/-- The fields of the descriptor. -/
theorem mkfsDesc_fields :
    rd32 (mkfsDesc blocks) bgBlockBitmap = 2 ∧ rd32 (mkfsDesc blocks) bgInodeBitmap = 3 ∧
      rd32 (mkfsDesc blocks) bgInodeTable = 4 ∧
      rd16 (mkfsDesc blocks) bgFreeBlocks = blocks - mkfsUsedBlocks blocks ∧
      rd16 (mkfsDesc blocks) bgFreeInodes = mkfsInodes blocks - mkfsUsedInodes := by
  obtain ⟨-, many, -, -, -, -, used, -⟩ := mkfs_sizes fit
  have most : blocks ≤ 32768 := fit.2
  have offsets : bgBlockBitmap = 0 ∧ bgInodeBitmap = 4 ∧ bgInodeTable = 8 ∧ bgFreeBlocks = 12 ∧
      bgFreeInodes = 14 ∧ bgUsedDirs = 16 := ⟨rfl, rfl, rfl, rfl, rfl, rfl⟩
  obtain ⟨map, inodeMap, table, free, freeInodes, dirs⟩ := offsets
  refine ⟨?_, ?_, ?_, ?_, ?_⟩ <;>
    simp (disch := omega) only [mkfsDesc, map, inodeMap, table, free, freeInodes, dirs,
      rd32_wr32_of_apart, rd32_wr16_of_apart, rd16_wr16_of_apart, rd32_wr32, rd16_wr16]

theorem bitmapBlock_mkfs (k : Kind) :
    bitmapBlock (mkfsFs drv blocks) (mkfsVolume drv blocks old) k 0 =
      if k = .block then 2 else 3 := by
  obtain ⟨map, inodeMap, -⟩ := mkfsDesc_fields fit
  rw [bitmapBlock, groupDesc_mkfs]
  cases k with
  | block => exact map
  | inode => exact inodeMap

/-- The metadata is what is in front of the root directory. -/
theorem metaBlocks_mkfs :
    metaBlocks (mkfsFs drv blocks) (mkfsVolume drv blocks old) =
      List.range' 0 (mkfsRootBlock blocks) := by
  have groups : (mkfsFs drv blocks).groups = 1 := mkfsFs_groups fit
  obtain ⟨-, -, -, -, -, root, -, -⟩ := mkfs_sizes fit
  have descs : (mkfsFs drv blocks).descTableSize = 1 := by
    rw [ExtFs.descTableSize, groups]
    show (1 * 32 + 4096 - 1) / 4096 = 1
    decide
  have maps : mapBlocks (mkfsFs drv blocks) (mkfsVolume drv blocks old) = [0, 1, 2, 3] := by
    rw [mapBlocks, groups, descs, mkfsFs_superBlock, mkfsFs_descBlock]
    simp only [List.range_one, List.flatMap_cons, List.flatMap_nil, bitmapBlock_mkfs fit]
    rfl
  have tables : tableBlocks (mkfsFs drv blocks) (mkfsVolume drv blocks old) =
      List.range' 4 (mkfsTableBlocks blocks) := by
    rw [tableBlocks, groups]
    simp only [List.range_one, List.flatMap_cons, List.flatMap_nil, groupDesc_mkfs,
      (mkfsDesc_fields fit).2.2.1, List.append_nil]
    rfl
  rw [metaBlocks, maps, tables, root, ← List.range'_append_1]
  rfl

theorem blockUsed_mkfs {x : Nat} (lt : x < blocks) :
    blockUsed (mkfsFs drv blocks) (mkfsVolume drv blocks old) x =
      decide (x < mkfsUsedBlocks blocks) := by
  have group : (mkfsFs drv blocks).groupOf x = 0 := Nat.div_eq_of_lt lt
  have bit : (mkfsFs drv blocks).bitOf x = x := Nat.mod_eq_of_lt lt
  rw [blockUsed, group, bit]
  show getBit (mkfsVolume drv blocks old (bitmapBlock _ _ .block 0)) x = _
  rw [bitmapBlock_mkfs fit, if_pos rfl]
  exact getBit_mkfsMap _ _

theorem inodeUsed_mkfs {ino : Nat} (pos : 0 < ino) (le : ino ≤ mkfsInodes blocks) :
    inodeUsed (mkfsFs drv blocks) (mkfsVolume drv blocks old) ino =
      decide (ino ≤ mkfsUsedInodes) := by
  have group : (ino - 1) / (mkfsFs drv blocks).inodesPerGroup = 0 :=
    Nat.div_eq_of_lt (show ino - 1 < mkfsInodes blocks by omega)
  have bit : (ino - 1) % (mkfsFs drv blocks).inodesPerGroup = ino - 1 :=
    Nat.mod_eq_of_lt (show ino - 1 < mkfsInodes blocks by omega)
  rw [inodeUsed, group, bit]
  show getBit (mkfsVolume drv blocks old (bitmapBlock _ _ .inode 0)) (ino - 1) = _
  rw [bitmapBlock_mkfs fit, if_neg (by decide)]
  have map : mkfsVolume drv blocks old 3 = mkfsMap mkfsUsedInodes := rfl
  rw [map, getBit_mkfsMap]
  exact decide_eq_decide.2 (by omega)

/-- The superblock in the volume. -/
theorem extReadSuper_mkfs : SuperFields drv blocks
    (extReadSuper (mkfsFs drv blocks) (mkfsVolume drv blocks old)) := by
  have fields := mkfsSuper_fields drv fit
  have same : extReadSuper (mkfsFs drv blocks) (mkfsVolume drv blocks old) =
      volumeSuper (mkfsVolume drv blocks old) := by
    unfold extReadSuper
    rw [mkfsFs_superBlock, mkfsFs_superOffset]
    rfl
  have offsets : sbFreeBlocks = 12 ∧ sbFreeInodes = 16 ∧ sbFirstIno = 84 := ⟨rfl, rfl, rfl⟩
  rw [same]
  constructor <;> first
    | (rw [rd32_volumeSuper (by omega)]; first
        | exact fields.inodesCount | exact fields.blocksCount | exact fields.freeBlocks
        | exact fields.freeInodes | exact fields.firstDataBlock | exact fields.logBlockSize
        | exact fields.blocksPerGroup | exact fields.inodesPerGroup | exact fields.firstIno
        | exact fields.incompat)
    | (rw [rd16_volumeSuper (by decide)]; first | exact fields.magic | exact fields.inodeSize)

/-- **The formatted volume is consistent.** -/
theorem mkfs_consistent : Consistent (mkfsFs drv blocks) (mkfsVolume drv blocks old) := by
  have geo : Geometry (mkfsFs drv blocks) := mkfsFs_geometry fit
  have groups : (mkfsFs drv blocks).groups = 1 := mkfsFs_groups fit
  have sizes := mkfs_sizes fit
  have desc := mkfsDesc_fields fit
  have super : SuperFields drv blocks
      (extReadSuper (mkfsFs drv blocks) (mkfsVolume drv blocks old)) := extReadSuper_mkfs fit
  obtain ⟨few, many, -, -, -, root, used, lt⟩ := sizes
  have reserved : mkfsUsedInodes = 10 := rfl
  have blocksIn : (mkfsFs drv blocks).blocksIn 0 = blocks := by
    show min blocks (blocks - 0 - 0 * blocks) = blocks
    omega
  have inodesIn : (mkfsFs drv blocks).inodesIn 0 = mkfsInodes blocks := by
    show min (mkfsInodes blocks) (mkfsInodes blocks - 0 * mkfsInodes blocks) = _
    omega
  have blockBits : clear ((pool (mkfsFs drv blocks) (mkfsVolume drv blocks old) .block).used 0)
      blocks = blocks - mkfsUsedBlocks blocks := by
    refine clear_of_prefix (fun b => ?_) (by omega)
    show getBit (mkfsVolume drv blocks old (bitmapBlock _ _ .block 0)) b = _
    rw [bitmapBlock_mkfs fit, if_pos rfl]
    exact getBit_mkfsMap _ _
  have inodeBits : clear ((pool (mkfsFs drv blocks) (mkfsVolume drv blocks old) .inode).used 0)
      (mkfsInodes blocks) = mkfsInodes blocks - mkfsUsedInodes := by
    refine clear_of_prefix (fun b => ?_) (by omega)
    show getBit (mkfsVolume drv blocks old (bitmapBlock _ _ .inode 0)) b = _
    rw [bitmapBlock_mkfs fit, if_neg (by decide)]
    exact getBit_mkfsMap _ _
  refine { geo with distinct := ?_, metaUsed := ?_, reserved := ?_, blocks := ?_, inodes := ?_ }
  · rw [metaBlocks_mkfs fit]
    exact List.nodup_range'
  · intro x mem
    rw [metaBlocks_mkfs fit] at mem
    have inside := (List.mem_range'_1.1 mem).2
    refine ⟨⟨Nat.zero_le x, show x < blocks by omega⟩, ?_⟩
    rw [blockUsed_mkfs fit (by omega)]
    exact decide_eq_true (by omega)
  · intro ino pos before le
    rw [firstInode, super.firstIno, if_neg (by decide)] at before
    rw [inodeUsed_mkfs fit pos le]
    exact decide_eq_true (by omega)
  · constructor
    · intro g ltG
      rw [groups] at ltG
      obtain rfl : g = 0 := by omega
      rw [blocksIn, blockBits]
      show rd16 (groupDesc _ _ 0) bgFreeBlocks = _
      rw [groupDesc_mkfs, desc.2.2.2.1]
    · rw [groups, Finset.sum_range_one, blocksIn, blockBits]
      exact super.freeBlocks
  · constructor
    · intro g ltG
      rw [groups] at ltG
      obtain rfl : g = 0 := by omega
      rw [inodesIn, inodeBits]
      show rd16 (groupDesc _ _ 0) bgFreeInodes = _
      rw [groupDesc_mkfs, desc.2.2.2.2]
    · rw [groups, Finset.sum_range_one, inodesIn, inodeBits]
      exact super.freeInodes

/-! ## The root -/

omit fit in
theorem mkfsVolume_table : mkfsVolume drv blocks old 4 =
    splice zeroed inodeRecordSize inodeRecordSize (mkfsRoot drv blocks) := rfl

theorem mkfsVolume_rootDir :
    mkfsVolume drv blocks old (mkfsRootBlock blocks) = mkfsRootDir := by
  obtain ⟨-, -, -, low, -, root, -, -⟩ := mkfs_sizes fit
  unfold mkfsVolume
  rw [if_neg (by omega), if_neg (by omega), if_neg (by omega), if_neg (by omega),
    if_neg (by omega), if_pos rfl]

omit fit in
/-- The record of the root ends before its 128 bytes do. -/
theorem mkfsRoot_behind {i : Nat} (behind : inodeRecordSize ≤ i) : mkfsRoot drv blocks i = 0 := by
  have size : 128 ≤ i := behind
  have offsets : inMode = 0 ∧ inSize = 4 ∧ inBlocks = 28 ∧ inFlags = 32 ∧ inBlock = 40 :=
    ⟨rfl, rfl, rfl, rfl, rfl⟩
  obtain ⟨mode, sizeAt, blocksAt, flags, block⟩ := offsets
  cases drv <;>
    simp (disch := omega) only [mkfsRoot, mode, sizeAt, blocksAt, flags, block, wr32_of_apart,
      wr16_of_apart, zeroed]

omit fit in
theorem mkfsTable_root (i : Nat) :
    splice zeroed inodeRecordSize inodeRecordSize (mkfsRoot drv blocks) (128 + i) =
      mkfsRoot drv blocks i := by
  rcases Nat.lt_or_ge i inodeRecordSize with lt | ge
  · exact splice_of_mem lt
  · rw [mkfsRoot_behind ge, splice_of_apart]
    · rfl
    · exact .inr (Nat.add_le_add_left ge _)

omit fit in
/-- Where an inode is: the table starts at block 4. -/
theorem inodePlace_mkfs {d : Volume} {ino : Nat}
    (table : rd32 (groupDesc (mkfsFs drv blocks) d 0) bgInodeTable = 4)
    (le : ino ≤ mkfsInodes blocks) (pos : 0 < ino) :
    inodeBlock (mkfsFs drv blocks) d ino = 4 + (ino - 1) * 128 / 4096 ∧
      inodeOffset (mkfsFs drv blocks) ino = (ino - 1) * 128 % 4096 := by
  have group : (ino - 1) / (mkfsFs drv blocks).inodesPerGroup = 0 :=
    Nat.div_eq_of_lt (show ino - 1 < mkfsInodes blocks by omega)
  have bit : (ino - 1) % (mkfsFs drv blocks).inodesPerGroup = ino - 1 :=
    Nat.mod_eq_of_lt (show ino - 1 < mkfsInodes blocks by omega)
  rw [inodeBlock, inodeOffset, group, bit, table]
  exact ⟨rfl, rfl⟩

omit fit in
/-- Every inode of the volume can be read and written. -/
theorem inodeFits_mkfs {ino : Nat} (le : ino ≤ mkfsInodes blocks) (pos : 0 < ino) :
    (mkfsFs drv blocks).DescRead ((ino - 1) / (mkfsFs drv blocks).inodesPerGroup) ∧
      inodeOffset (mkfsFs drv blocks) ino + inodeRecordSize ≤ (mkfsFs drv blocks).blockSize := by
  have group : (ino - 1) / (mkfsFs drv blocks).inodesPerGroup = 0 :=
    Nat.div_eq_of_lt (show ino - 1 < mkfsInodes blocks by omega)
  have bit : (ino - 1) % (mkfsFs drv blocks).inodesPerGroup = ino - 1 :=
    Nat.mod_eq_of_lt (show ino - 1 < mkfsInodes blocks by omega)
  rw [inodeOffset, group, bit]
  constructor
  · show 0 * 32 + 32 ≤ 4096
    omega
  · show (ino - 1) * 128 % 4096 + 128 ≤ 4096
    omega

omit fit in
theorem mkfsRoot_isDir : rd16 (mkfsRoot drv blocks) inMode &&& sIfDir ≠ 0 := by
  have mode : rd16 (mkfsRoot drv blocks) inMode = 0x4000 ||| 0o755 := by
    have offsets : inMode = 0 ∧ inSize = 4 ∧ inBlocks = 28 ∧ inFlags = 32 ∧ inBlock = 40 :=
      ⟨rfl, rfl, rfl, rfl, rfl⟩
    obtain ⟨modeAt, sizeAt, blocksAt, flags, block⟩ := offsets
    cases drv <;>
      simp (disch := decide) only [mkfsRoot, modeAt, sizeAt, blocksAt, flags, block,
        rd16_wr32_of_apart, rd16_wr16_of_apart, rd16_wr16]
  rw [mode]
  decide

/-- The root directory is in a data block that is in use. -/
theorem rootBlock_mkfs :
    DataBlock (mkfsFs drv blocks) (mkfsVolume drv blocks old) (mkfsRootBlock blocks) ∧
      blockUsed (mkfsFs drv blocks) (mkfsVolume drv blocks old) (mkfsRootBlock blocks) = true := by
  obtain ⟨-, -, -, -, -, root, used, lt⟩ := mkfs_sizes fit
  refine ⟨⟨⟨Nat.zero_le _, show mkfsRootBlock blocks < blocks by omega⟩, ?_⟩, ?_⟩
  · rw [metaBlocks_mkfs fit]
    intro mem
    have inside := (List.mem_range'_1.1 mem).2
    omega
  · rw [blockUsed_mkfs fit (by omega)]
    exact decide_eq_true (by omega)

end Group

/-- The records of the root directory. -/
def rootEntries : List DirEntry := [⟨2, 12, 1, 2, dotName⟩, ⟨2, 4084, 2, 2, dotDotName⟩]

theorem rootDir_tiled : Tiled 4096 mkfsRootDir 0 rootEntries := by
  refine ⟨?_, by decide, fun _ => by decide, ?_, by decide, fun _ => by decide, rfl⟩
  · rfl
  · rfl

theorem links_rootEntries : links rootEntries = [(dotName, 2, 2), (dotDotName, 2, 2)] := rfl

end NTux.Ext
