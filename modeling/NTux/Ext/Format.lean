import NTux.Ext.DirEntries
import NTux.Ext.PathFiles

/-!
# Formatting and mounting

`fs_mkfs_ext_like` of `fs/fs.c` makes a volume of one group with blocks of 4096 bytes:
the superblock, the descriptor, the two bitmaps, the inode table and the root directory,
one behind the other.  The mounts read the parameters back from the superblock.

`Formatting` holds the partition as its blocks, and the sectors written so far.
-/

namespace NTux.Ext

open NTux.Lib NTux.Lib.Bytes

/-! ## The parameters -/

/-- `blocks`. -/
def mkfsBlocks (sectors : UInt32) : Nat := sectors.toNat / 8

/-- `inodes`. -/
def mkfsInodes (blocks : Nat) : Nat :=
  let inodes := if blocks * 2 < 4096 then blocks * 2 else 4096
  if inodes < 256 then 256 else inodes

/-- `inode_table_blocks`. -/
def mkfsTableBlocks (blocks : Nat) : Nat := (mkfsInodes blocks * inodeRecordSize + 4096 - 1) / 4096

/-- `root_block`. -/
def mkfsRootBlock (blocks : Nat) : Nat := 4 + mkfsTableBlocks blocks

/-- `used_blocks`. -/
def mkfsUsedBlocks (blocks : Nat) : Nat := mkfsRootBlock blocks + 1

/-- `used_inodes`. -/
def mkfsUsedInodes : Nat := 10

/-! ## The records -/

/-- A bitmap whose first `n` bits are set. -/
def mkfsMap (n : Nat) : Bytes := (List.range n).foldl setBit zeroed

/-- The superblock. -/
def mkfsSuper (drv : Driver) (blocks : Nat) : Bytes :=
  let sb := wr32 zeroed 0 (mkfsInodes blocks)
  let sb := wr32 sb 4 blocks
  let sb := wr32 sb sbFreeBlocks (blocks - mkfsUsedBlocks blocks)
  let sb := wr32 sb sbFreeInodes (mkfsInodes blocks - mkfsUsedInodes)
  let sb := wr32 sb 20 0
  let sb := wr32 sb 24 2
  let sb := wr32 sb 28 2
  let sb := wr32 sb 32 blocks
  let sb := wr32 sb 36 blocks
  let sb := wr32 sb 40 (mkfsInodes blocks)
  let sb := wr16 sb 56 0xEF53
  let sb := wr16 sb 58 1
  let sb := wr16 sb 60 1
  let sb := wr32 sb 76 1
  let sb := wr32 sb sbFirstIno 11
  let sb := wr16 sb 88 inodeRecordSize
  wr32 sb 96 (if drv = .ext4 then 0x42 else 0x02)

/-- The descriptor of the group. -/
def mkfsDesc (blocks : Nat) : Bytes :=
  let bg := wr32 zeroed bgBlockBitmap 2
  let bg := wr32 bg bgInodeBitmap 3
  let bg := wr32 bg bgInodeTable 4
  let bg := wr16 bg bgFreeBlocks (blocks - mkfsUsedBlocks blocks)
  let bg := wr16 bg bgFreeInodes (mkfsInodes blocks - mkfsUsedInodes)
  wr16 bg bgUsedDirs 1

/-- The inode of the root: in `ext4.c` its one block is mapped by an extent. -/
def mkfsRoot (drv : Driver) (blocks : Nat) : Bytes :=
  let root := wr16 zeroed inMode (0x4000 ||| 0o755)
  let root := wr16 root 26 2
  let root := wr32 root inSize 4096
  let root := wr32 root inBlocks (4096 / 512)
  match drv with
  | .ext2 => wr32 root inBlock (mkfsRootBlock blocks)
  | .ext4 =>
      let root := wr32 root inFlags 0x00080000
      let root := wr16 root inBlock 0xF30A
      let root := wr16 root (inBlock + 2) 1
      let root := wr16 root (inBlock + 4) 4
      let root := wr16 root (inBlock + 6) 0
      let root := wr32 root (inBlock + 12) 0
      let root := wr16 root (inBlock + 16) 1
      let root := wr16 root (inBlock + 18) 0
      wr32 root (inBlock + 20) (mkfsRootBlock blocks)

/-- `"."` and `".."`. -/
def dotName : List UInt8 := [46]

@[inherit_doc dotName] def dotDotName : List UInt8 := [46, 46]

/-- The block of the root directory. -/
def mkfsRootDir : Bytes :=
  let buf := putEntry (wr16 zeroed 4 12) 0 2 2 dotName
  putEntry (wr16 buf 16 (4096 - 12)) 12 2 2 dotDotName

/-! ## Writing them -/

/-- The partition, and the runs of sectors written: the first one and how many. -/
structure Formatting where
  vol : Volume
  writes : List (Nat × Nat)

/-- The range check of `fs_block_write` on a drive of `total` sectors. -/
def blockWriteOk (total lba sectors : Nat) : Bool :=
  sectors ≠ 0 && lba < total && sectors ≤ total && lba + sectors ≤ total

/-- `fs_write_block_4k`. -/
def fsWriteBlock4k (total lbaStart : Nat) (s : Formatting) (block : Nat) (data : Bytes) :
    Except Formatting Formatting :=
  if blockWriteOk total (lbaStart + block * 8) 8 then
    .ok ⟨extWriteBlock s.vol block data, s.writes ++ [(lbaStart + block * 8, 8)]⟩
  else .error s

/-- The sector of the superblock is the third one of the partition. -/
def fsWriteSuper (total lbaStart : Nat) (s : Formatting) (sb : Bytes) :
    Except Formatting Formatting :=
  if blockWriteOk total (lbaStart + 2) 1 then
    .ok ⟨extWriteBlock s.vol 0 (splice (s.vol 0) 1024 512 sb), s.writes ++ [(lbaStart + 2, 1)]⟩
  else .error s

/-- The loop that clears the first blocks, from `i` on. -/
def fsZeroBlocks (total lbaStart : Nat) : Nat → Nat → Formatting → Except Formatting Formatting
  | 0, _, s => .ok s
  | n + 1, i, s => do
      let s ← fsWriteBlock4k total lbaStart s i zeroed
      fsZeroBlocks total lbaStart n (i + 1) s

/-- `fs_mkfs_ext_like`; `total` is what `fs_drive_total_sectors` says of the drive. -/
def fsMkfsExtLike (drv : Driver) (total : Option Nat) (lbaStart sectors : UInt32) (s : Formatting) :
    Except Formatting Formatting :=
  match total with
  | none => .error s
  | some total =>
      let lba := lbaStart.toNat
      let blocks := mkfsBlocks sectors
      if sectors.toNat < 4096 ∨ total < lba + sectors.toNat then .error s
      else if blocks < 512 ∨ 32768 < blocks then .error s
      else if blocks ≤ mkfsUsedBlocks blocks then .error s
      else if mkfsInodes blocks ≤ mkfsUsedInodes then .error s
      else do
        let s ← fsZeroBlocks total lba (mkfsUsedBlocks blocks) 0 s
        let s ← fsWriteSuper total lba s (mkfsSuper drv blocks)
        let s ← fsWriteBlock4k total lba s 1 (mkfsDesc blocks)
        let s ← fsWriteBlock4k total lba s 2 (mkfsMap (mkfsUsedBlocks blocks))
        let s ← fsWriteBlock4k total lba s 3 (mkfsMap mkfsUsedInodes)
        let s ← fsWriteBlock4k total lba s 4
          (splice zeroed inodeRecordSize inodeRecordSize (mkfsRoot drv blocks))
        fsWriteBlock4k total lba s (mkfsRootBlock blocks) mkfsRootDir

/-- `ext2_fs_mount` and `ext4_fs_mount`, from the superblock. -/
def extFsMount (drv : Driver) (sb : Bytes) : Except Int ExtFs :=
  let incompat := rd32 sb 96
  let blockSize := 1024 * 2 ^ rd32 sb 24 % 2 ^ 32
  let inodeSize := if rd16 sb 88 = 0 then 128 else rd16 sb 88
  let blocksPerGroup := rd32 sb 32
  if rd16 sb 56 ≠ 0xEF53 then .error (-2)
  else if drv = .ext4 ∧ incompat &&& 0x40 = 0 ∧ incompat &&& 0x80 = 0 ∧ incompat &&& 0x200 = 0 ∧
      rd32 sb 92 &&& 0x4 = 0 then .error (-3)
  else if 4096 < blockSize ∨ blockSize < 1024 then .error (-3)
  else if blocksPerGroup = 0 ∨ rd32 sb 40 = 0 then .error (-4)
  else .ok {
    superSize := if drv = .ext4 then 236 else 204
    blockSize := blockSize
    inodeSize := inodeSize
    blocksPerGroup := blocksPerGroup
    inodesPerGroup := rd32 sb 40
    firstDataBlock := rd32 sb 20
    groupCount := (rd32 sb 4 + blocksPerGroup - 1) % 2 ^ 32 / blocksPerGroup
    blocksCount := rd32 sb 4
    inodesCount := rd32 sb 0
    rootInode := 2 }

/-! ## What formatting leaves -/

/-- The formatted partition. -/
def mkfsVolume (drv : Driver) (blocks : Nat) (old : Volume) : Volume := fun x =>
  if x = 0 then splice zeroed 1024 512 (mkfsSuper drv blocks)
  else if x = 1 then mkfsDesc blocks
  else if x = 2 then mkfsMap (mkfsUsedBlocks blocks)
  else if x = 3 then mkfsMap mkfsUsedInodes
  else if x = 4 then splice zeroed inodeRecordSize inodeRecordSize (mkfsRoot drv blocks)
  else if x = mkfsRootBlock blocks then mkfsRootDir
  else if x < mkfsUsedBlocks blocks then zeroed
  else old x

/-- The parameters of the formatted volume. -/
def mkfsFs (drv : Driver) (blocks : Nat) : ExtFs where
  superSize := if drv = .ext4 then 236 else 204
  blockSize := 4096
  inodeSize := inodeRecordSize
  blocksPerGroup := blocks
  inodesPerGroup := mkfsInodes blocks
  firstDataBlock := 0
  groupCount := 1
  blocksCount := blocks
  inodesCount := mkfsInodes blocks
  rootInode := 2

/-- A number of blocks that `fs_mkfs_ext_like` accepts. -/
def MkfsBlocks (blocks : Nat) : Prop := 512 ≤ blocks ∧ blocks ≤ 32768

/-- The writes are inside the partition. -/
def WritesInside (lba sectors : Nat) (writes : List (Nat × Nat)) : Prop :=
  ∀ w ∈ writes, lba ≤ w.1 ∧ w.1 + w.2 ≤ lba + sectors

section Sizes

variable {blocks : Nat}

/-- The table has a block for every 32 inodes. -/
theorem mkfs_sizes (fit : MkfsBlocks blocks) :
    1024 ≤ mkfsInodes blocks ∧ mkfsInodes blocks ≤ 4096 ∧
      mkfsTableBlocks blocks = (mkfsInodes blocks * 128 + 4095) / 4096 ∧
      32 ≤ mkfsTableBlocks blocks ∧ mkfsTableBlocks blocks ≤ 128 ∧
      mkfsRootBlock blocks = 4 + mkfsTableBlocks blocks ∧
      mkfsUsedBlocks blocks = mkfsRootBlock blocks + 1 ∧ mkfsUsedBlocks blocks < blocks := by
  obtain ⟨low, high⟩ := fit
  have inodes : 1024 ≤ mkfsInodes blocks ∧ mkfsInodes blocks ≤ 4096 := by
    unfold mkfsInodes
    dsimp only
    split <;> split <;> omega
  have table : mkfsTableBlocks blocks = (mkfsInodes blocks * 128 + 4095) / 4096 := rfl
  have root : mkfsRootBlock blocks = 4 + mkfsTableBlocks blocks := rfl
  have used : mkfsUsedBlocks blocks = mkfsRootBlock blocks + 1 := rfl
  omega

end Sizes

/-! ### The writes -/

section Writes

variable {total lba sectors blocks block : Nat} {s : Formatting} {data : Bytes}

theorem fsWriteBlock4k_ok (room : lba + sectors ≤ total) (inside : (block + 1) * 8 ≤ sectors) :
    fsWriteBlock4k total lba s block data =
      .ok ⟨extWriteBlock s.vol block data, s.writes ++ [(lba + block * 8, 8)]⟩ := by
  unfold fsWriteBlock4k
  rw [if_pos]
  simp only [blockWriteOk, Bool.and_eq_true, decide_eq_true_eq]
  omega

theorem WritesInside.concat {writes : List (Nat × Nat)} {w : Nat × Nat}
    (all : WritesInside lba sectors writes) (inside : lba ≤ w.1 ∧ w.1 + w.2 ≤ lba + sectors) :
    WritesInside lba sectors (writes ++ [w]) := by
  intro v mem
  rcases List.mem_append.1 mem with old | new
  · exact all v old
  · rw [List.mem_singleton.1 new]
    exact inside

/-- The loop clears `n` blocks from `i` on. -/
theorem fsZeroBlocks_ok (room : lba + sectors ≤ total) (n i : Nat) (inside : (i + n) * 8 ≤ sectors)
    (all : WritesInside lba sectors s.writes) :
    ∃ s', fsZeroBlocks total lba n i s = .ok s' ∧ WritesInside lba sectors s'.writes ∧
      ∀ x, s'.vol x = if i ≤ x ∧ x < i + n then zeroed else s.vol x := by
  induction n generalizing i s with
  | zero => exact ⟨s, rfl, all, fun x => (if_neg (by omega)).symm⟩
  | succ n ih =>
      have first : fsWriteBlock4k total lba s i zeroed =
          .ok ⟨extWriteBlock s.vol i zeroed, s.writes ++ [(lba + i * 8, 8)]⟩ :=
        fsWriteBlock4k_ok room (show (i + 1) * 8 ≤ sectors by omega)
      obtain ⟨s', rest, within, vol⟩ := ih
        (s := ⟨extWriteBlock s.vol i zeroed, s.writes ++ [(lba + i * 8, 8)]⟩) (i + 1) (by omega)
        (all.concat (by dsimp only; omega))
      refine ⟨s', ?_, within, ?_⟩
      · rw [fsZeroBlocks, first]
        exact rest
      · intro x
        rw [vol x]
        by_cases same : x = i
        · subst same
          rw [if_neg (by omega), if_pos (by omega)]
          exact Function.update_self _ _ _
        · have other : extWriteBlock s.vol i zeroed x = s.vol x := Function.update_of_ne same _ _
          dsimp only
          rw [other]
          by_cases mem : i + 1 ≤ x ∧ x < i + 1 + n
          · rw [if_pos mem, if_pos (by omega)]
          · rw [if_neg mem, if_neg (by omega)]

end Writes

/-- Where it succeeds, the format writes inside the partition, and leaves the formatted
volume. -/
theorem fsMkfsExtLike_ok {drv : Driver} {total : Option Nat} {lbaStart sectors : UInt32}
    {old : Volume} {s : Formatting}
    (done : fsMkfsExtLike drv total lbaStart sectors ⟨old, []⟩ = .ok s) :
    MkfsBlocks (mkfsBlocks sectors) ∧ s.vol = mkfsVolume drv (mkfsBlocks sectors) old ∧
      WritesInside lbaStart.toNat sectors.toNat s.writes := by
  unfold fsMkfsExtLike at done
  cases total with
  | none => cases done
  | some total =>
      dsimp only at done
      split at done
      · cases done
      rename_i large
      split at done
      · cases done
      rename_i some'
      split at done
      · cases done
      split at done
      · cases done
      have fit : MkfsBlocks (mkfsBlocks sectors) := ⟨by omega, by omega⟩
      obtain ⟨-, -, -, low, -, root, used, lt⟩ := mkfs_sizes fit
      have room : lbaStart.toNat + sectors.toNat ≤ total := by omega
      have size : mkfsBlocks sectors * 8 ≤ sectors.toNat := Nat.div_mul_le_self _ _
      generalize lbaStart.toNat = lba at *
      generalize sectors.toNat = n at *
      generalize mkfsBlocks sectors = blocks at *
      obtain ⟨s₀, zero, inside, vol⟩ := fsZeroBlocks_ok (s := ⟨old, []⟩) room
        (mkfsUsedBlocks blocks) 0 (by omega) (fun _ mem => absurd mem (List.not_mem_nil))
      have super : fsWriteSuper total lba s₀ (mkfsSuper drv blocks) =
          .ok ⟨extWriteBlock s₀.vol 0 (splice (s₀.vol 0) 1024 512 (mkfsSuper drv blocks)),
            s₀.writes ++ [(lba + 2, 1)]⟩ := by
        unfold fsWriteSuper
        rw [if_pos]
        simp only [blockWriteOk, Bool.and_eq_true, decide_eq_true_eq]
        omega
      rw [zero] at done
      simp only [bind, Except.bind, super] at done
      rw [fsWriteBlock4k_ok room (by omega)] at done
      dsimp only at done
      rw [fsWriteBlock4k_ok room (by omega)] at done
      dsimp only at done
      rw [fsWriteBlock4k_ok room (by omega)] at done
      dsimp only at done
      rw [fsWriteBlock4k_ok room (by omega)] at done
      dsimp only at done
      rw [fsWriteBlock4k_ok room (by omega)] at done
      obtain rfl := Except.ok.inj done
      refine ⟨fit, ?_, ?_⟩
      · have zeroth : s₀.vol 0 = zeroed := by
          rw [vol 0, if_pos (by omega)]
        funext x
        simp only [extWriteBlock, Function.update_apply, mkfsVolume, zeroth, vol x]
        by_cases rootDir : x = mkfsRootBlock blocks
        · rw [if_pos rootDir, if_neg (by omega), if_neg (by omega), if_neg (by omega),
            if_neg (by omega), if_neg (by omega), if_pos rootDir]
        · rw [if_neg rootDir, if_neg rootDir]
          by_cases four : x = 4
          · subst four
            rfl
          by_cases three : x = 3
          · subst three
            rfl
          by_cases two : x = 2
          · subst two
            rfl
          by_cases one : x = 1
          · subst one
            rfl
          rw [if_neg four, if_neg three, if_neg two, if_neg one, if_neg one, if_neg two,
            if_neg three, if_neg four]
          simp only [Nat.zero_le, true_and, Nat.zero_add]
      · refine (((((inside.concat ?_).concat ?_).concat ?_).concat ?_).concat ?_).concat ?_ <;>
          dsimp only <;> omega

end NTux.Ext
