import NTux.Ext.FileBlocks

/-!
# The inode tables

The inodes lie in the inode tables, apart from the bitmaps and from the blocks of files,
so writing an inode keeps the volume consistent and the contents of files as they are
(`extWriteInode_ok`), and it is read back as it was written (`extReadInode_written`).
-/

namespace NTux.Ext

open NTux.Lib NTux.Lib.Bytes

variable {fs : ExtFs} {d d' : Volume} {ino : Nat}

/-- The volume has the inode. -/
def ExtFs.HasInode (fs : ExtFs) (ino : Nat) : Prop := 0 < ino ∧ ino ≤ fs.inodesCount

/-- The block of an inode. -/
def inodeBlock (fs : ExtFs) (d : Volume) (ino : Nat) : Nat :=
  rd32 (groupDesc fs d ((ino - 1) / fs.inodesPerGroup)) bgInodeTable +
    (ino - 1) % fs.inodesPerGroup * fs.inodeSize / fs.blockSize

/-- The offset of an inode in its block. -/
def inodeOffset (fs : ExtFs) (ino : Nat) : Nat :=
  (ino - 1) % fs.inodesPerGroup * fs.inodeSize % fs.blockSize

theorem inodeBlock_mem (geo : Geometry fs) (has : fs.HasInode ino) :
    inodeBlock fs d ino ∈ tableBlocks fs d := by
  obtain ⟨ltG, -⟩ := inode_lt geo has.1 has.2
  have pos : 0 < fs.blockSize := by
    rcases geo.blockSize with eq | eq | eq <;> omega
  have ltI := Nat.mod_lt (ino - 1) geo.inodesPerGroup.1
  have next := Nat.mul_le_mul_right fs.inodeSize (Nat.succ_le_of_lt ltI)
  rw [Nat.succ_mul] at next
  have size := geo.inodeSize.1
  unfold tableBlocks inodeBlock
  refine List.mem_flatMap.2 ⟨_, List.mem_range.2 ltG, List.mem_range'_1.2 ⟨Nat.le_add_right _ _,
    Nat.add_lt_add_left ?_ _⟩⟩
  unfold ExtFs.tableSize
  rw [Nat.div_lt_iff_lt_mul pos]
  have covered := Nat.lt_div_mul_add pos (a := fs.inodesPerGroup * fs.inodeSize + fs.blockSize - 1)
  omega

theorem extInodePlace_eq (ok : Consistent fs d) (has : fs.HasInode ino) :
    extInodePlace fs (groupDesc fs d ((ino - 1) / fs.inodesPerGroup)) ino =
      (inodeBlock fs d ino, inodeOffset fs ino) := by
  have ltI := Nat.mod_lt (ino - 1) ok.inodesPerGroup.1
  have small : (ino - 1) % fs.inodesPerGroup * fs.inodeSize < 2 ^ 32 := by
    have per := ok.toGeometry.per_le.2
    have size := ok.inodeSize.2
    have le := Nat.mul_le_mul (show (ino - 1) % fs.inodesPerGroup ≤ 32768 by omega)
      (show fs.inodeSize ≤ 65536 by omega)
    omega
  have mem := inodeBlock_mem (d := d) ok.toGeometry has
  have inVolume := (ok.metaUsed _ (List.mem_append_right _ mem)).1.2
  have few := ok.blocksCount.2
  unfold extInodePlace
  unfold inodeBlock at inVolume ⊢
  have block : (rd32 (groupDesc fs d ((ino - 1) / fs.inodesPerGroup)) bgInodeTable +
      (ino - 1) % fs.inodesPerGroup * fs.inodeSize / fs.blockSize) % 2 ^ 32 = _ :=
    Nat.mod_eq_of_lt (Nat.lt_trans inVolume few)
  simp only [Nat.mod_eq_of_lt small, block]
  rfl

/-- The two ways to the table find an inode at one place, or none. -/
theorem inodePlaced_eq {α : Type} (ok : Consistent fs d) (has : fs.HasInode ino)
    (f : Nat → Nat → α) :
    (if ino = 0 then none
      else (extReadBgDesc fs d ((ino - 1) / fs.inodesPerGroup)).bind fun bg =>
        if fs.blockSize < (extInodePlace fs bg ino).2 + inodeRecordSize then none
        else some (f (extInodePlace fs bg ino).1 (extInodePlace fs bg ino).2)) =
      if fs.DescRead ((ino - 1) / fs.inodesPerGroup) ∧
          inodeOffset fs ino + inodeRecordSize ≤ fs.blockSize then
        some (f (inodeBlock fs d ino) (inodeOffset fs ino))
      else none := by
  rw [if_neg (Nat.ne_of_gt has.1)]
  by_cases read : fs.DescRead ((ino - 1) / fs.inodesPerGroup)
  · rw [extReadBgDesc_eq read]
    simp only [Option.bind_some, extInodePlace_eq ok has]
    by_cases fits : inodeOffset fs ino + inodeRecordSize ≤ fs.blockSize
    · rw [if_neg (by omega), if_pos ⟨read, fits⟩]
    · rw [if_pos (by omega), if_neg fun both => fits both.2]
  · rw [extReadBgDesc_none read, if_neg fun both => read both.1]
    rfl

theorem extReadInode_eq (ok : Consistent fs d) (has : fs.HasInode ino) :
    extReadInode fs d ino =
      if fs.DescRead ((ino - 1) / fs.inodesPerGroup) ∧
          inodeOffset fs ino + inodeRecordSize ≤ fs.blockSize then
        some fun i => d (inodeBlock fs d ino) (inodeOffset fs ino + i)
      else none :=
  inodePlaced_eq ok has fun block inner i => d block (inner + i)

theorem extWriteInode_eq (ok : Consistent fs d) (has : fs.HasInode ino) {inode : Bytes} :
    extWriteInode fs d ino inode =
      if fs.DescRead ((ino - 1) / fs.inodesPerGroup) ∧
          inodeOffset fs ino + inodeRecordSize ≤ fs.blockSize then
        some (extWriteBlock d (inodeBlock fs d ino) (splice (d (inodeBlock fs d ino))
          (inodeOffset fs ino) inodeRecordSize inode))
      else none :=
  inodePlaced_eq ok has fun block inner =>
    extWriteBlock d block (splice (d block) inner inodeRecordSize inode)

theorem SamePlaces.inodeBlock_eq (same : SamePlaces fs d d') (geo : Geometry fs)
    (has : fs.HasInode ino) : inodeBlock fs d' ino = inodeBlock fs d ino := by
  unfold inodeBlock
  rw [same.table _ (inode_lt geo has.1 has.2).1]

theorem inodeBlock_not_map (ok : Consistent fs d) (has : fs.HasInode ino) :
    inodeBlock fs d ino ∉ mapBlocks fs d := fun mem =>
  (List.nodup_append.1 ok.distinct).2.2 _ mem _ (inodeBlock_mem ok.toGeometry has) rfl

/-- An inode has been written, and nothing else. -/
structure InodeWritten (fs : ExtFs) (d : Volume) (ino : Nat) (inode : Bytes) (d' : Volume) :
    Prop where
  consistent : Consistent fs d'
  used : ∀ y, fs.HasBlock y → blockUsed fs d' y = blockUsed fs d y
  inodes : ∀ i, 0 < i → i ≤ fs.inodesCount → inodeUsed fs d' i = inodeUsed fs d i
  places : SamePlaces fs d d'
  data : ∀ x, DataBlock fs d x → d' x = d x
  read : ∃ inode', extReadInode fs d' ino = some inode' ∧
    ∀ k, k < inodeRecordSize → inode' k = inode k

theorem extWriteInode_ok {inode : Bytes} (ok : Consistent fs d) (has : fs.HasInode ino)
    (eq : extWriteInode fs d ino inode = some d') : InodeWritten fs d ino inode d' := by
  rw [extWriteInode_eq ok has] at eq
  split at eq
  next fits =>
    obtain rfl := Option.some.inj eq
    have off := inodeBlock_not_map ok has
    obtain ⟨consistent, used, inodes, places⟩ := write_frame ok off

    refine ⟨consistent, used, inodes, places, fun x data => ?_, ?_⟩
    · refine Function.update_of_ne (fun eq => data.2 ?_) _ _
      rw [eq]
      exact List.mem_append_right _ (inodeBlock_mem ok.toGeometry has)
    · refine ⟨_, by rw [extReadInode_eq consistent has, if_pos fits], fun k lt => ?_⟩
      rw [places.inodeBlock_eq ok.toGeometry has, extWriteBlock, Function.update_self]
      exact splice_of_mem lt
  · exact absurd eq (by simp)

end NTux.Ext
