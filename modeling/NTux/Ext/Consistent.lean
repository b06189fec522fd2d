import NTux.Ext.Volume
import NTux.Lib.BitPool

/-!
# Consistent ext volumes

Where the metadata of an ext volume lies (`metaBlocks`), what its bitmaps and counters
say (`pool`), and when they fit together (`Consistent`).  The groups, their blocks and
their inodes are counted as the format has them; the last group may be short.
-/

namespace NTux.Ext

open NTux.Lib NTux.Lib.Bytes

namespace ExtFs

variable (fs : ExtFs)

/-- The number of groups of the volume. -/
def groups : Nat := (fs.blocksCount - fs.firstDataBlock + fs.blocksPerGroup - 1) / fs.blocksPerGroup

/-- The number of blocks of a group. -/
def blocksIn (g : Nat) : Nat :=
  min fs.blocksPerGroup (fs.blocksCount - fs.firstDataBlock - g * fs.blocksPerGroup)

/-- The number of inodes of a group. -/
def inodesIn (g : Nat) : Nat := min fs.inodesPerGroup (fs.inodesCount - g * fs.inodesPerGroup)

/-- The number of blocks of an inode table. -/
def tableSize : Nat := (fs.inodesPerGroup * fs.inodeSize + fs.blockSize - 1) / fs.blockSize

/-- The number of blocks of the descriptor table. -/
def descTableSize : Nat := (fs.groups * bgDescSize + fs.blockSize - 1) / fs.blockSize

/-- The group of a block. -/
def groupOf (x : Nat) : Nat := (x - fs.firstDataBlock) / fs.blocksPerGroup

/-- The place of a block in its group. -/
def bitOf (x : Nat) : Nat := (x - fs.firstDataBlock) % fs.blocksPerGroup

/-- The block is one of the volume. -/
def HasBlock (x : Nat) : Prop := fs.firstDataBlock ≤ x ∧ x < fs.blocksCount

end ExtFs

variable (fs : ExtFs) (d : Volume)

/-- The descriptor of a group, anywhere in the descriptor table. -/
def groupDesc (g : Nat) : Bytes := fun i =>
  d (fs.descBlock + g * bgDescSize / fs.blockSize) (g * bgDescSize % fs.blockSize + i)

/-- The kinds of items that are allocated. -/
inductive Kind
  | block
  | inode
  deriving DecidableEq

/-- The number of items of a kind in a group. -/
def ExtFs.itemsIn : Kind → Nat → Nat
  | .block => fs.blocksIn
  | .inode => fs.inodesIn

/-- Where a group descriptor points to the bitmap of a kind. -/
def Kind.bitmap : Kind → Nat
  | .block => bgBlockBitmap
  | .inode => bgInodeBitmap

/-- Where a group descriptor counts the free items of a kind. -/
def Kind.free : Kind → Nat
  | .block => bgFreeBlocks
  | .inode => bgFreeInodes

/-- Where the superblock counts the free items of a kind. -/
def Kind.total : Kind → Nat
  | .block => sbFreeBlocks
  | .inode => sbFreeInodes

/-- The bitmap of a kind in a group. -/
def bitmapBlock (k : Kind) (g : Nat) : Nat := rd32 (groupDesc fs d g) k.bitmap

/-- What the volume says about a kind of items. -/
def pool (k : Kind) : BitPool where
  used g b := getBit (d (bitmapBlock fs d k g)) b
  free g := rd16 (groupDesc fs d g) k.free
  total := rd32 (extReadSuper fs d) k.total

/-- A block is marked as used. -/
def blockUsed (x : Nat) : Bool := (pool fs d .block).used (fs.groupOf x) (fs.bitOf x)

/-- An inode is marked as used. -/
def inodeUsed (ino : Nat) : Bool :=
  (pool fs d .inode).used ((ino - 1) / fs.inodesPerGroup) ((ino - 1) % fs.inodesPerGroup)

/-- The superblock's block, the descriptor table and the bitmaps: what the allocators
write. -/
def mapBlocks : List Nat :=
  fs.superBlock :: List.range' fs.descBlock fs.descTableSize ++
    (List.range fs.groups).flatMap fun g => [bitmapBlock fs d .block g, bitmapBlock fs d .inode g]

/-- The inode tables. -/
def tableBlocks : List Nat :=
  (List.range fs.groups).flatMap fun g =>
    List.range' (rd32 (groupDesc fs d g) bgInodeTable) fs.tableSize

/-- The metadata blocks. -/
def metaBlocks : List Nat := mapBlocks fs d ++ tableBlocks fs d

/-- The first inode that is not reserved. -/
def firstInode : Nat :=
  if rd32 (extReadSuper fs d) sbFirstIno = 0 then 11 else rd32 (extReadSuper fs d) sbFirstIno

/-- The parameters of a mounted volume. -/
structure Geometry : Prop where
  superSize : fs.superSize = 204 ∨ fs.superSize = 236
  blockSize : fs.blockSize = 1024 ∨ fs.blockSize = 2048 ∨ fs.blockSize = 4096
  inodeSize : 0 < fs.inodeSize ∧ fs.inodeSize < 2 ^ 16
  firstDataBlock : fs.firstDataBlock = fs.superBlock
  blocksPerGroup : 0 < fs.blocksPerGroup ∧ fs.blocksPerGroup ≤ 8 * fs.blockSize
  inodesPerGroup : 0 < fs.inodesPerGroup ∧ fs.inodesPerGroup ≤ 8 * fs.blockSize
  blocksCount : fs.firstDataBlock < fs.blocksCount ∧ fs.blocksCount < 2 ^ 32
  inodesCount : fs.inodesCount = fs.groups * fs.inodesPerGroup ∧ fs.inodesCount < 2 ^ 32
  groupCount : fs.groupCount =
    (fs.blocksCount + fs.blocksPerGroup - 1) % 2 ^ 32 / fs.blocksPerGroup

/-- A consistent volume: the metadata blocks are distinct blocks of the volume and marked
as used, so are the reserved inodes, and the counters are right. -/
structure Consistent : Prop extends Geometry fs where
  distinct : (metaBlocks fs d).Nodup
  metaUsed : ∀ x ∈ metaBlocks fs d, fs.HasBlock x ∧ blockUsed fs d x = true
  reserved : ∀ ino, 0 < ino → ino < firstInode fs d → ino ≤ fs.inodesCount →
    inodeUsed fs d ino = true
  blocks : (pool fs d .block).Counted fs.blocksIn fs.groups
  inodes : (pool fs d .inode).Counted fs.inodesIn fs.groups

/-- The descriptor of the group is in the one block of the table the drivers look at. -/
def ExtFs.DescRead (g : Nat) : Prop := g * bgDescSize + bgDescSize ≤ fs.blockSize

/-- The allocators look at the group. -/
def ExtFs.Searched (g : Nat) : Prop := g < fs.groups ∧ g < fs.groupCount ∧ fs.DescRead g

instance (g : Nat) : Decidable (fs.DescRead g) := inferInstanceAs (Decidable (_ ≤ _))

variable {fs d}

/-! ## Geometry -/

namespace Geometry

theorem fdb_le (geo : Geometry fs) : fs.firstDataBlock ≤ 1 := by
  rw [geo.firstDataBlock, ExtFs.superBlock]
  rcases geo.blockSize with eq | eq | eq <;> rw [eq] <;> decide

theorem superBlock_lt (geo : Geometry fs) : fs.superBlock < fs.descBlock := by
  unfold ExtFs.descBlock ExtFs.superBlock
  rcases geo.blockSize with eq | eq | eq <;> rw [eq] <;> decide

/-- The groups the drivers reach are few. -/
theorem descRead_le {g : Nat} (geo : Geometry fs) (read : fs.DescRead g) : g ≤ 127 := by
  unfold ExtFs.DescRead bgDescSize at read
  rcases geo.blockSize with eq | eq | eq <;> omega

/-- The other descriptors are behind the first block of the table. -/
theorem div_pos_of_not_descRead {g : Nat} (geo : Geometry fs) (past : ¬ fs.DescRead g) :
    0 < g * bgDescSize / fs.blockSize := by
  unfold ExtFs.DescRead bgDescSize at past
  unfold bgDescSize
  refine Nat.div_pos ?_ ?_ <;> rcases geo.blockSize with eq | eq | eq <;> omega

/-- The groups cover the blocks. -/
theorem groups_mul (geo : Geometry fs) :
    fs.blocksCount - fs.firstDataBlock ≤ fs.groups * fs.blocksPerGroup ∧
      fs.groups * fs.blocksPerGroup < fs.blocksCount - fs.firstDataBlock + fs.blocksPerGroup := by
  have pos := geo.blocksPerGroup.1
  have some := geo.blocksCount.1
  have low := Nat.div_mul_le_self
    (fs.blocksCount - fs.firstDataBlock + fs.blocksPerGroup - 1) fs.blocksPerGroup
  have high := Nat.lt_div_mul_add pos
    (a := fs.blocksCount - fs.firstDataBlock + fs.blocksPerGroup - 1)
  unfold ExtFs.groups
  omega

theorem groups_pos (geo : Geometry fs) : 0 < fs.groups := by
  have covered := geo.groups_mul.1
  have some := geo.blocksCount.1
  rcases Nat.eq_zero_or_pos fs.groups with zero | pos
  · rw [zero] at covered
    omega
  · exact pos

theorem mul_lt {g : Nat} (geo : Geometry fs) (lt : g < fs.groups) :
    g * fs.blocksPerGroup < fs.blocksCount - fs.firstDataBlock := by
  have next := Nat.mul_le_mul_right fs.blocksPerGroup (Nat.succ_le_of_lt lt)
  have high := geo.groups_mul.2
  rw [Nat.succ_mul] at next
  omega

theorem group_lt {x : Nat} (geo : Geometry fs) (has : fs.HasBlock x) :
    fs.groupOf x < fs.groups ∧ fs.bitOf x < fs.blocksIn (fs.groupOf x) := by
  obtain ⟨le, lt⟩ := has
  have pos := geo.blocksPerGroup.1
  have covered := geo.groups_mul.1
  have split := Nat.div_add_mod' (x - fs.firstDataBlock) fs.blocksPerGroup
  have bit := Nat.mod_lt (x - fs.firstDataBlock) pos
  refine ⟨Nat.div_lt_of_lt_mul ?_, ?_⟩
  · rw [Nat.mul_comm]
    omega
  · unfold ExtFs.bitOf ExtFs.blocksIn ExtFs.groupOf
    omega

/-- A block is given by its group and its place in it. -/
theorem block_eq {g b : Nat} (lt : b < fs.blocksIn g) :
    fs.HasBlock (fs.firstDataBlock + g * fs.blocksPerGroup + b) ∧
      fs.groupOf (fs.firstDataBlock + g * fs.blocksPerGroup + b) = g ∧
      fs.bitOf (fs.firstDataBlock + g * fs.blocksPerGroup + b) = b := by
  unfold ExtFs.blocksIn at lt
  have bit : b < fs.blocksPerGroup := by omega
  have rel : fs.firstDataBlock + g * fs.blocksPerGroup + b - fs.firstDataBlock =
      b + g * fs.blocksPerGroup := by omega
  refine ⟨⟨by omega, by omega⟩, ?_, ?_⟩
  · unfold ExtFs.groupOf
    rw [rel, Nat.add_mul_div_right _ _ (by omega), Nat.div_eq_of_lt bit, Nat.zero_add]
  · unfold ExtFs.bitOf
    rw [rel, Nat.add_mul_mod_self_right, Nat.mod_eq_of_lt bit]

theorem eq_of_group_bit {x y : Nat} (hx : fs.HasBlock x) (hy : fs.HasBlock y)
    (group : fs.groupOf x = fs.groupOf y) (bit : fs.bitOf x = fs.bitOf y) : x = y := by
  have splitX := Nat.div_add_mod' (x - fs.firstDataBlock) fs.blocksPerGroup
  have splitY := Nat.div_add_mod' (y - fs.firstDataBlock) fs.blocksPerGroup
  unfold ExtFs.groupOf at group
  unfold ExtFs.bitOf at bit
  rw [group, bit, splitY] at splitX
  have leX := hx.1
  have leY := hy.1
  omega

/-- Every group is full of inodes. -/
theorem inodesIn_eq {g : Nat} (geo : Geometry fs) (lt : g < fs.groups) :
    fs.inodesIn g = fs.inodesPerGroup := by
  have next := Nat.mul_le_mul_right fs.inodesPerGroup (Nat.succ_le_of_lt lt)
  rw [Nat.succ_mul] at next
  unfold ExtFs.inodesIn
  rw [geo.inodesCount.1]
  omega

theorem per_le (geo : Geometry fs) :
    fs.blocksPerGroup ≤ 32768 ∧ fs.inodesPerGroup ≤ 32768 := by
  have blocks := geo.blocksPerGroup.2
  have inodes := geo.inodesPerGroup.2
  rcases geo.blockSize with eq | eq | eq <;> omega

/-- In the groups the drivers reach nothing overflows. -/
theorem small {g : Nat} (geo : Geometry fs) (read : fs.DescRead g) :
    g * fs.blocksPerGroup ≤ 2 ^ 22 ∧ g * fs.inodesPerGroup ≤ 2 ^ 22 := by
  have le := geo.descRead_le read
  have blocks := Nat.mul_le_mul le geo.per_le.1
  have inodes := Nat.mul_le_mul le geo.per_le.2
  omega

/-- The drivers count at most one group too many, -/
theorem groupCount_le (geo : Geometry fs) : fs.groupCount ≤ fs.groups + 1 := by
  have pos := geo.blocksPerGroup.1
  have first := geo.fdb_le
  rw [geo.groupCount]
  refine Nat.le_trans (Nat.div_le_div_right (Nat.mod_le _ _)) ?_
  unfold ExtFs.groups
  rw [← Nat.add_div_right _ pos]
  exact Nat.div_le_div_right (by omega)

/-- The blocks of the groups are no more than the blocks of the volume. -/
theorem sum_blocksIn_le (fs : ExtFs) :
    ∑ g ∈ Finset.range fs.groups, fs.blocksIn g ≤ fs.blocksCount - fs.firstDataBlock := by
  have partial' : ∀ n, ∑ g ∈ Finset.range n, fs.blocksIn g ≤
      min (n * fs.blocksPerGroup) (fs.blocksCount - fs.firstDataBlock) := by
    intro n
    induction n with
    | zero => simp
    | succ n ih =>
        rw [Finset.sum_range_succ, Nat.succ_mul]
        unfold ExtFs.blocksIn at ih ⊢
        omega
  exact Nat.le_trans (partial' fs.groups) (Nat.min_le_right _ _)

end Geometry

/-! ## Where the metadata is -/

section Places

variable {g g' x : Nat} {k k' : Kind}

theorem superBlock_mem : fs.superBlock ∈ mapBlocks fs d := by
  simp [mapBlocks]

theorem bitmapBlock_mem (lt : g < fs.groups) (k : Kind) : bitmapBlock fs d k g ∈ mapBlocks fs d := by
  unfold mapBlocks
  refine List.mem_append_right _ (List.mem_flatMap.2 ⟨g, List.mem_range.2 lt, ?_⟩)
  cases k <;> simp

theorem Geometry.desc_mem_table (geo : Geometry fs) (lt : g < fs.groups) :
    fs.descBlock + g * bgDescSize / fs.blockSize ∈
      List.range' fs.descBlock fs.descTableSize := by
  have pos : 0 < fs.blockSize := by
    rcases geo.blockSize with eq | eq | eq <;> omega
  have inTable : g * bgDescSize / fs.blockSize < fs.descTableSize := by
    unfold ExtFs.descTableSize
    rw [Nat.div_lt_iff_lt_mul pos]
    have next := Nat.mul_le_mul_right bgDescSize (Nat.succ_le_of_lt lt)
    have covered := Nat.lt_div_mul_add pos (a := fs.groups * bgDescSize + fs.blockSize - 1)
    rw [Nat.succ_mul] at next
    unfold bgDescSize at next covered ⊢
    omega
  exact List.mem_range'_1.2 ⟨Nat.le_add_right _ _, Nat.add_lt_add_left inTable _⟩

theorem descBlock_mem (geo : Geometry fs) (lt : g < fs.groups) :
    fs.descBlock + g * bgDescSize / fs.blockSize ∈ mapBlocks fs d :=
  List.mem_append_left _ (List.mem_cons_of_mem _ (geo.desc_mem_table lt))

theorem mapBlocks_subset (mem : x ∈ mapBlocks fs d) : x ∈ metaBlocks fs d :=
  List.mem_append_left _ mem

variable (distinct : (metaBlocks fs d).Nodup)

include distinct

theorem map_nodup : (mapBlocks fs d).Nodup := (List.nodup_append.1 distinct).1

theorem bitmapBlock_ne_super (lt : g < fs.groups) : bitmapBlock fs d k g ≠ fs.superBlock := by
  have nodup := map_nodup distinct
  unfold mapBlocks at nodup
  rw [List.cons_append, List.nodup_cons, List.mem_append] at nodup
  intro eq
  refine nodup.1 (.inr (List.mem_flatMap.2 ⟨g, List.mem_range.2 lt, ?_⟩))
  rw [← eq]
  cases k <;> simp

theorem bitmapBlock_ne_desc (geo : Geometry fs) (lt : g < fs.groups) (ltH : g' < fs.groups) :
    bitmapBlock fs d k g ≠ fs.descBlock + g' * bgDescSize / fs.blockSize := by
  have nodup := map_nodup distinct
  unfold mapBlocks at nodup
  have apart := (List.nodup_append.1 nodup).2.2
  intro eq
  refine apart _ (List.mem_cons_of_mem _ (geo.desc_mem_table ltH)) _ ?_ rfl
  refine List.mem_flatMap.2 ⟨g, List.mem_range.2 lt, ?_⟩
  rw [← eq]
  cases k <;> simp

theorem bitmapBlock_ne_descBlock (geo : Geometry fs) (lt : g < fs.groups) :
    bitmapBlock fs d k g ≠ fs.descBlock := by
  have ne := bitmapBlock_ne_desc (k := k) distinct geo lt geo.groups_pos
  rwa [Nat.zero_mul, Nat.zero_div, Nat.add_zero] at ne

theorem bitmapBlock_inj (ltG : g < fs.groups) (ltH : g' < fs.groups)
    (eq : bitmapBlock fs d k g = bitmapBlock fs d k' g') : k = k' ∧ g = g' := by
  have nodup := map_nodup distinct
  unfold mapBlocks at nodup
  obtain ⟨each, apart⟩ := List.nodup_flatMap.1 (List.nodup_append.1 nodup).2.1
  have mem : ∀ (k : Kind) (g : Nat), bitmapBlock fs d k g ∈
      [bitmapBlock fs d .block g, bitmapBlock fs d .inode g] := by
    intro k g
    cases k <;> simp
  have same : g = g' := by
    by_contra ne
    rcases Nat.lt_or_gt_of_ne ne with before | after
    · have disjoint := (List.pairwise_iff_getElem.1 apart) g g' (by simpa) (by simpa) before
      simp only [List.getElem_range] at disjoint
      exact disjoint (mem k g) (eq ▸ mem k' g')
    · have disjoint := (List.pairwise_iff_getElem.1 apart) g' g (by simpa) (by simpa) after
      simp only [List.getElem_range] at disjoint
      exact disjoint (mem k' g') (eq ▸ mem k g)
  subst same
  refine ⟨?_, rfl⟩
  have two := each g (List.mem_range.2 ltG)
  simp only [List.nodup_cons, List.mem_singleton] at two
  cases k <;> cases k' <;> first | rfl | exact absurd eq two.1 | exact absurd eq.symm two.1

end Places

end NTux.Ext
