import NTux.Ext.Consistent

/-!
# The allocators

Every allocation and every release changes one bitmap, one group descriptor and the
superblock (`commit`), and an allocated block is cleared.  `commit_pool` says what that
does to the two pools, and the specifications of the four functions follow
(`extAllocBlock_ok`, `extFreeBlock_ok`, …): each keeps the volume consistent, and each
is a `take` or a `give` of its pool.
-/

namespace NTux.Ext

open NTux.Lib NTux.Lib.Bytes

variable {fs : ExtFs} {d d' d'' : Volume}

/-! ## Changes outside the metadata -/

section Frame

variable {g : Nat} {k : Kind}

theorem groupDesc_congr (geo : Geometry fs) (same : ∀ x ∈ mapBlocks fs d, d' x = d x)
    (lt : g < fs.groups) : groupDesc fs d' g = groupDesc fs d g := by
  funext i
  unfold groupDesc
  rw [same _ (descBlock_mem geo lt)]

theorem extReadSuper_congr (same : ∀ x ∈ mapBlocks fs d, d' x = d x) :
    extReadSuper fs d' = extReadSuper fs d := by
  funext i
  unfold extReadSuper
  rw [same _ superBlock_mem]

theorem bitmapBlock_congr (geo : Geometry fs) (same : ∀ x ∈ mapBlocks fs d, d' x = d x)
    (lt : g < fs.groups) : bitmapBlock fs d' k g = bitmapBlock fs d k g := by
  rw [bitmapBlock, bitmapBlock, groupDesc_congr geo same lt]

theorem pool_congr (geo : Geometry fs) (same : ∀ x ∈ mapBlocks fs d, d' x = d x) (k : Kind)
    (size : Nat → Nat) : (pool fs d' k).Agree (pool fs d k) size fs.groups := by
  refine ⟨fun g lt b _ => ?_, fun g lt => ?_, ?_⟩
  · show getBit (d' (bitmapBlock fs d' k g)) b = getBit (d (bitmapBlock fs d k g)) b
    rw [bitmapBlock_congr geo same lt, same _ (bitmapBlock_mem lt k)]
  · show rd16 (groupDesc fs d' g) k.free = rd16 (groupDesc fs d g) k.free
    rw [groupDesc_congr geo same lt]
  · show rd32 (extReadSuper fs d') k.total = rd32 (extReadSuper fs d) k.total
    rw [extReadSuper_congr same]

end Frame

/-- The metadata lies where it lay. -/
structure SamePlaces (fs : ExtFs) (d d' : Volume) : Prop where
  bitmap : ∀ g, g < fs.groups → ∀ k, bitmapBlock fs d' k g = bitmapBlock fs d k g
  table : ∀ g, g < fs.groups →
    rd32 (groupDesc fs d' g) bgInodeTable = rd32 (groupDesc fs d g) bgInodeTable
  firstInode : firstInode fs d' = firstInode fs d

namespace SamePlaces

theorem mapBlocks_eq (same : SamePlaces fs d d') : mapBlocks fs d' = mapBlocks fs d := by
  unfold mapBlocks
  congr 1
  refine List.flatMap_congr fun g mem => ?_
  have lt := List.mem_range.1 mem
  rw [same.bitmap g lt, same.bitmap g lt]

theorem tableBlocks_eq (same : SamePlaces fs d d') : tableBlocks fs d' = tableBlocks fs d := by
  unfold tableBlocks
  refine List.flatMap_congr fun g mem => ?_
  rw [same.table g (List.mem_range.1 mem)]

theorem metaBlocks_eq (same : SamePlaces fs d d') : metaBlocks fs d' = metaBlocks fs d := by
  unfold metaBlocks
  rw [same.mapBlocks_eq, same.tableBlocks_eq]

theorem refl (fs : ExtFs) (d : Volume) : SamePlaces fs d d :=
  ⟨fun _ _ _ => rfl, fun _ _ => rfl, rfl⟩

theorem trans (h : SamePlaces fs d d') (h' : SamePlaces fs d' d'') :
    SamePlaces fs d d'' where
  bitmap g lt k := (h'.bitmap g lt k).trans (h.bitmap g lt k)
  table g lt := (h'.table g lt).trans (h.table g lt)
  firstInode := h'.firstInode.trans h.firstInode

end SamePlaces

theorem samePlaces_of_frame (geo : Geometry fs) (same : ∀ x ∈ mapBlocks fs d, d' x = d x) :
    SamePlaces fs d d' := by
  refine ⟨fun g lt k => bitmapBlock_congr geo same lt, fun g lt => ?_, ?_⟩
  · rw [groupDesc_congr geo same lt]
  · unfold firstInode
    rw [extReadSuper_congr same]

/-- A volume whose pools are counted, whose metadata has not moved and is still marked
as used is consistent. -/
theorem Consistent.transfer (ok : Consistent fs d) (same : SamePlaces fs d d')
    (metaUsed : ∀ x ∈ metaBlocks fs d, blockUsed fs d' x = true)
    (reserved : ∀ ino, 0 < ino → ino < firstInode fs d → ino ≤ fs.inodesCount →
      inodeUsed fs d' ino = true)
    (blocks : (pool fs d' .block).Counted fs.blocksIn fs.groups)
    (inodes : (pool fs d' .inode).Counted fs.inodesIn fs.groups) : Consistent fs d' where
  toGeometry := ok.toGeometry
  distinct := by
    rw [same.metaBlocks_eq]
    exact ok.distinct
  metaUsed := fun x mem => by
    rw [same.metaBlocks_eq] at mem
    exact ⟨(ok.metaUsed x mem).1, metaUsed x mem⟩
  reserved := by
    rw [same.firstInode]
    exact reserved
  blocks := blocks
  inodes := inodes

theorem blockUsed_of_agree {q : BitPool} (geo : Geometry fs)
    (agree : (pool fs d' .block).Agree q fs.blocksIn fs.groups) {x : Nat} (has : fs.HasBlock x) :
    blockUsed fs d' x = q.used (fs.groupOf x) (fs.bitOf x) :=
  agree.used _ (geo.group_lt has).1 _ (geo.group_lt has).2

/-- The group and the place of an inode. -/
theorem inode_lt (geo : Geometry fs) {ino : Nat} (pos : 0 < ino) (le : ino ≤ fs.inodesCount) :
    (ino - 1) / fs.inodesPerGroup < fs.groups ∧
      (ino - 1) % fs.inodesPerGroup < fs.inodesIn ((ino - 1) / fs.inodesPerGroup) := by
  have per := geo.inodesPerGroup.1
  rw [geo.inodesCount.1] at le
  have lt : (ino - 1) / fs.inodesPerGroup < fs.groups := by
    rw [Nat.div_lt_iff_lt_mul per]
    omega
  exact ⟨lt, by rw [geo.inodesIn_eq lt]; exact Nat.mod_lt _ per⟩

theorem inodeUsed_of_agree {q : BitPool} (geo : Geometry fs)
    (agree : (pool fs d' .inode).Agree q fs.inodesIn fs.groups) {ino : Nat} (pos : 0 < ino)
    (le : ino ≤ fs.inodesCount) :
    inodeUsed fs d' ino =
      q.used ((ino - 1) / fs.inodesPerGroup) ((ino - 1) % fs.inodesPerGroup) :=
  agree.used _ (inode_lt geo pos le).1 _ (inode_lt geo pos le).2

/-- Writing outside the bitmaps, the descriptors and the superblock. -/
theorem Consistent.frame (ok : Consistent fs d) (same : ∀ x ∈ mapBlocks fs d, d' x = d x) :
    Consistent fs d' := by
  have blocks := pool_congr ok.toGeometry same .block fs.blocksIn
  have inodes := pool_congr ok.toGeometry same .inode fs.inodesIn
  refine ok.transfer (samePlaces_of_frame ok.toGeometry same) (fun x mem => ?_)
    (fun ino pos lt le => ?_) (ok.blocks.congr blocks) (ok.inodes.congr inodes)
  · rw [blockUsed_of_agree ok.toGeometry blocks (ok.metaUsed x mem).1]
    exact (ok.metaUsed x mem).2
  · rw [inodeUsed_of_agree ok.toGeometry inodes pos le]
    exact ok.reserved ino pos lt le

/-- Writing a block that holds none of the maps changes nothing else. -/
theorem write_frame {x : Nat} (ok : Consistent fs d) {buf : Bytes} (off : x ∉ mapBlocks fs d) :
    Consistent fs (extWriteBlock d x buf) ∧
      (∀ y, fs.HasBlock y → blockUsed fs (extWriteBlock d x buf) y = blockUsed fs d y) ∧
      (∀ ino, 0 < ino → ino ≤ fs.inodesCount →
        inodeUsed fs (extWriteBlock d x buf) ino = inodeUsed fs d ino) ∧
      SamePlaces fs d (extWriteBlock d x buf) := by
  have same : ∀ y ∈ mapBlocks fs d, extWriteBlock d x buf y = d y := by
    intro y mem
    refine Function.update_of_ne ?_ _ _
    rintro rfl
    exact off mem
  have geo := ok.toGeometry
  exact ⟨ok.frame same, fun y has => blockUsed_of_agree geo (pool_congr geo same .block _) has,
    fun ino pos le => inodeUsed_of_agree geo (pool_congr geo same .inode _) pos le,
    samePlaces_of_frame geo same⟩

/-! ## A change of one bit -/

/-- Write the bitmap of a group, its descriptor and the superblock. -/
def commit (fs : ExtFs) (d : Volume) (k : Kind) (g : Nat) (map desc sb : Bytes) : Volume :=
  let d := extWriteBlock d (bitmapBlock fs d k g) map
  let d := extWriteBlock d fs.descBlock (splice (d fs.descBlock) (g * bgDescSize) bgDescSize desc)
  extWriteSuper fs d sb

/-- What is written says `v` about the item `b` of a group and `n` and `t` about the
numbers of free items, and is otherwise what was read. -/
structure Changes (fs : ExtFs) (d : Volume) (k : Kind) (g b : Nat) (v : Bool) (n t : Nat)
    (map desc sb : Bytes) : Prop where
  map : ∀ c, getBit map c = if c = b then v else getBit (d (bitmapBlock fs d k g)) c
  bitmap : ∀ k' : Kind, rd32 desc k'.bitmap = rd32 (groupDesc fs d g) k'.bitmap
  table : rd32 desc bgInodeTable = rd32 (groupDesc fs d g) bgInodeTable
  free : ∀ k' : Kind, rd16 desc k'.free = if k' = k then n else rd16 (groupDesc fs d g) k'.free
  total : ∀ k' : Kind, rd32 sb k'.total =
    if k' = k then t else rd32 (extReadSuper fs d) k'.total
  firstIno : rd32 sb sbFirstIno = rd32 (extReadSuper fs d) sbFirstIno

section Commit

variable {k : Kind} {g b n t : Nat} {v : Bool} {map desc sb : Bytes}

theorem groupDesc_eq (read : fs.DescRead g) :
    groupDesc fs d g = fun i => d fs.descBlock (g * bgDescSize + i) := by
  have before : g * bgDescSize < fs.blockSize := by
    unfold ExtFs.DescRead bgDescSize at read
    unfold bgDescSize
    omega
  funext i
  unfold groupDesc
  rw [Nat.div_eq_of_lt before, Nat.mod_eq_of_lt before, Nat.add_zero]

theorem extReadBgDesc_eq (read : fs.DescRead g) :
    extReadBgDesc fs d g = some (groupDesc fs d g) := by
  unfold ExtFs.DescRead at read
  unfold extReadBgDesc
  rw [groupDesc_eq read, if_neg (by omega)]

theorem extReadBgDesc_none (past : ¬ fs.DescRead g) : extReadBgDesc fs d g = none := by
  unfold ExtFs.DescRead at past
  exact if_pos (by omega)

theorem extWriteBgDesc_eq (read : fs.DescRead g) :
    extWriteBgDesc fs d g desc = some (extWriteBlock d fs.descBlock
      (splice (d fs.descBlock) (g * bgDescSize) bgDescSize desc)) := by
  unfold ExtFs.DescRead at read
  unfold extWriteBgDesc
  rw [if_neg (by omega)]

theorem rd32_extReadSuper_write {o : Nat} (inside : o + 4 ≤ fs.superSize) :
    rd32 (extReadSuper fs (extWriteSuper fs d sb)) o = rd32 sb o := by
  unfold extReadSuper extWriteSuper
  rw [Function.update_self]
  exact rd32_congr fun i lt => splice_of_mem (by omega)

theorem commit_of_not_mem (geo : Geometry fs) (lt : g < fs.groups) {x : Nat}
    (off : x ∉ mapBlocks fs d) : commit fs d k g map desc sb x = d x := by
  have neSuper : x ≠ fs.superBlock := fun eq => off (eq ▸ superBlock_mem)
  have neDesc : x ≠ fs.descBlock := by
    have mem := descBlock_mem (d := d) geo geo.groups_pos
    rw [Nat.zero_mul, Nat.zero_div, Nat.add_zero] at mem
    exact fun eq => off (eq ▸ mem)
  have neMap : x ≠ bitmapBlock fs d k g := fun eq => off (eq ▸ bitmapBlock_mem lt k)
  unfold commit extWriteSuper extWriteBlock
  rw [Function.update_of_ne neSuper, Function.update_of_ne neDesc, Function.update_of_ne neMap]

variable (ok : Consistent fs d) (read : fs.DescRead g) (ltG : g < fs.groups)

include ok ltG

theorem commit_bitmap {k' : Kind} {h : Nat} (ltH : h < fs.groups) :
    commit fs d k g map desc sb (bitmapBlock fs d k' h) =
      if h = g ∧ k' = k then map else d (bitmapBlock fs d k' h) := by
  have neSuper := bitmapBlock_ne_super (k := k') ok.distinct ltH
  have neDesc := bitmapBlock_ne_descBlock (k := k') ok.distinct ok.toGeometry ltH
  unfold commit extWriteSuper extWriteBlock
  rw [Function.update_of_ne neSuper, Function.update_of_ne neDesc]
  by_cases same : h = g ∧ k' = k
  · rw [if_pos same, same.1, same.2, Function.update_self]
  · rw [if_neg same]
    refine Function.update_of_ne (fun eq => same ?_) _ _
    obtain ⟨kind, group⟩ := bitmapBlock_inj ok.distinct ltH ltG eq
    exact ⟨group, kind⟩

include read

/-- The descriptor of the group is the one written, and the others are as they were. -/
theorem commit_desc {h i : Nat} (ltH : h < fs.groups) (ltI : i < bgDescSize) :
    groupDesc fs (commit fs d k g map desc sb) h i =
      if h = g then desc i else groupDesc fs d h i := by
  have before := ok.toGeometry.superBlock_lt
  have neMap := (bitmapBlock_ne_desc (k := k) ok.distinct ok.toGeometry ltG ltH).symm
  by_cases readH : fs.DescRead h
  · have neSuper : fs.descBlock ≠ fs.superBlock := by omega
    have neMap := (bitmapBlock_ne_descBlock (k := k) ok.distinct ok.toGeometry ltG).symm
    rw [groupDesc_eq readH, groupDesc_eq readH]
    unfold commit extWriteSuper extWriteBlock
    simp only [Function.update_of_ne neSuper, Function.update_self, Function.update_of_ne neMap]
    by_cases same : h = g
    · rw [if_pos same, same]
      exact splice_of_mem ltI
    · rw [if_neg same]
      refine splice_of_apart ?_
      rcases Nat.lt_or_gt_of_ne same with before | after
      · have next := Nat.mul_le_mul_right bgDescSize (Nat.succ_le_of_lt before)
        rw [Nat.succ_mul] at next
        omega
      · have next := Nat.mul_le_mul_right bgDescSize (Nat.succ_le_of_lt after)
        rw [Nat.succ_mul] at next
        omega
  · -- the descriptor is in another block of the table
    have pos := ok.toGeometry.div_pos_of_not_descRead readH
    have neSuper : fs.descBlock + h * bgDescSize / fs.blockSize ≠ fs.superBlock := by omega
    have neDesc : fs.descBlock + h * bgDescSize / fs.blockSize ≠ fs.descBlock := by omega
    rw [if_neg fun (same : h = g) => readH (same ▸ read)]
    unfold groupDesc commit extWriteSuper extWriteBlock
    rw [Function.update_of_ne neSuper, Function.update_of_ne neDesc, Function.update_of_ne neMap]

theorem commit_rd32 {h o : Nat} (ltH : h < fs.groups) (inside : o + 4 ≤ bgDescSize) :
    rd32 (groupDesc fs (commit fs d k g map desc sb) h) o =
      if h = g then rd32 desc o else rd32 (groupDesc fs d h) o := by
  by_cases same : h = g
  · rw [if_pos same]
    refine rd32_congr fun i lt => ?_
    rw [commit_desc ok read ltG ltH (by omega), if_pos same]
  · rw [if_neg same]
    refine rd32_congr fun i lt => ?_
    rw [commit_desc ok read ltG ltH (by omega), if_neg same]

theorem commit_rd16 {h o : Nat} (ltH : h < fs.groups) (inside : o + 2 ≤ bgDescSize) :
    rd16 (groupDesc fs (commit fs d k g map desc sb) h) o =
      if h = g then rd16 desc o else rd16 (groupDesc fs d h) o := by
  by_cases same : h = g
  · rw [if_pos same]
    refine rd16_congr fun i lt => ?_
    rw [commit_desc ok read ltG ltH (by omega), if_pos same]
  · rw [if_neg same]
    refine rd16_congr fun i lt => ?_
    rw [commit_desc ok read ltG ltH (by omega), if_neg same]

omit read ltG

theorem commit_super {o : Nat} (inside : o + 4 ≤ 204) :
    rd32 (extReadSuper fs (commit fs d k g map desc sb)) o = rd32 sb o := by
  refine rd32_extReadSuper_write ?_
  rcases ok.superSize with size | size <;> omega

include read ltG

variable (changes : Changes fs d k g b v n t map desc sb)

include changes

theorem commit_samePlaces : SamePlaces fs d (commit fs d k g map desc sb) := by
  refine ⟨fun h ltH k' => ?_, fun h ltH => ?_, ?_⟩
  · unfold bitmapBlock
    rw [commit_rd32 ok read ltG ltH (by cases k' <;> decide)]
    by_cases same : h = g
    · rw [if_pos same, changes.bitmap, same]
    · rw [if_neg same]
  · rw [commit_rd32 ok read ltG ltH (by decide)]
    by_cases same : h = g
    · rw [if_pos same, changes.table, same]
    · rw [if_neg same]
  · unfold firstInode
    rw [commit_super ok (by decide), changes.firstIno]

/-- The pool of the item changes at the item, the other pool not at all. -/
theorem commit_pool (k' : Kind) (size : Nat → Nat) :
    (pool fs (commit fs d k g map desc sb) k').Agree
      (if k' = k then
        { used := Function.update (pool fs d k).used g (Function.update ((pool fs d k).used g) b v)
          free := Function.update (pool fs d k).free g n
          total := t }
      else pool fs d k') size fs.groups := by
  have places := commit_samePlaces ok read ltG changes
  refine ⟨fun h ltH c _ => ?_, fun h ltH => ?_, ?_⟩
  · show getBit (commit fs d k g map desc sb (bitmapBlock fs _ k' h)) c = _
    rw [places.bitmap h ltH k', commit_bitmap ok ltG ltH]
    by_cases kind : k' = k
    · subst kind
      rw [if_pos rfl]
      rcases eq_or_ne h g with rfl | ne
      · rw [if_pos ⟨rfl, rfl⟩, changes.map]
        simp only [Function.update_self, Function.update_apply]
        rfl
      · rw [if_neg fun same => ne same.1]
        simp only [Function.update_of_ne ne]
        rfl
    · rw [if_neg kind, if_neg fun same => kind same.2]
      rfl
  · show rd16 (groupDesc fs (commit fs d k g map desc sb) h) k'.free = _
    rw [commit_rd16 ok read ltG ltH (by cases k' <;> decide)]
    by_cases kind : k' = k
    · subst kind
      rw [if_pos rfl]
      rcases eq_or_ne h g with rfl | ne
      · rw [if_pos rfl, changes.free, if_pos rfl]
        simp only [Function.update_self]
      · rw [if_neg ne]
        simp only [Function.update_of_ne ne]
        rfl
    · rw [if_neg kind]
      by_cases same : h = g
      · rw [if_pos same, changes.free, if_neg kind, same]
        rfl
      · rw [if_neg same]
        rfl
  · show rd32 (extReadSuper fs (commit fs d k g map desc sb)) k'.total = _
    rw [commit_super ok (by cases k' <;> decide), changes.total]
    by_cases kind : k' = k
    · rw [if_pos kind, if_pos kind]
    · rw [if_neg kind, if_neg kind]
      rfl

end Commit

/-! ## The search for a clear bit -/

section Find

variable {map : Bytes} {skip t : Nat → Bool} {b c fuel : Nat}

theorem extFindBit_some (eq : extFindBit map skip t b fuel = some c) :
    b ≤ c ∧ c < b + fuel ∧ t c = false ∧ skip c = false ∧ getBit map c = false := by
  induction fuel generalizing b with
  | zero => exact absurd eq (by simp [extFindBit])
  | succ fuel ih =>
      unfold extFindBit at eq
      split at eq
      · exact absurd eq (by simp)
      next go =>
        split at eq
        · obtain ⟨le, lt, rest⟩ := ih eq
          exact ⟨by omega, by omega, rest⟩
        next free =>
          obtain rfl := Option.some.inj eq
          rw [Bool.or_eq_true, not_or] at free
          exact ⟨Nat.le_refl b, by omega, by simpa using go, by simpa using free.1,
            by simpa using free.2⟩

theorem extFindBit_none (eq : extFindBit map skip t b fuel = none) (le : b ≤ c)
    (lt : c < b + fuel) (go : ∀ e, e ≤ c → t e = false) :
    skip c = true ∨ getBit map c = true := by
  induction fuel generalizing b with
  | zero => omega
  | succ fuel ih =>
      unfold extFindBit at eq
      rw [if_neg (by simp [go b le])] at eq
      split at eq
      next used =>
        rcases Nat.eq_or_lt_of_le le with rfl | before
        · rwa [Bool.or_eq_true] at used
        · exact ih eq before (by omega)
      · exact absurd eq (by simp)

theorem extFindBit_of_stop (halt : t b = true) : extFindBit map skip t b fuel = none := by
  cases fuel with
  | zero => rfl
  | succ fuel =>
      unfold extFindBit
      rw [if_pos halt]

end Find

/-! ## Blocks -/

section Blocks

variable {g b x : Nat}

/-- The volume after the block at a place of a group is marked. -/
def markBlock (fs : ExtFs) (d : Volume) (g b : Nat) : Volume :=
  commit fs d .block g (setBit (d (bitmapBlock fs d .block g)) b)
    (wr16 (groupDesc fs d g) bgFreeBlocks (rd16 (groupDesc fs d g) bgFreeBlocks - 1))
    (wr32 (extReadSuper fs d) sbFreeBlocks (rd32 (extReadSuper fs d) sbFreeBlocks - 1))

/-- The volume after the block at a place of a group is released. -/
def unmarkBlock (fs : ExtFs) (d : Volume) (g b : Nat) : Volume :=
  commit fs d .block g (clearBit (d (bitmapBlock fs d .block g)) b)
    (wr16 (groupDesc fs d g) bgFreeBlocks (rd16 (groupDesc fs d g) bgFreeBlocks + 1))
    (wr32 (extReadSuper fs d) sbFreeBlocks (rd32 (extReadSuper fs d) sbFreeBlocks + 1))

theorem pool_free_le (geo : Geometry fs) (counted : (pool fs d .block).Counted fs.blocksIn fs.groups)
    (lt : g < fs.groups) : (pool fs d .block).free g ≤ 32768 := by
  rw [counted.group g lt]
  refine Nat.le_trans BitPool.clear_le ?_
  have le := geo.blocksPerGroup.2
  unfold ExtFs.blocksIn
  rcases geo.blockSize with eq | eq | eq <;> omega

theorem markBlock_changes : Changes fs d .block g b true ((pool fs d .block).free g - 1)
    ((pool fs d .block).total - 1) (setBit (d (bitmapBlock fs d .block g)) b)
    (wr16 (groupDesc fs d g) bgFreeBlocks (rd16 (groupDesc fs d g) bgFreeBlocks - 1))
    (wr32 (extReadSuper fs d) sbFreeBlocks (rd32 (extReadSuper fs d) sbFreeBlocks - 1)) where
  map c := by
    rw [getBit_setBit]
    by_cases same : c = b <;> simp [same]
  bitmap k' := rd32_wr16_of_apart (by cases k' <;> decide)
  table := rd32_wr16_of_apart (by decide)
  free k' := by
    cases k' with
    | block =>
        have lt := rd16_lt (p := groupDesc fs d g) (o := bgFreeBlocks)
        exact rd16_wr16 (by omega)
    | inode => exact rd16_wr16_of_apart (by decide)
  total k' := by
    cases k' with
    | block =>
        have lt := rd32_lt (p := extReadSuper fs d) (o := sbFreeBlocks)
        exact rd32_wr32 (by omega)
    | inode => exact rd32_wr32_of_apart (by decide)
  firstIno := rd32_wr32_of_apart (by decide)

theorem unmarkBlock_changes (ok : Consistent fs d) (ltG : g < fs.groups)
    (fewer : (pool fs d .block).total < 2 ^ 32 - 1) :
    Changes fs d .block g b false ((pool fs d .block).free g + 1) ((pool fs d .block).total + 1)
    (clearBit (d (bitmapBlock fs d .block g)) b)
    (wr16 (groupDesc fs d g) bgFreeBlocks (rd16 (groupDesc fs d g) bgFreeBlocks + 1))
    (wr32 (extReadSuper fs d) sbFreeBlocks (rd32 (extReadSuper fs d) sbFreeBlocks + 1)) where
  map c := by
    rw [getBit_clearBit]
    by_cases same : c = b <;> simp [same]
  bitmap k' := rd32_wr16_of_apart (by cases k' <;> decide)
  table := rd32_wr16_of_apart (by decide)
  free k' := by
    cases k' with
    | block =>
        have le := pool_free_le ok.toGeometry ok.blocks ltG
        exact rd16_wr16 (by
          show (pool fs d .block).free g + 1 < 65536
          omega)
    | inode => exact rd16_wr16_of_apart (by decide)
  total k' := by
    cases k' with
    | block =>
        exact rd32_wr32 (by
          show (pool fs d .block).total + 1 < 4294967296
          omega)
    | inode => exact rd32_wr32_of_apart (by decide)
  firstIno := rd32_wr32_of_apart (by decide)

/-- The mark of one item changes. -/
structure Committed (fs : ExtFs) (d : Volume) (k : Kind) (g b : Nat) (v : Bool) (d' : Volume) :
    Prop where
  consistent : Consistent fs d'
  used : ∀ k' h, h < fs.groups → ∀ c, c < fs.itemsIn k' h →
    (pool fs d' k').used h c = if k' = k ∧ h = g ∧ c = b then v else (pool fs d k').used h c
  frame : ∀ y, y ∉ mapBlocks fs d → d' y = d y
  places : SamePlaces fs d d'

/-- A change of the mark of an item keeps the volume consistent if its pool stays counted and
no metadata block and no reserved inode is released. -/
theorem commit_committed {k : Kind} {v : Bool} {n t : Nat} {map desc sb : Bytes}
    (ok : Consistent fs d) (read : fs.DescRead g) (ltG : g < fs.groups)
    (changes : Changes fs d k g b v n t map desc sb)
    (counted : BitPool.Counted
      { used := Function.update (pool fs d k).used g (Function.update ((pool fs d k).used g) b v)
        free := Function.update (pool fs d k).free g n
        total := t } (fs.itemsIn k) fs.groups)
    (notMeta : v = false → k = .block → ∀ x ∈ metaBlocks fs d, ¬ (fs.groupOf x = g ∧ fs.bitOf x = b))
    (notReserved : v = false → k = .inode → ∀ ino, 0 < ino → ino < firstInode fs d →
      ¬ ((ino - 1) / fs.inodesPerGroup = g ∧ (ino - 1) % fs.inodesPerGroup = b)) :
    Committed fs d k g b v (commit fs d k g map desc sb) := by
  have places := commit_samePlaces ok read ltG changes
  have agree : ∀ k', (pool fs (commit fs d k g map desc sb) k').Agree _ (fs.itemsIn k') fs.groups :=
    fun k' => commit_pool ok read ltG changes k' (fs.itemsIn k')
  have used : ∀ k' h, h < fs.groups → ∀ c, c < fs.itemsIn k' h →
      (pool fs (commit fs d k g map desc sb) k').used h c =
        if k' = k ∧ h = g ∧ c = b then v else (pool fs d k').used h c := by
    intro k' h ltH c ltC
    rw [(agree k').used h ltH c ltC]
    by_cases kind : k' = k
    · subst kind
      rw [if_pos rfl]
      dsimp only
      rcases eq_or_ne h g with rfl | ne
      · rw [Function.update_self]
        rcases eq_or_ne c b with rfl | neB
        · rw [Function.update_self, if_pos ⟨rfl, rfl, rfl⟩]
        · rw [Function.update_of_ne neB, if_neg fun all => neB all.2.2]
      · rw [Function.update_of_ne ne, if_neg fun all => ne all.2.1]
    · rw [if_neg kind, if_neg fun all => kind all.1]
  have keptCounted : ∀ k', (pool fs (commit fs d k g map desc sb) k').Counted (fs.itemsIn k')
      fs.groups := by
    intro k'
    by_cases kind : k' = k
    · subst kind
      have agreeK := agree k'
      rw [if_pos rfl] at agreeK
      exact counted.congr agreeK
    · have agreeK := agree k'
      rw [if_neg kind] at agreeK
      cases k' with
      | block => exact ok.blocks.congr agreeK
      | inode => exact ok.inodes.congr agreeK
  refine ⟨?_, used, fun y off => commit_of_not_mem ok.toGeometry ltG off, places⟩
  refine ok.transfer places (fun y mem => ?_) (fun ino pos lt le => ?_) (keptCounted .block)
    (keptCounted .inode)
  · obtain ⟨ltY, ltC⟩ := ok.toGeometry.group_lt (ok.metaUsed y mem).1
    rw [blockUsed, used .block _ ltY _ ltC]
    split
    next same =>
      cases v with
      | true => rfl
      | false => exact absurd same.2 (notMeta rfl same.1.symm y mem)
    · exact (ok.metaUsed y mem).2
  · obtain ⟨ltI, ltC⟩ := inode_lt ok.toGeometry pos le
    rw [inodeUsed, used .inode _ ltI _ ltC]
    split
    next same =>
      cases v with
      | true => rfl
      | false => exact absurd same.2 (notReserved rfl same.1.symm ino pos lt)
    · exact ok.reserved ino pos lt le

/-- The mark of one block changes. -/
structure Marked (fs : ExtFs) (d : Volume) (x : Nat) (v : Bool) (d' : Volume) : Prop where
  consistent : Consistent fs d'
  used : ∀ y, fs.HasBlock y → blockUsed fs d' y = if y = x then v else blockUsed fs d y
  inodes : ∀ ino, 0 < ino → ino ≤ fs.inodesCount → inodeUsed fs d' ino = inodeUsed fs d ino
  frame : ∀ y, y ∉ mapBlocks fs d → d' y = d y
  places : SamePlaces fs d d'

theorem Committed.marked {v : Bool} (geo : Geometry fs) (has : fs.HasBlock x)
    (committed : Committed fs d .block (fs.groupOf x) (fs.bitOf x) v d') : Marked fs d x v d' := by
  refine ⟨committed.consistent, fun y hasY => ?_, fun ino pos le => ?_, committed.frame,
    committed.places⟩
  · obtain ⟨ltY, ltC⟩ := geo.group_lt hasY
    rw [blockUsed, committed.used .block _ ltY _ ltC]
    have same : ((Kind.block = Kind.block ∧ fs.groupOf y = fs.groupOf x ∧ fs.bitOf y = fs.bitOf x) ↔
        y = x) := by
      constructor
      · rintro ⟨-, group, bit⟩
        exact Geometry.eq_of_group_bit hasY has group bit
      · rintro rfl
        exact ⟨rfl, rfl, rfl⟩
    exact if_congr same rfl rfl
  · obtain ⟨ltI, ltC⟩ := inode_lt geo pos le
    rw [inodeUsed, committed.used .inode _ ltI _ ltC, if_neg (by simp)]
    rfl

/-- The mark of one inode changes. -/
structure InodeMarked (fs : ExtFs) (d : Volume) (ino : Nat) (v : Bool) (d' : Volume) : Prop where
  consistent : Consistent fs d'
  used : ∀ i, 0 < i → i ≤ fs.inodesCount →
    inodeUsed fs d' i = if i = ino then v else inodeUsed fs d i
  blocks : ∀ y, fs.HasBlock y → blockUsed fs d' y = blockUsed fs d y
  frame : ∀ y, y ∉ mapBlocks fs d → d' y = d y
  places : SamePlaces fs d d'

theorem Committed.inodeMarked {v : Bool} {ino : Nat} (geo : Geometry fs) (pos : 0 < ino)
    (committed : Committed fs d .inode ((ino - 1) / fs.inodesPerGroup)
      ((ino - 1) % fs.inodesPerGroup) v d') : InodeMarked fs d ino v d' := by
  refine ⟨committed.consistent, fun i posI le => ?_, fun y has => ?_, committed.frame,
    committed.places⟩
  · obtain ⟨ltI, ltC⟩ := inode_lt geo posI le
    rw [inodeUsed, committed.used .inode _ ltI _ ltC]
    have same : ((Kind.inode = Kind.inode ∧
        (i - 1) / fs.inodesPerGroup = (ino - 1) / fs.inodesPerGroup ∧
        (i - 1) % fs.inodesPerGroup = (ino - 1) % fs.inodesPerGroup) ↔ i = ino) := by
      constructor
      · rintro ⟨-, group, bit⟩
        have split := Nat.div_add_mod' (i - 1) fs.inodesPerGroup
        have split' := Nat.div_add_mod' (ino - 1) fs.inodesPerGroup
        rw [group, bit, split'] at split
        omega
      · rintro rfl
        exact ⟨rfl, rfl, rfl⟩
    exact if_congr same rfl rfl
  · obtain ⟨ltY, ltC⟩ := geo.group_lt has
    rw [blockUsed, committed.used .block _ ltY _ ltC, if_neg (by simp)]
    rfl

/-- An allocation marks a block of the volume that was not marked, and clears it. -/
structure Allocated (fs : ExtFs) (d : Volume) (x : Nat) (d' : Volume) : Prop where
  consistent : Consistent fs d'
  has : fs.HasBlock x
  read : fs.DescRead (fs.groupOf x)
  wasFree : blockUsed fs d x = false
  used : ∀ y, fs.HasBlock y → blockUsed fs d' y = if y = x then true else blockUsed fs d y
  inodes : ∀ ino, 0 < ino → ino ≤ fs.inodesCount → inodeUsed fs d' ino = inodeUsed fs d ino
  zero : d' x = fun _ => 0
  frame : ∀ y, y ∉ mapBlocks fs d → y ≠ x → d' y = d y
  places : SamePlaces fs d d'

theorem not_meta_of_free (ok : Consistent fs d) (free : blockUsed fs d x = false) :
    x ∉ metaBlocks fs d := fun mem => by
  rw [(ok.metaUsed x mem).2] at free
  exact absurd free (by simp)

theorem markBlock_allocated (ok : Consistent fs d) (read : fs.DescRead (fs.groupOf x))
    (has : fs.HasBlock x) (free : blockUsed fs d x = false) :
    Allocated fs d x (extWriteBlock (markBlock fs d (fs.groupOf x) (fs.bitOf x)) x fun _ => 0) := by
  obtain ⟨ltG, ltB⟩ := ok.toGeometry.group_lt has
  have notMeta := not_meta_of_free ok free
  have marked : Marked fs d x true (markBlock fs d (fs.groupOf x) (fs.bitOf x)) :=
    (commit_committed ok read ltG markBlock_changes (ok.blocks.take ltG ltB free) (by simp)
      (by simp)).marked ok.toGeometry has
  have off : x ∉ mapBlocks fs (markBlock fs d (fs.groupOf x) (fs.bitOf x)) := by
    rw [marked.places.mapBlocks_eq]
    exact fun mem => notMeta (mapBlocks_subset mem)
  obtain ⟨consistent, used, inodes, places⟩ :=
    write_frame marked.consistent off
  refine ⟨consistent, has, read, free, fun y hasY => ?_, fun ino pos le => ?_,
    Function.update_self .., fun y off ne => ?_, marked.places.trans places⟩
  · rw [used y hasY, marked.used y hasY]
  · rw [inodes ino pos le, marked.inodes ino pos le]
  · exact (Function.update_of_ne ne _ _).trans (marked.frame y off)

theorem unmarkBlock_marked (ok : Consistent fs d) (read : fs.DescRead (fs.groupOf x))
    (has : fs.HasBlock x) (used : blockUsed fs d x = true) (notMeta : x ∉ metaBlocks fs d) :
    Marked fs d x false (unmarkBlock fs d (fs.groupOf x) (fs.bitOf x)) := by
  obtain ⟨ltG, ltB⟩ := ok.toGeometry.group_lt has
  have counted := ok.blocks.give ltG ltB used
  have few := Nat.le_trans counted.total_le (Geometry.sum_blocksIn_le fs)
  have most := ok.toGeometry.blocksCount.2
  have total : (pool fs d .block).total + 1 ≤ fs.blocksCount - fs.firstDataBlock := few
  refine (commit_committed ok read ltG (unmarkBlock_changes ok ltG (by omega)) counted
    (fun _ _ y mem same => notMeta ?_) (by simp)).marked ok.toGeometry has
  rwa [← Geometry.eq_of_group_bit (ok.metaUsed y mem).1 has same.1 same.2]

/-- The descriptors before one that is read are read. -/
theorem ExtFs.DescRead.of_le {fs : ExtFs} {g h : Nat} (readH : fs.DescRead h) (le : g ≤ h) :
    fs.DescRead g := by
  unfold ExtFs.DescRead at readH ⊢
  have before := Nat.mul_le_mul_right bgDescSize le
  omega

/-- A full group comes before the full groups that the rest of a search looks at. -/
theorem full_from {k : Kind} {size : Nat → Nat} {g stop : Nat}
    (full : ∀ b, b < size g → (pool fs d k).used g b = true)
    (rest : ∀ h, g + 1 ≤ h → h < stop → h < fs.groups → fs.DescRead h →
      ∀ b, b < size h → (pool fs d k).used h b = true) :
    ∀ h, g ≤ h → h < stop → h < fs.groups → fs.DescRead h →
      ∀ b, b < size h → (pool fs d k).used h b = true := by
  intro h le lt ltH readH
  rcases Nat.eq_or_lt_of_le le with rfl | after
  · exact full
  · exact rest h after lt ltH readH

/-- The search from a group on finds a free block, or there is none in the groups it
looks at. -/
theorem extAllocBlockFrom_cases (ok : Consistent fs d) (fuel g : Nat)
    (most : g + fuel ≤ fs.groups + 1) :
    (∃ x, fs.groupOf x < g + fuel ∧
      Allocated fs d x (extWriteBlock (markBlock fs d (fs.groupOf x) (fs.bitOf x)) x
        fun _ => 0) ∧
      extAllocBlockFrom fs d g fuel = some (x, extWriteBlock
        (markBlock fs d (fs.groupOf x) (fs.bitOf x)) x fun _ => 0)) ∨
    (extAllocBlockFrom fs d g fuel = none ∧
      ∀ h, g ≤ h → h < g + fuel → h < fs.groups → fs.DescRead h →
        ∀ b, b < fs.blocksIn h → (pool fs d .block).used h b = true) := by
  have geo := ok.toGeometry
  have per := geo.per_le.1
  have first := geo.fdb_le
  induction fuel generalizing g with
  | zero => exact .inr ⟨rfl, fun h le lt _ => by omega⟩
  | succ fuel ih =>
      have rest := ih (g + 1) (by omega)
      rw [Nat.succ_add_eq_add_succ] at rest
      unfold extAllocBlockFrom
      by_cases read : fs.DescRead g
      swap
      · -- the descriptor is not read, and the search ends
        exact .inr ⟨by rw [extReadBgDesc_none read]; rfl,
          fun h le lt ltH readH => absurd (readH.of_le le) read⟩
      have small := (geo.small read).1
      rw [extReadBgDesc_eq read]
      simp only [Option.bind_eq_bind, Option.bind_some]
      rcases Nat.lt_or_ge g fs.groups with ltG | phantom
      · have counted := ok.blocks.free_eq_zero_iff ltG
        have start := geo.mul_lt ltG
        split
        next zero =>
          have full := counted.1 zero
          exact rest.imp id fun none => ⟨none.1, full_from full none.2⟩
        next some =>
          -- the numbers of the blocks of the group do not overflow
          have exact' : ∀ b, b ≤ fs.blocksIn g →
              (fs.firstDataBlock + g * fs.blocksPerGroup + b) % 2 ^ 32 =
                fs.firstDataBlock + g * fs.blocksPerGroup + b := fun b le => by
            unfold ExtFs.blocksIn at le
            exact Nat.mod_eq_of_lt (by omega)
          have stops : ∀ b, b < fs.blocksPerGroup → (decide (fs.blocksCount ≤
              (fs.firstDataBlock + g * fs.blocksPerGroup + b) % 2 ^ 32) = false ↔
                b < fs.blocksIn g) := by
            intro b lt
            rw [decide_eq_false_iff_not, Nat.mod_eq_of_lt (by omega), ExtFs.blocksIn]
            omega
          show (_ ∨ _)
          cases found : extFindBit (d (rd32 (groupDesc fs d g) bgBlockBitmap)) (fun _ => false)
              (fun b => decide (fs.blocksCount ≤
                (fs.firstDataBlock + g * fs.blocksPerGroup + b) % 2 ^ 32)) 0
              fs.blocksPerGroup with
          | none =>
              exfalso
              obtain ⟨b, lt, free⟩ : ∃ b, b < fs.blocksIn g ∧
                  (pool fs d .block).used g b = false := by
                by_contra none
                refine some (counted.2 fun b lt => ?_)
                by_contra free
                exact none ⟨b, lt, by simpa using free⟩
              have ltB : b < fs.blocksPerGroup := Nat.lt_of_lt_of_le lt (Nat.min_le_left _ _)
              rcases extFindBit_none found (Nat.zero_le b) (by omega) fun e le =>
                (stops e (by omega)).2 (by omega) with skip | used
              · exact absurd skip (by simp)
              · exact absurd (used.symm.trans free) (by simp)
          | some b =>
              obtain ⟨-, ltB, go, -, free⟩ := extFindBit_some found
              rw [Nat.zero_add] at ltB
              have lt := (stops b ltB).1 go
              obtain ⟨has, group, bit⟩ := Geometry.block_eq lt
              refine .inl ⟨fs.firstDataBlock + g * fs.blocksPerGroup + b, by omega, ?_, ?_⟩
              · refine markBlock_allocated ok (group.symm ▸ read) has ?_
                rw [blockUsed, group, bit]
                exact free
              · simp only [extWriteBgDesc_eq read, Option.bind_some,
                  exact' b (Nat.le_of_lt lt), group, bit]
                rfl
      · -- a group that is not there has no blocks
        have last : g = fs.groups := by omega
        have beyond := geo.groups_mul
        rw [← last] at beyond
        have stop : decide (fs.blocksCount ≤
            (fs.firstDataBlock + g * fs.blocksPerGroup + 0) % 2 ^ 32) = true := by
          rw [decide_eq_true_eq, Nat.mod_eq_of_lt (by omega)]
          omega
        have none : ∀ h, g ≤ h → h < g + (fuel + 1) → h < fs.groups → fs.DescRead h →
            ∀ b, b < fs.blocksIn h → (pool fs d .block).used h b = true :=
          fun h le _ ltH => by omega
        have restNone : extAllocBlockFrom fs d (g + 1) fuel = Option.none := by
          have zero : fuel = 0 := by omega
          rw [zero]
          rfl
        refine .inr ⟨?_, none⟩
        split
        · exact restNone
        · simp only [extFindBit_of_stop (b := 0) (t := fun b => decide (fs.blocksCount ≤
            (fs.firstDataBlock + g * fs.blocksPerGroup + b) % 2 ^ 32)) stop]
          exact restNone

/-- `ext2_alloc_block` marks a free block, -/
theorem extAllocBlock_ok (ok : Consistent fs d) (eq : extAllocBlock fs d = some (x, d')) :
    Allocated fs d x d' := by
  rcases extAllocBlockFrom_cases ok fs.groupCount 0 (by have := ok.toGeometry.groupCount_le; omega)
    with ⟨y, -, allocated, found⟩ | ⟨none, -⟩
  · rw [extAllocBlock, found] at eq
    obtain ⟨rfl, rfl⟩ := Prod.mk.inj (Option.some.inj eq)
    exact allocated
  · rw [extAllocBlock, none] at eq
    exact absurd eq (by simp)

/-- in a group it looks at, -/
theorem extAllocBlock_searched (ok : Consistent fs d) (eq : extAllocBlock fs d = some (x, d')) :
    fs.Searched (fs.groupOf x) := by
  rcases extAllocBlockFrom_cases ok fs.groupCount 0 (by have := ok.toGeometry.groupCount_le; omega)
    with ⟨y, lt, allocated, found⟩ | ⟨none, -⟩
  · rw [extAllocBlock, found] at eq
    obtain ⟨rfl, -⟩ := Prod.mk.inj (Option.some.inj eq)
    exact ⟨(ok.toGeometry.group_lt allocated.has).1, by omega, allocated.read⟩
  · rw [extAllocBlock, none] at eq
    exact absurd eq (by simp)

/-- and fails only when there is none in the groups it looks at. -/
theorem extAllocBlock_none (ok : Consistent fs d) (eq : extAllocBlock fs d = none)
    (has : fs.HasBlock x) (searched : fs.Searched (fs.groupOf x)) : blockUsed fs d x = true := by
  have most := ok.toGeometry.groupCount_le
  rcases extAllocBlockFrom_cases ok fs.groupCount 0 (by omega) with ⟨y, -, -, found⟩ | ⟨-, full⟩
  · rw [extAllocBlock, found] at eq
    exact absurd eq (by simp)
  · obtain ⟨ltG, ltB⟩ := ok.toGeometry.group_lt has
    exact full _ (Nat.zero_le _) (by have := searched.2.1; omega) ltG searched.2.2 _ ltB

/-- The superblock is apart from the bitmap and the descriptor written before it. -/
theorem extReadSuper_behind (ok : Consistent fs d) {k : Kind} (ltG : g < fs.groups)
    {map desc : Bytes} :
    extReadSuper fs (extWriteBlock (extWriteBlock d (bitmapBlock fs d k g) map) fs.descBlock
      desc) = extReadSuper fs d := by
  have neDesc := Nat.ne_of_lt ok.toGeometry.superBlock_lt
  have neMap := (bitmapBlock_ne_super (k := k) ok.distinct ltG).symm
  funext i
  unfold extReadSuper extWriteBlock
  rw [Function.update_of_ne neDesc]
  exact congrFun (Function.update_of_ne neMap _ _) _

theorem rel_eq (ok : Consistent fs d) (has : fs.HasBlock x) :
    (x + 2 ^ 32 - fs.firstDataBlock) % 2 ^ 32 = x - fs.firstDataBlock := by
  have first := ok.toGeometry.fdb_le
  have few := ok.toGeometry.blocksCount.2
  obtain ⟨le, lt⟩ := has
  rw [show x + 2 ^ 32 - fs.firstDataBlock = x - fs.firstDataBlock + 2 ^ 32 by omega,
    Nat.add_mod_right, Nat.mod_eq_of_lt (by omega)]

/-- `ext2_free_block` finds the mark of the block. -/
theorem extFreeBlock_eq (ok : Consistent fs d) (has : fs.HasBlock x) (pos : x ≠ 0) :
    extFreeBlock fs d x = if fs.DescRead (fs.groupOf x) then
      some (if blockUsed fs d x then unmarkBlock fs d (fs.groupOf x) (fs.bitOf x) else d)
    else none := by
  obtain ⟨ltG, -⟩ := ok.toGeometry.group_lt has
  have lt := has.2
  unfold extFreeBlock
  rw [if_neg pos, if_neg (by omega)]
  simp only [rel_eq ok has]
  rw [show (x - fs.firstDataBlock) / fs.blocksPerGroup = fs.groupOf x from rfl,
    show (x - fs.firstDataBlock) % fs.blocksPerGroup = fs.bitOf x from rfl]
  by_cases read : fs.DescRead (fs.groupOf x)
  · rw [if_pos read, extReadBgDesc_eq read]
    simp only [Option.bind_eq_bind, Option.bind_some]
    rw [show getBit (d (rd32 (groupDesc fs d (fs.groupOf x)) bgBlockBitmap)) (fs.bitOf x) =
      blockUsed fs d x from rfl]
    cases blockUsed fs d x with
    | false => rfl
    | true =>
        simp only [Bool.not_true, Bool.false_eq_true, if_false, if_true,
          extWriteBgDesc_eq read, Option.bind_some]
        congr 1
        -- the superblock is read behind the two writes, which do not touch it
        rw [show rd32 (groupDesc fs d (fs.groupOf x)) bgBlockBitmap =
          bitmapBlock fs d .block (fs.groupOf x) from rfl, extReadSuper_behind ok ltG]
        rfl
  · rw [if_neg read, extReadBgDesc_none read]
    rfl

/-- A block that holds no metadata is not the first of the partition. -/
theorem ne_zero_of_not_meta (ok : Consistent fs d) (has : fs.HasBlock x)
    (notMeta : x ∉ metaBlocks fs d) : x ≠ 0 := by
  rintro rfl
  refine notMeta (mapBlocks_subset ?_)
  have zero : fs.superBlock = 0 := by
    rw [← ok.firstDataBlock]
    exact Nat.le_zero.1 has.1
  rw [← zero]
  exact superBlock_mem

/-- `ext2_free_block` releases a block that holds no metadata. -/
theorem extFreeBlock_ok (ok : Consistent fs d) (has : fs.HasBlock x)
    (read : fs.DescRead (fs.groupOf x)) (notMeta : x ∉ metaBlocks fs d) :
    ∃ d', extFreeBlock fs d x = some d' ∧ Marked fs d x false d' := by
  rw [extFreeBlock_eq ok has (ne_zero_of_not_meta ok has notMeta), if_pos read]
  cases used : blockUsed fs d x with
  | true => exact ⟨_, rfl, unmarkBlock_marked ok read has used notMeta⟩
  | false =>
      refine ⟨d, rfl, ok, fun y hasY => ?_, fun i pos le => rfl, fun y off => rfl,
        fun _ _ _ => rfl, fun _ _ => rfl, rfl⟩
      split
      next same => rw [same, used]
      · rfl

end Blocks

/-! ## Inodes -/

section Inodes

variable {g b ino : Nat}

/-- The descriptor after an inode is taken. -/
def takenInode (isDir : Bool) (bg : Bytes) : Bytes :=
  let bg := wr16 bg bgFreeInodes (rd16 bg bgFreeInodes - 1)
  if isDir then wr16 bg bgUsedDirs (rd16 bg bgUsedDirs + 1) else bg

/-- The descriptor after an inode is given back. -/
def givenInode (wasDir : Bool) (bg : Bytes) : Bytes :=
  let bg := wr16 bg bgFreeInodes (rd16 bg bgFreeInodes + 1)
  if wasDir && decide (0 < rd16 bg bgUsedDirs) then
    wr16 bg bgUsedDirs (rd16 bg bgUsedDirs - 1) else bg

/-- The count of directories is apart from the fields of the pools. -/
theorem rd_usedDirs_apart (bg : Bytes) (c : Bool) (v : Nat) :
    (∀ o, o + 4 ≤ bgUsedDirs → rd32 (if c then wr16 bg bgUsedDirs v else bg) o = rd32 bg o) ∧
      ∀ o, o + 2 ≤ bgUsedDirs → rd16 (if c then wr16 bg bgUsedDirs v else bg) o = rd16 bg o := by
  cases c with
  | false => exact ⟨fun _ _ => rfl, fun _ _ => rfl⟩
  | true =>
      exact ⟨fun o le => rd32_wr16_of_apart (.inl le), fun o le => rd16_wr16_of_apart (.inl le)⟩

theorem inode_changes {v : Bool} {n t : Nat} {map bg : Bytes} (c : Bool) (dirs : Nat)
    (bits : ∀ c, getBit map c = if c = b then v else getBit (d (bitmapBlock fs d .inode g)) c)
    (ltN : n < 65536) (ltT : t < 2 ^ 32) (eq : bg = wr16 (groupDesc fs d g) bgFreeInodes n) :
    Changes fs d .inode g b v n t map (if c then wr16 bg bgUsedDirs dirs else bg)
      (wr32 (extReadSuper fs d) sbFreeInodes t) where
  map := bits
  bitmap k' := by
    rw [(rd_usedDirs_apart bg c dirs).1 _ (by cases k' <;> decide), eq]
    exact rd32_wr16_of_apart (by cases k' <;> decide)
  table := by
    rw [(rd_usedDirs_apart bg c dirs).1 _ (by decide), eq]
    exact rd32_wr16_of_apart (by decide)
  free k' := by
    rw [(rd_usedDirs_apart bg c dirs).2 _ (by cases k' <;> decide), eq]
    cases k' with
    | block => exact rd16_wr16_of_apart (by decide)
    | inode => exact rd16_wr16 ltN
  total k' := by
    cases k' with
    | block => exact rd32_wr32_of_apart (by decide)
    | inode => exact rd32_wr32 ltT
  firstIno := rd32_wr32_of_apart (by decide)

/-- The volume after the inode at a place of a group is marked. -/
def markInode (fs : ExtFs) (d : Volume) (isDir : Bool) (g b : Nat) : Volume :=
  commit fs d .inode g (setBit (d (bitmapBlock fs d .inode g)) b)
    (takenInode isDir (groupDesc fs d g))
    (wr32 (extReadSuper fs d) sbFreeInodes (rd32 (extReadSuper fs d) sbFreeInodes - 1))

/-- The volume after the inode at a place of a group is released. -/
def unmarkInode (fs : ExtFs) (d : Volume) (wasDir : Bool) (g b : Nat) : Volume :=
  commit fs d .inode g (clearBit (d (bitmapBlock fs d .inode g)) b)
    (givenInode wasDir (groupDesc fs d g))
    (wr32 (extReadSuper fs d) sbFreeInodes (rd32 (extReadSuper fs d) sbFreeInodes + 1))

/-- An allocation marks an inode of the volume that was not marked. -/
structure InodeAllocated (fs : ExtFs) (d : Volume) (ino : Nat) (d' : Volume) : Prop
    extends InodeMarked fs d ino true d' where
  pos : 0 < ino
  le : ino ≤ fs.inodesCount
  read : fs.DescRead ((ino - 1) / fs.inodesPerGroup)
  wasFree : inodeUsed fs d ino = false
  notReserved : firstInode fs d ≤ ino

theorem inode_eq (geo : Geometry fs) (ltG : g < fs.groups) (ltB : b < fs.inodesPerGroup) :
    0 < g * fs.inodesPerGroup + b + 1 ∧ g * fs.inodesPerGroup + b + 1 ≤ fs.inodesCount ∧
      (g * fs.inodesPerGroup + b + 1 - 1) / fs.inodesPerGroup = g ∧
      (g * fs.inodesPerGroup + b + 1 - 1) % fs.inodesPerGroup = b := by
  have next := Nat.mul_le_mul_right fs.inodesPerGroup (Nat.succ_le_of_lt ltG)
  rw [Nat.succ_mul] at next
  have rel : g * fs.inodesPerGroup + b + 1 - 1 = b + g * fs.inodesPerGroup := by omega
  refine ⟨by omega, by rw [geo.inodesCount.1]; omega, ?_, ?_⟩
  · rw [rel, Nat.add_mul_div_right _ _ (by omega), Nat.div_eq_of_lt ltB, Nat.zero_add]
  · rw [rel, Nat.add_mul_mod_self_right, Nat.mod_eq_of_lt ltB]

theorem markInode_allocated (ok : Consistent fs d)
    (read : fs.DescRead ((ino - 1) / fs.inodesPerGroup)) (pos : 0 < ino)
    (le : ino ≤ fs.inodesCount) (free : inodeUsed fs d ino = false) (isDir : Bool) :
    InodeAllocated fs d ino (markInode fs d isDir ((ino - 1) / fs.inodesPerGroup)
      ((ino - 1) % fs.inodesPerGroup)) := by
  obtain ⟨ltG, ltB⟩ := inode_lt ok.toGeometry pos le
  have bits : ∀ c, getBit (setBit (d (bitmapBlock fs d .inode ((ino - 1) / fs.inodesPerGroup)))
      ((ino - 1) % fs.inodesPerGroup)) c = if c = (ino - 1) % fs.inodesPerGroup then true else
        getBit (d (bitmapBlock fs d .inode ((ino - 1) / fs.inodesPerGroup))) c := by
    intro c
    rw [getBit_setBit]
    by_cases same : c = (ino - 1) % fs.inodesPerGroup <;> simp [same]
  have ltN : (pool fs d .inode).free ((ino - 1) / fs.inodesPerGroup) < 65536 := rd16_lt
  have ltT : (pool fs d .inode).total < 2 ^ 32 := rd32_lt
  have changes := inode_changes (d := d) isDir
    (rd16 (wr16 (groupDesc fs d ((ino - 1) / fs.inodesPerGroup)) bgFreeInodes
      ((pool fs d .inode).free ((ino - 1) / fs.inodesPerGroup) - 1)) bgUsedDirs + 1) bits
    (n := (pool fs d .inode).free ((ino - 1) / fs.inodesPerGroup) - 1)
    (t := (pool fs d .inode).total - 1) (by omega) (by omega) rfl
  have committed := commit_committed ok read ltG changes (ok.inodes.take ltG ltB free) (by simp)
    (by simp)
  refine ⟨committed.inodeMarked ok.toGeometry pos, pos, le, read, free, ?_⟩
  by_contra lt
  rw [ok.reserved ino pos (by omega) le] at free
  exact absurd free (by simp)

theorem unmarkInode_marked (ok : Consistent fs d)
    (read : fs.DescRead ((ino - 1) / fs.inodesPerGroup)) (pos : 0 < ino)
    (le : ino ≤ fs.inodesCount) (used : inodeUsed fs d ino = true)
    (notReserved : firstInode fs d ≤ ino) (wasDir : Bool) :
    InodeMarked fs d ino false (unmarkInode fs d wasDir ((ino - 1) / fs.inodesPerGroup)
      ((ino - 1) % fs.inodesPerGroup)) := by
  obtain ⟨ltG, ltB⟩ := inode_lt ok.toGeometry pos le
  have counted := ok.inodes.give ltG ltB used
  have all := Nat.le_trans counted.total_le (Finset.sum_le_card_nsmul _ _ fs.inodesPerGroup
    fun g _ => Nat.min_le_left _ _)
  rw [Finset.card_range] at all
  have few := ok.inodesCount
  have group : (pool fs d .inode).free ((ino - 1) / fs.inodesPerGroup) ≤ 32768 := by
    rw [ok.inodes.group _ ltG]
    refine Nat.le_trans BitPool.clear_le ?_
    have most := ok.inodesPerGroup.2
    unfold ExtFs.inodesIn
    rcases ok.blockSize with eq | eq | eq <;> omega
  have total : (pool fs d .inode).total + 1 ≤ fs.groups * fs.inodesPerGroup := all
  have bits : ∀ c, getBit (clearBit (d (bitmapBlock fs d .inode ((ino - 1) / fs.inodesPerGroup)))
      ((ino - 1) % fs.inodesPerGroup)) c = if c = (ino - 1) % fs.inodesPerGroup then false else
        getBit (d (bitmapBlock fs d .inode ((ino - 1) / fs.inodesPerGroup))) c := by
    intro c
    rw [getBit_clearBit]
    by_cases same : c = (ino - 1) % fs.inodesPerGroup <;> simp [same]
  have changes := inode_changes (d := d)
    (wasDir && decide (0 < rd16 (wr16 (groupDesc fs d ((ino - 1) / fs.inodesPerGroup)) bgFreeInodes
      ((pool fs d .inode).free ((ino - 1) / fs.inodesPerGroup) + 1)) bgUsedDirs))
    (rd16 (wr16 (groupDesc fs d ((ino - 1) / fs.inodesPerGroup)) bgFreeInodes
      ((pool fs d .inode).free ((ino - 1) / fs.inodesPerGroup) + 1)) bgUsedDirs - 1) bits
    (n := (pool fs d .inode).free ((ino - 1) / fs.inodesPerGroup) + 1)
    (t := (pool fs d .inode).total + 1) (by omega) (by omega) rfl
  refine (commit_committed ok read ltG changes counted (by simp)
    fun _ _ i posI lt same => ?_).inodeMarked ok.toGeometry pos
  have split := Nat.div_add_mod' (i - 1) fs.inodesPerGroup
  have split' := Nat.div_add_mod' (ino - 1) fs.inodesPerGroup
  rw [same.1, same.2, split'] at split
  omega

/-- The search from a group on finds a free inode, or there is none in the groups it
looks at. -/
theorem extAllocInodeFrom_cases (ok : Consistent fs d) (isDir : Bool) (fuel g : Nat)
    (most : g + fuel ≤ fs.groups + 1) :
    (∃ ino d', InodeAllocated fs d ino d' ∧
      extAllocInodeFrom fs isDir d g fuel = some (ino, d')) ∨
    (extAllocInodeFrom fs isDir d g fuel = none ∧
      ∀ h, g ≤ h → h < g + fuel → h < fs.groups → fs.DescRead h →
        ∀ b, b < fs.inodesIn h → (pool fs d .inode).used h b = true) := by
  have geo := ok.toGeometry
  have count := geo.inodesCount
  have per := geo.inodesPerGroup.1
  induction fuel generalizing g with
  | zero => exact .inr ⟨rfl, fun h le lt _ => by omega⟩
  | succ fuel ih =>
      have rest := ih (g + 1) (by omega)
      rw [Nat.succ_add_eq_add_succ] at rest
      unfold extAllocInodeFrom
      by_cases read : fs.DescRead g
      swap
      · -- the descriptor is not read, and the search ends
        exact .inr ⟨by rw [extReadBgDesc_none read]; rfl,
          fun h le lt ltH readH => absurd (readH.of_le le) read⟩
      have small := (geo.small read).2
      rw [extReadBgDesc_eq read]
      simp only [Option.bind_eq_bind, Option.bind_some]
      rcases Nat.lt_or_ge g fs.groups with ltG | phantom
      · have counted := ok.inodes.free_eq_zero_iff ltG
        have size := geo.inodesIn_eq ltG
        split
        next zero =>
          have full := counted.1 zero
          exact rest.imp id fun none => ⟨none.1, full_from full none.2⟩
        next some =>
          have exact' : ∀ b, b < fs.inodesPerGroup →
              (g * fs.inodesPerGroup + b + 1) % 2 ^ 32 = g * fs.inodesPerGroup + b + 1 :=
            fun b lt => by
              have inode := inode_eq geo ltG lt
              exact Nat.mod_eq_of_lt (by omega)
          have goes : ∀ b, b < fs.inodesPerGroup →
              decide (fs.inodesCount < (g * fs.inodesPerGroup + b + 1) % 2 ^ 32) = false := by
            intro b lt
            have inode := inode_eq geo ltG lt
            rw [exact' b lt, decide_eq_false_iff_not]
            omega
          show (_ ∨ _)
          cases found : extFindBit (d (rd32 (groupDesc fs d g) bgInodeBitmap))
              (fun b => decide ((g * fs.inodesPerGroup + b + 1) % 2 ^ 32 < firstInode fs d) &&
                decide ((g * fs.inodesPerGroup + b + 1) % 2 ^ 32 ≠ 2))
              (fun b => decide (fs.inodesCount < (g * fs.inodesPerGroup + b + 1) % 2 ^ 32)) 0
              fs.inodesPerGroup with
          | none =>
              exfalso
              obtain ⟨b, lt, free⟩ : ∃ b, b < fs.inodesIn g ∧
                  (pool fs d .inode).used g b = false := by
                by_contra none
                refine some (counted.2 fun b lt => ?_)
                by_contra free
                exact none ⟨b, lt, by simpa using free⟩
              rw [size] at lt
              obtain ⟨pos, le, group, bit⟩ := inode_eq geo ltG lt
              rcases extFindBit_none found (Nat.zero_le b) (by omega) fun e le =>
                goes e (by omega) with skip | used
              · rw [Bool.and_eq_true, decide_eq_true_eq, exact' b lt] at skip
                have reserved := ok.reserved _ pos skip.1 le
                rw [inodeUsed, group, bit] at reserved
                exact absurd (reserved.symm.trans free) (by simp)
              · exact absurd (used.symm.trans free) (by simp)
          | some b =>
              obtain ⟨-, ltB, -, -, free⟩ := extFindBit_some found
              rw [Nat.zero_add] at ltB
              obtain ⟨pos, le, group, bit⟩ := inode_eq geo ltG ltB
              have wasFree : inodeUsed fs d (g * fs.inodesPerGroup + b + 1) = false := by
                rw [inodeUsed, group, bit]
                exact free
              have allocated := markInode_allocated ok (group.symm ▸ read) pos le wasFree isDir
              rw [group, bit] at allocated
              refine .inl ⟨_, _, allocated, ?_⟩
              rw [show (fun b => decide ((g * fs.inodesPerGroup + b + 1) % 2 ^ 32 <
                  firstInode fs d) && decide ((g * fs.inodesPerGroup + b + 1) % 2 ^ 32 ≠ 2)) = _
                from rfl] at found
              unfold firstInode at found
              simp only [found, extWriteBgDesc_eq read, Option.bind_some, exact' b ltB]
              rfl
      · -- a group that is not there has no inodes
        have last : g = fs.groups := by omega
        have beyond : (g * fs.inodesPerGroup + 0 + 1) % 2 ^ 32 = fs.inodesCount + 1 := by
          have all : g * fs.inodesPerGroup = fs.inodesCount := by rw [last, count.1]
          rw [all] at small ⊢
          exact Nat.mod_eq_of_lt (by omega)
        have stop : decide (fs.inodesCount < (g * fs.inodesPerGroup + 0 + 1) % 2 ^ 32) = true := by
          rw [decide_eq_true_eq, beyond]
          omega
        have none : ∀ h, g ≤ h → h < g + (fuel + 1) → h < fs.groups → fs.DescRead h →
            ∀ b, b < fs.inodesIn h → (pool fs d .inode).used h b = true :=
          fun h le _ ltH => by omega
        have restNone : extAllocInodeFrom fs isDir d (g + 1) fuel = Option.none := by
          have zero : fuel = 0 := by omega
          rw [zero]
          rfl
        refine .inr ⟨?_, none⟩
        split
        · exact restNone
        · simp only [extFindBit_of_stop (b := 0) (t := fun b => decide (fs.inodesCount <
            (g * fs.inodesPerGroup + b + 1) % 2 ^ 32)) stop]
          exact restNone

/-- `ext2_alloc_inode` marks a free inode, -/
theorem extAllocInode_ok {isDir : Bool} (ok : Consistent fs d)
    (eq : extAllocInode fs d isDir = some (ino, d')) : InodeAllocated fs d ino d' := by
  have most := ok.toGeometry.groupCount_le
  rcases extAllocInodeFrom_cases ok isDir fs.groupCount 0 (by omega) with
    ⟨i, d'', allocated, found⟩ | ⟨none, -⟩
  · rw [extAllocInode, found] at eq
    obtain ⟨rfl, rfl⟩ := Prod.mk.inj (Option.some.inj eq)
    exact allocated
  · rw [extAllocInode, none] at eq
    exact absurd eq (by simp)

/-- and fails only when there is none in the groups it looks at. -/
theorem extAllocInode_none {isDir : Bool} (ok : Consistent fs d)
    (eq : extAllocInode fs d isDir = none) (pos : 0 < ino) (le : ino ≤ fs.inodesCount)
    (searched : fs.Searched ((ino - 1) / fs.inodesPerGroup)) : inodeUsed fs d ino = true := by
  have most := ok.toGeometry.groupCount_le
  rcases extAllocInodeFrom_cases ok isDir fs.groupCount 0 (by omega) with
    ⟨i, d'', -, found⟩ | ⟨-, full⟩
  · rw [extAllocInode, found] at eq
    exact absurd eq (by simp)
  · obtain ⟨ltG, ltB⟩ := inode_lt ok.toGeometry pos le
    have counted := searched.2.1
    exact full _ (Nat.zero_le _) (by omega) ltG searched.2.2 _ ltB

/-- `ext2_free_inode` finds the mark of the inode. -/
theorem extFreeInode_eq {wasDir : Bool} (ok : Consistent fs d) (pos : 0 < ino)
    (le : ino ≤ fs.inodesCount) (read : fs.DescRead ((ino - 1) / fs.inodesPerGroup)) :
    extFreeInode fs d ino wasDir = some (if inodeUsed fs d ino then unmarkInode fs d wasDir
      ((ino - 1) / fs.inodesPerGroup) ((ino - 1) % fs.inodesPerGroup) else d) := by
  obtain ⟨ltG, -⟩ := inode_lt ok.toGeometry pos le
  unfold extFreeInode
  rw [if_neg (by omega)]
  simp only [extReadBgDesc_eq read, Option.bind_eq_bind, Option.bind_some]
  rw [show getBit (d (rd32 (groupDesc fs d ((ino - 1) / fs.inodesPerGroup)) bgInodeBitmap))
    ((ino - 1) % fs.inodesPerGroup) = inodeUsed fs d ino from rfl]
  cases inodeUsed fs d ino with
  | false => rfl
  | true =>
      simp only [Bool.not_true, Bool.false_eq_true, if_false, if_true, extWriteBgDesc_eq read,
        Option.bind_some]
      congr 1
      -- the superblock is read behind the two writes, which do not touch it
      rw [show rd32 (groupDesc fs d ((ino - 1) / fs.inodesPerGroup)) bgInodeBitmap =
        bitmapBlock fs d .inode ((ino - 1) / fs.inodesPerGroup) from rfl,
        extReadSuper_behind ok ltG]
      rfl

/-- `ext2_free_inode` releases an inode in use that is not reserved, and leaves one alone
that is not marked. -/
theorem extFreeInode_ok (wasDir : Bool) (ok : Consistent fs d) (pos : 0 < ino)
    (le : ino ≤ fs.inodesCount) (read : fs.DescRead ((ino - 1) / fs.inodesPerGroup))
    (notReserved : firstInode fs d ≤ ino) :
    ∃ d', extFreeInode fs d ino wasDir = some d' ∧ InodeMarked fs d ino false d' := by
  rw [extFreeInode_eq ok pos le read]
  cases used : inodeUsed fs d ino with
  | true => exact ⟨_, rfl, unmarkInode_marked ok read pos le used notReserved wasDir⟩
  | false =>
      refine ⟨d, rfl, ok, fun i posI leI => ?_, fun y has => rfl, fun y off => rfl,
        fun _ _ _ => rfl, fun _ _ => rfl, rfl⟩
      split
      next same => rw [same, used]
      · rfl

end Inodes

end NTux.Ext
