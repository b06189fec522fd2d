import Mathlib.Data.List.TakeWhile
import NTux.Ext.Formatted

/-!
# Files on a formatted volume

A formatted volume has one directory, of one block.  `RootAt` says what stays true of it
while a file is made there and written: the inode of the root is where it was, and its
block is tiled by records.  `mkfs_then_mount` puts the format, the mount, the making of a
file and its reading together.
-/

namespace NTux.Ext

open NTux.Lib NTux.Lib.Bytes NTux.Lib.BitPool NTux.Lib.Keyed NTux.Fs

variable {drv : Driver} {blocks : Nat} {old d d' : Volume} {fs : ExtFs} {dir : Bytes}
  {es : List DirEntry} {name : List UInt8} {b : Nat}

/-! ## A directory of one block -/

/-- The blocks a driver finds a directory in. -/
def Driver.dirBlocks : Driver → ExtFs → Volume → Bytes → List Nat
  | .ext2 => fun _ _ dir => NTux.Ext.dirBlocks dir
  | .ext4 => ext4DirBlocks

theorem dirFind_single (one : drv.dirBlocks fs d dir = [b])
    (tiled : Tiled fs.blockSize (d b) 0 es) :
    drv.dirFind fs d dir name = (links es).lookup name := by
  have walk := dirWalk_entry id (DirEntry.names name) (fun _ _ => rfl) tiled tiled.few none
  have here : ([b].findSome? fun block =>
      (dirWalk fs.blockSize id (DirEntry.names name) (d block) fs.blockSize 0 none).map fun r =>
        ((dirEntryAt (d block) r.1).inode, (dirEntryAt (d block) r.1).fileType)) =
      (links es).lookup name := by
    rw [List.findSome?_cons, List.findSome?_nil, lookup_links, ← walk, Option.map_map]
    cases dirWalk fs.blockSize id (DirEntry.names name) (d b) fs.blockSize 0 none <;> rfl
  rw [← here]
  cases drv with
  | ext2 =>
      have blocks : NTux.Ext.dirBlocks dir = [b] := one
      show extDirFind fs d dir name = _
      unfold extDirFind
      rw [blocks]
  | ext4 =>
      have blocks : ext4DirBlocks fs d dir = [b] := one
      show ext4DirFind fs d dir name = _
      unfold ext4DirFind
      rw [blocks]

/-- Where a record has room, the entry is stored in the block. -/
theorem dirAddEntry_single {child : Nat} (parent : Nat) (fileType : UInt8)
    (one : drv.dirBlocks fs d dir = [b]) (tiled : Tiled fs.blockSize (d b) 0 es)
    (most : fs.blockSize < 65536) (some' : name ≠ []) (short : name.length ≤ 255)
    (room : ∃ e ∈ es, e.hasRoom (extAlign4 (8 + name.length)) = true) (used : child ≠ 0)
    (lt : child < 2 ^ 32) :
    ∃ buf es', drv.dirAddEntry fs d parent dir child fileType name =
        .ok (extWriteBlock d b buf, dir) ∧ Tiled fs.blockSize buf 0 es' ∧
      Inserted (name, child, fileType) (links es) (links es') := by
  have named : ¬ (name.length = 0 ∨ 255 < name.length) := by
    have pos := List.length_pos_iff.2 some'
    omega
  have all : ∀ x ∈ [b], TiledBlock fs (d x) := fun x mem =>
    List.mem_singleton.1 mem ▸ ⟨es, tiled⟩
  rcases findSome_walk (DirEntry.hasRoom (extAlign4 (8 + name.length))) (fun b r => (b, r.1))
    most all with
      ⟨-, full⟩ | ⟨x, mem, pre, e, post, mid, prev, whole, before, after, found, -, walk⟩
  · obtain ⟨e, mem, has⟩ := room
    rw [full b (List.mem_singleton.2 rfl) es tiled e mem] at has
    exact absurd has (by simp)
  · obtain rfl := List.mem_singleton.1 mem
    obtain ⟨es', l₁, l₂, tiled', links₁, links₂⟩ := placeEntry_tiled fileType before after
      most found some' short used lt
    have same : es = pre ++ e :: post := by
      rw [← recordsFrom_eq tiled tiled.few, recordsFrom_eq whole whole.few]
    refine ⟨_, es', ?_, tiled', l₁, l₂, same ▸ links₁, links₂⟩
    cases drv with
    | ext2 =>
        have blocks : NTux.Ext.dirBlocks dir = [x] := one
        show extDirAddEntry fs d parent dir child fileType name = _
        unfold extDirAddEntry
        rw [if_neg named, blocks]
        dsimp only
        rw [walk]
    | ext4 =>
        have blocks : ext4DirBlocks fs d dir = [x] := one
        show ext4DirAddEntry fs d parent dir child fileType name = _
        unfold ext4DirAddEntry
        rw [if_neg named, blocks]
        dsimp only
        rw [walk]

/-! ## The block of the root -/

/-- The fields of the root that `ext4.c` finds its block by. -/
theorem mkfsRoot_extents (fit : MkfsBlocks blocks) :
    rd32 (mkfsRoot .ext4 blocks) inSize = 4096 ∧
      rd32 (mkfsRoot .ext4 blocks) inFlags = 0x00080000 ∧
      rd16 (mkfsRoot .ext4 blocks) 40 = 0xF30A ∧ rd16 (mkfsRoot .ext4 blocks) 42 = 1 ∧
      rd16 (mkfsRoot .ext4 blocks) 46 = 0 ∧ rd32 (mkfsRoot .ext4 blocks) 52 = 0 ∧
      rd16 (mkfsRoot .ext4 blocks) 56 = 1 ∧ rd16 (mkfsRoot .ext4 blocks) 58 = 0 ∧
      rd32 (mkfsRoot .ext4 blocks) 60 = mkfsRootBlock blocks := by
  obtain ⟨-, -, -, -, few, root, -, -⟩ := mkfs_sizes fit
  have offsets : inMode = 0 ∧ inSize = 4 ∧ inBlocks = 28 ∧ inFlags = 32 ∧ inBlock = 40 :=
    ⟨rfl, rfl, rfl, rfl, rfl⟩
  obtain ⟨mode, size, blocksAt, flags, block⟩ := offsets
  refine ⟨?_, ?_, ?_, ?_, ?_, ?_, ?_, ?_, ?_⟩ <;>
    simp (disch := omega) only [mkfsRoot, mode, size, blocksAt, flags, block, Nat.reduceAdd,
      rd32_wr32_of_apart, rd32_wr16_of_apart, rd16_wr32_of_apart, rd16_wr16_of_apart,
      rd32_wr32, rd16_wr16]

theorem mkfsRoot_ptrs (fit : MkfsBlocks blocks) :
    inodePtr (mkfsRoot .ext2 blocks) 0 = mkfsRootBlock blocks ∧
      ∀ j, 1 ≤ j → j < 12 → inodePtr (mkfsRoot .ext2 blocks) j = 0 := by
  obtain ⟨-, -, -, -, few, root, -, -⟩ := mkfs_sizes fit
  have offsets : inMode = 0 ∧ inSize = 4 ∧ inBlocks = 28 ∧ inFlags = 32 ∧ inBlock = 40 :=
    ⟨rfl, rfl, rfl, rfl, rfl⟩
  obtain ⟨mode, size, blocksAt, -, block⟩ := offsets
  constructor
  · rw [inodePtr, block]
    simp (disch := omega) only [mkfsRoot, mode, size, blocksAt, block, Nat.mul_zero,
      Nat.add_zero, rd32_wr32]
  · intro j pos lt
    have zero : rd32 zeroed (40 + 4 * j) = 0 := rfl
    rw [inodePtr, block]
    simp (disch := omega) only [mkfsRoot, mode, size, blocksAt, block,
      rd32_wr32_of_apart, rd32_wr16_of_apart, zero]

/-- The record of the root, whatever is behind it. -/
def IsRoot (drv : Driver) (blocks : Nat) (dir : Bytes) : Prop :=
  ∀ k, k < inodeRecordSize → dir k = mkfsRoot drv blocks k

theorem IsRoot.rd32_eq (root : IsRoot drv blocks dir) {o : Nat} (le : o + 4 ≤ 128) :
    rd32 dir o = rd32 (mkfsRoot drv blocks) o :=
  rd32_congr fun i lt => root (o + i) (show o + i < 128 by omega)

theorem IsRoot.rd16_eq (root : IsRoot drv blocks dir) {o : Nat} (le : o + 2 ≤ 128) :
    rd16 dir o = rd16 (mkfsRoot drv blocks) o :=
  rd16_congr fun i lt => root (o + i) (show o + i < 128 by omega)

theorem IsRoot.isDir (root : IsRoot drv blocks dir) : rd16 dir inMode &&& sIfDir ≠ 0 := by
  rw [root.rd16_eq (show inMode + 2 ≤ 128 by decide)]
  exact mkfsRoot_isDir

/-- Both drivers find the root directory in its block. -/
theorem IsRoot.dirBlocks (root : IsRoot drv blocks dir) (fit : MkfsBlocks blocks) (d : Volume) :
    drv.dirBlocks (mkfsFs drv blocks) d dir = [mkfsRootBlock blocks] := by
  obtain ⟨-, -, -, -, few, place, -, -⟩ := mkfs_sizes fit
  cases drv with
  | ext2 =>
      obtain ⟨first, rest⟩ := mkfsRoot_ptrs fit
      have ptrs : ∀ j, j < 12 → inodePtr dir j = inodePtr (mkfsRoot .ext2 blocks) j := fun j lt =>
        root.rd32_eq (show 40 + 4 * j + 4 ≤ 128 by omega)
      show NTux.Ext.dirBlocks dir = _
      rw [dirBlocks_congr ptrs]
      show livePtrs (inodePtr (mkfsRoot .ext2 blocks)) 0 12 = _
      have behind : livePtrs (inodePtr (mkfsRoot .ext2 blocks)) 1 11 = [] := by
        rw [List.eq_nil_iff_forall_not_mem]
        intro x mem
        obtain ⟨ne, j, ge, lt, eq⟩ := mem_livePtrs.1 mem
        exact ne (eq ▸ rest j ge (by omega))
      rw [livePtrs_succ, behind, first, if_neg (by omega)]
      rfl
  | ext4 =>
      obtain ⟨size, flags, magic, entries, depth, start, len, high, low⟩ := mkfsRoot_extents fit
      rw [← root.rd32_eq (show inSize + 4 ≤ 128 by decide)] at size
      rw [← root.rd32_eq (show inFlags + 4 ≤ 128 by decide)] at flags
      rw [← root.rd16_eq (by omega)] at magic entries depth len high
      rw [← root.rd32_eq (by omega)] at start low
      have one : ext4DirSize (mkfsFs .ext4 blocks) dir = 1 := by
        rw [ext4DirSize, size]
        show (4096 + 4096 - 1) % 2 ^ 32 / 4096 = 1
        decide
      have uses : ext4InodeUsesExtents dir = true := by
        rw [ext4InodeUsesExtents, flags]
        decide
      have found : ext4ExtentGetPhysBlock dir 0 = some (mkfsRootBlock blocks) := by
        have offsets : ehMagic = 40 ∧ ehEntries = 42 ∧ ehDepth = 46 ∧ extentAt 0 = 52 :=
          ⟨rfl, rfl, rfl, rfl⟩
        obtain ⟨atMagic, atEntries, atDepth, atExtent⟩ := offsets
        unfold ext4ExtentGetPhysBlock
        rw [atMagic, atEntries, atDepth, magic, entries, depth,
          if_neg (by decide), List.range_one, List.findSome?_cons, List.findSome?_nil]
        dsimp only
        rw [eeLen, eeStart, atExtent, start, len, high, low, if_neg (by decide)]
        dsimp only
        congr 1
        omega
      show ext4DirBlocks (mkfsFs .ext4 blocks) d dir = _
      rw [ext4DirBlocks, one, List.range_one, List.filterMap_cons, ext4InodeGetDataBlock,
        if_pos uses, found]
      rfl

/-! ## What stays true of the root -/

/-- The root of a formatted volume, whose block holds the records `es`. -/
structure RootAt (drv : Driver) (blocks : Nat) (d : Volume) (es : List DirEntry) : Prop where
  consistent : Consistent (mkfsFs drv blocks) d
  table : rd32 (groupDesc (mkfsFs drv blocks) d 0) bgInodeTable = 4
  inode : ∀ i, d 4 (128 + i) = mkfsRoot drv blocks i ∨ inodeRecordSize ≤ i
  data : DataBlock (mkfsFs drv blocks) d (mkfsRootBlock blocks)
  used : blockUsed (mkfsFs drv blocks) d (mkfsRootBlock blocks) = true
  tiled : Tiled 4096 (d (mkfsRootBlock blocks)) 0 es

theorem rootAt_mkfs (fit : MkfsBlocks blocks) :
    RootAt drv blocks (mkfsVolume drv blocks old) rootEntries where
  consistent := mkfs_consistent fit
  table := by rw [groupDesc_mkfs, (mkfsDesc_fields fit).2.2.1]
  inode i := .inl (by rw [mkfsVolume_table, mkfsTable_root])
  data := (rootBlock_mkfs fit).1
  used := (rootBlock_mkfs fit).2
  tiled := by
    rw [mkfsVolume_rootDir fit]
    exact rootDir_tiled

namespace RootAt

variable {ino : Nat} {inode : Bytes}

section Frame

variable (fit : MkfsBlocks blocks) (root : RootAt drv blocks d es)

include fit root

theorem table_mem : 4 ∈ tableBlocks (mkfsFs drv blocks) d := by
  obtain ⟨few, -⟩ := mkfs_sizes fit
  have mem := inodeBlock_mem (d := d) root.consistent.toGeometry
    (show (mkfsFs drv blocks).HasInode 1 from
      ⟨by omega, show 1 ≤ mkfsInodes blocks by omega⟩)
  rw [(inodePlace_mkfs root.table (show 1 ≤ mkfsInodes blocks by omega) (by omega)).1] at mem
  exact mem

theorem four_not_map : 4 ∉ mapBlocks (mkfsFs drv blocks) d := fun mem =>
  (List.nodup_append.1 root.consistent.distinct).2.2 _ mem _ (root.table_mem fit) rfl

theorem four_ne : 4 ≠ mkfsRootBlock blocks := fun same =>
  root.data.2 (same ▸ List.mem_append_right _ (root.table_mem fit))

/-- A change that keeps the table's first block and the block of the root. -/
theorem frame {es' : List DirEntry} (ok : Consistent (mkfsFs drv blocks) d')
    (places : SamePlaces (mkfsFs drv blocks) d d') (four : d' 4 = d 4)
    (used : blockUsed (mkfsFs drv blocks) d' (mkfsRootBlock blocks) = true)
    (tiled : Tiled 4096 (d' (mkfsRootBlock blocks)) 0 es') : RootAt drv blocks d' es' where
  consistent := ok
  table := by
    rw [places.table 0 (by rw [mkfsFs_groups fit]; decide), root.table]
  inode i := by
    rw [four]
    exact root.inode i
  data := places.dataBlock root.data
  used := used
  tiled := tiled

theorem alloc (allocated : InodeAllocated (mkfsFs drv blocks) d ino d') :
    RootAt drv blocks d' es := by
  apply root.frame fit allocated.consistent allocated.places
  · exact allocated.frame 4 (root.four_not_map fit)
  · rw [allocated.blocks _ root.data.1, root.used]
  · rw [allocated.frame _ root.data.not_map]
    exact root.tiled

theorem grown {part : List Nat} (grown : Grown (mkfsFs drv blocks) d part d') :
    RootAt drv blocks d' es := by
  have kept : ∀ x, blockUsed (mkfsFs drv blocks) d x = true → x ∉ part := by
    intro x used mem
    rw [(grown.fresh x mem).2] at used
    exact absurd used (by simp)
  have four := (root.consistent.metaUsed 4 (List.mem_append_right _ (root.table_mem fit))).2
  apply root.frame fit grown.consistent grown.places
  · exact grown.frame 4 (root.four_not_map fit) (kept 4 four)
  · exact (grown.used _ root.data.1).2 (.inl root.used)
  · rw [grown.frame _ root.data.not_map (kept _ root.used)]
    exact root.tiled

/-- The root directory gets other records. -/
theorem write {buf : Bytes} {es' : List DirEntry} (tiled : Tiled 4096 buf 0 es') :
    RootAt drv blocks (extWriteBlock d (mkfsRootBlock blocks) buf) es' := by
  obtain ⟨ok, used, -, places⟩ :
      Consistent _ (extWriteBlock d (mkfsRootBlock blocks) buf) ∧ _ ∧ _ ∧ _ :=
    write_frame root.consistent root.data.not_map
  apply root.frame fit ok places
  · exact Function.update_of_ne (root.four_ne fit) _ _
  · rw [used _ root.data.1, root.used]
  · rw [extWriteBlock, Function.update_self]
    exact tiled

/-- Another inode is written. -/
theorem writeInode (pos : 2 < ino) (le : ino ≤ mkfsInodes blocks)
    (eq : extWriteInode (mkfsFs drv blocks) d ino inode = some d') : RootAt drv blocks d' es := by
  have has : (mkfsFs drv blocks).HasInode ino := ⟨by omega, le⟩
  have written := extWriteInode_ok root.consistent has eq
  have place := inodePlace_mkfs root.table le (by omega)
  rw [extWriteInode_eq root.consistent has, if_pos (inodeFits_mkfs le (by omega)), place.1,
    place.2] at eq
  obtain rfl := Option.some.inj eq
  exact {
    consistent := written.consistent
    table := by
      rw [written.places.table 0 (by rw [mkfsFs_groups fit]; decide), root.table]
    inode := by
      intro i
      rcases root.inode i with same | behind
      · by_cases inside : i < inodeRecordSize
        · left
          rw [← same, extWriteBlock]
          by_cases block : 4 = 4 + (ino - 1) * 128 / 4096
          · -- the inodes of one block are apart
            have record : inodeRecordSize = 128 := rfl
            rw [← block, Function.update_self]
            exact splice_of_apart (.inl (by omega))
          · rw [Function.update_of_ne block]
        · exact .inr (by omega)
      · exact .inr behind
    data := written.places.dataBlock root.data
    used := by rw [written.used _ root.data.1, root.used]
    tiled := by
      rw [written.data _ root.data]
      exact root.tiled }

/-- The root is read from the table. -/
theorem read : ∃ dir, extReadInode (mkfsFs drv blocks) d 2 = some dir ∧ IsRoot drv blocks dir := by
  obtain ⟨few, -⟩ := mkfs_sizes fit
  have place := inodePlace_mkfs root.table (show 2 ≤ mkfsInodes blocks by omega) (by omega)
  refine ⟨fun i => d 4 (128 + i), ?_, ?_⟩
  · rw [extReadInode_eq root.consistent ⟨by omega, show 2 ≤ mkfsInodes blocks by omega⟩,
      if_pos (inodeFits_mkfs (by omega) (by omega)), place.1, place.2]
  · intro k lt
    exact (root.inode k).resolve_right (Nat.not_le.2 lt)

/-- A name is looked up among the records of the block. -/
theorem find {dir : Bytes} (isRoot : IsRoot drv blocks dir) (name : List UInt8) :
    drv.dirFind (mkfsFs drv blocks) d dir name = (links es).lookup name :=
  dirFind_single (isRoot.dirBlocks fit d) root.tiled

end Frame

end RootAt

/-! ## Paths of names in the root -/

/-- A name that a file in the root can be made under. -/
structure LeafName (name : CString) : Prop where
  nonempty : name ≠ []
  short : name.length < vfsMaxName
  noSlash : slash ∉ name
  notDot : name ≠ dotName
  notDotDot : name ≠ dotDotName

theorem LeafName.tokens (leaf : LeafName name) :
    extPathTokens (slash :: name).length (slash :: name) = [name] := by
  have short : name.length ≤ vfsMaxName - 1 := Nat.le_sub_one_of_lt leaf.short
  have whole : name.takeWhile (· != slash) = name := by
    rw [List.takeWhile_eq_self_iff]
    intro c mem
    simp only [bne_iff_ne, ne_eq]
    exact fun same => leaf.noSlash (same ▸ mem)
  have start : (slash :: name).dropWhile (· == slash) = name := by
    cases eq : name with
    | nil => exact absurd eq leaf.nonempty
    | cons c rest =>
        have ne : c ≠ slash := fun same => leaf.noSlash (by rw [eq, same]; exact List.mem_cons_self)
        rw [List.dropWhile_cons_of_pos (by simp), List.dropWhile_cons_of_neg (by simpa using ne)]
  have rest : ∀ fuel, extPathTokens fuel [] = [] := by
    intro fuel
    cases fuel <;> rfl
  rw [List.length_cons, extPathTokens, start]
  cases eq : name with
  | nil => exact absurd eq leaf.nonempty
  | cons c tail =>
      dsimp only
      rw [← eq, whole, List.take_of_length_le short, List.drop_length, rest]

theorem LeafName.split (leaf : LeafName name) :
    extSplitParentLeaf (slash :: name) = some ([slash], name) := by
  have name' : ((slash :: name).reverse.takeWhile (· ≠ slash)).reverse = name := by
    have all : ∀ c ∈ name.reverse, decide (c ≠ slash) = true := by
      intro c mem
      rw [decide_eq_true_eq]
      exact fun same => leaf.noSlash (same ▸ List.mem_reverse.1 mem)
    rw [List.reverse_cons, List.takeWhile_append_of_pos all]
    simp
  have short := leaf.short
  unfold extSplitParentLeaf
  dsimp only
  rw [name', if_neg, List.length_cons, if_pos]
  · rw [show name.length + 1 - name.length - 1 = 0 by omega, List.take_zero]
  · rintro (bad | bad | bad)
    · exact bad rfl
    · exact leaf.nonempty bad
    · omega

section Resolve

variable {es : List DirEntry} (fit : MkfsBlocks blocks) (root : RootAt drv blocks d es)

include fit root

theorem RootAt.resolve_root : ∃ dir, IsRoot drv blocks dir ∧
    extResolvePath drv (mkfsFs drv blocks) d [slash] = some (2, dir) := by
  obtain ⟨dir, read, isRoot⟩ := root.read fit
  have rootInode : (mkfsFs drv blocks).rootInode = 2 := rfl
  refine ⟨dir, isRoot, ?_⟩
  unfold extResolvePath
  rw [if_neg (by simp), rootInode, read]
  rfl

/-- A name in the root leads to the inode of its entry. -/
theorem RootAt.resolve_leaf (leaf : LeafName name) :
    extResolvePath drv (mkfsFs drv blocks) d (slash :: name) =
      match (links es).lookup name with
      | none => none
      | some (next, _) =>
          (extReadInode (mkfsFs drv blocks) d next).map fun inode => (next, inode) := by
  obtain ⟨dir, read, isRoot⟩ := root.read fit
  have rootInode : (mkfsFs drv blocks).rootInode = 2 := rfl
  unfold extResolvePath
  rw [if_neg (by simp), rootInode, read]
  dsimp only
  rw [leaf.tokens, extResolveLoop, if_neg isRoot.isDir, root.find fit isRoot]
  cases (links es).lookup name with
  | none => rfl
  | some entry =>
      dsimp only
      cases extReadInode (mkfsFs drv blocks) d entry.1 <;> rfl

end Resolve

/-! ## Making and reading a file -/

/-- A new name is not one of the two there are. -/
theorem LeafName.new (leaf : LeafName name) : name ∉ keys (links rootEntries) := by
  rw [links_rootEntries]
  intro mem
  rcases List.mem_cons.1 mem with dot | mem
  · exact leaf.notDot dot
  · exact leaf.notDotDot (List.mem_singleton.1 mem)

/-- There is room for any name behind `".."`. -/
theorem LeafName.room (leaf : LeafName name) :
    ∃ e ∈ rootEntries, e.hasRoom (extAlign4 (8 + name.length)) = true := by
  have short : name.length < 64 := leaf.short
  refine ⟨⟨2, 4084, 2, 2, dotDotName⟩, by simp [rootEntries], ?_⟩
  have fits : extAlign4 (8 + 2) + extAlign4 (8 + name.length) ≤ 4084 := by
    unfold extAlign4
    omega
  unfold DirEntry.hasRoom
  rw [Bool.or_eq_true]
  exact .inr (decide_eq_true fits)

theorem mkfsFs_searched (fit : MkfsBlocks blocks) : (mkfsFs drv blocks).Searched 0 := by
  refine ⟨?_, show 0 < 1 by decide, show 0 * 32 + 32 ≤ 4096 by decide⟩
  rw [mkfsFs_groups fit]
  decide

/-- A file is made in the root of a formatted volume. -/
theorem extMakeFile_mkfs (fit : MkfsBlocks blocks) (leaf : LeafName name) (mode uid gid : Nat) :
    ∃ d₃ ino es', extMakeFile drv (mkfsFs drv blocks) (mkfsVolume drv blocks old)
        (slash :: name) mode uid gid = .ok (d₃, ino, newFileInode mode uid gid) ∧
      RootAt drv blocks d₃ es' ∧ (links es').lookup name = some (ino, 1) ∧
      2 < ino ∧ ino ≤ mkfsInodes blocks := by
  obtain ⟨few, many, -⟩ := mkfs_sizes fit
  have root : RootAt drv blocks (mkfsVolume drv blocks old) rootEntries := rootAt_mkfs fit
  obtain ⟨dir, isRoot, resolved⟩ := root.resolve_root fit
  have unknown : drv.dirFind (mkfsFs drv blocks) (mkfsVolume drv blocks old) dir name = none := by
    rw [root.find fit isRoot, lookup_eq_none_iff]
    exact leaf.new
  unfold extMakeFile
  rw [leaf.split]
  dsimp only
  rw [resolved]
  dsimp only
  rw [if_neg (by rw [not_or, unknown]; exact ⟨isRoot.isDir, Bool.false_ne_true⟩)]
  cases alloc : extAllocInode (mkfsFs drv blocks) (mkfsVolume drv blocks old) false with
  | none =>
      -- the first inode that is not reserved is free
      have searched : (mkfsFs drv blocks).Searched ((11 - 1) / (mkfsFs drv blocks).inodesPerGroup) := by
        have group : (11 - 1) / (mkfsFs drv blocks).inodesPerGroup = 0 :=
          Nat.div_eq_of_lt (show 11 - 1 < mkfsInodes blocks by omega)
        rw [group]
        exact mkfsFs_searched fit
      have used := extAllocInode_none root.consistent alloc (by omega)
        (show 11 ≤ mkfsInodes blocks by omega) searched
      rw [inodeUsed_mkfs fit (by omega) (by omega)] at used
      exact absurd used (by decide)
  | some r =>
      obtain ⟨ino, d₁⟩ := r
      have allocated := extAllocInode_ok root.consistent alloc
      have behind : 11 ≤ ino := by
        have first := allocated.notReserved
        have stored : rd32 (extReadSuper (mkfsFs drv blocks) (mkfsVolume drv blocks old))
            sbFirstIno = 11 := (extReadSuper_mkfs fit).firstIno
        rwa [firstInode, stored, if_neg (by decide)] at first
      have le : ino ≤ mkfsInodes blocks := allocated.le
      have root₁ := root.alloc fit allocated
      have has : (mkfsFs drv blocks).HasInode ino := ⟨by omega, le⟩
      obtain ⟨d₂, write⟩ : ∃ d₂, extWriteInode (mkfsFs drv blocks) d₁ ino
          (newFileInode mode uid gid) = some d₂ := by
        rw [extWriteInode_eq root₁.consistent has, if_pos (inodeFits_mkfs le (by omega))]
        exact ⟨_, rfl⟩
      have root₂ := root₁.writeInode fit (by omega) le write
      have short : name.length < 64 := leaf.short
      have size : (mkfsFs drv blocks).blockSize < 65536 := show 4096 < 65536 by decide
      obtain ⟨buf, es', added, tiled, inserted⟩ :=
        dirAddEntry_single 2 1 (isRoot.dirBlocks fit d₂) root₂.tiled size leaf.nonempty
          (by omega) leaf.room
        (show ino ≠ 0 by omega) (by omega)
      refine ⟨_, ino, es', ?_, root₂.write fit tiled, inserted.lookup_self leaf.new, by omega, le⟩
      dsimp only
      rw [write]
      dsimp only
      rw [added]

/-- The file has been made and is read back, or no block is free. -/
theorem create_then_read (fit : MkfsBlocks blocks) (leaf : LeafName name) (mode uid gid : Nat)
    (data : Bytes) {len : Nat} (lt : len < 2 ^ 32) :
    match extOpCreateFile drv (mkfsFs drv blocks) (mkfsVolume drv blocks old) (slash :: name)
      mode uid gid data len with
    | .ok d' => extOpReadFile drv (mkfsFs drv blocks) d' (slash :: name) len =
        some (slice data 0 len)
    | .error d' => ∀ x, (mkfsFs drv blocks).HasBlock x →
        blockUsed (mkfsFs drv blocks) d' x = true := by
  have root : RootAt drv blocks (mkfsVolume drv blocks old) rootEntries := rootAt_mkfs fit
  have unknown : (links rootEntries).lookup name = none := lookup_eq_none_iff.2 leaf.new
  obtain ⟨d₃, ino, es', made, root₃, found, behind, le⟩ :
      ∃ d₃ ino es', extMakeFile drv (mkfsFs drv blocks) (mkfsVolume drv blocks old)
          (slash :: name) mode uid gid = .ok (d₃, ino, newFileInode mode uid gid) ∧
        RootAt drv blocks d₃ es' ∧ (links es').lookup name = some (ino, 1) ∧
        2 < ino ∧ ino ≤ mkfsInodes blocks := extMakeFile_mkfs fit leaf mode uid gid
  have fresh := newFileInode_fresh mode uid gid
  have has : (mkfsFs drv blocks).HasInode ino := ⟨by omega, le⟩
  have create : extOpCreateFile drv (mkfsFs drv blocks) (mkfsVolume drv blocks old)
      (slash :: name) mode uid gid data len =
        drv.writeFile (mkfsFs drv blocks) d₃ ino (newFileInode mode uid gid) data len := by
    unfold extOpCreateFile extCreateOrWriteFile
    rw [root.resolve_leaf fit leaf, unknown]
    dsimp only
    rw [if_pos rfl, made]
  rw [create]
  rcases fresh.writeFile_cases drv root₃.consistent has rfl (inodeFits_mkfs le (by omega)) lt with
    ⟨d', d₄, inode₄, inds, done, filled, most, write⟩ | ⟨d', part, failed, grown, none⟩
  · rw [done]
    have written := extWriteInode_ok filled.grown.consistent has write
    have root₅ := (root₃.grown fit filled.grown).writeInode fit behind le write
    obtain ⟨inode', read, same⟩ := written.read
    have kept : ∀ k, k < 4 ∨ (32 ≤ k ∧ k < 40) → inode' k = newFileInode mode uid gid k := by
      intro k near
      rw [same k (by unfold inodeRecordSize; omega), filled.kept k (by omega),
        setSize_of_apart (by omega)]
    have spec := needed_spec root₃.consistent.toGeometry lt
    dsimp only
    unfold extOpReadFile
    rw [root₅.resolve_leaf fit leaf, found]
    dsimp only
    rw [read, Option.map_some]
    dsimp only
    refine drv.readFileData_of_holds ?_ ?_ ?_ (Nat.le_refl len) (show 0 < 4096 by decide) ?_ most
      (filled.fileHolds root₃.consistent written same)
    · rw [usesExtents_congr fun k ge ltK => kept k (by omega)]
      exact fresh.noExtents
    · have mode' : rd16 inode' inMode = rd16 (newFileInode mode uid gid) inMode :=
        rd16_congr fun i ltI => kept _ (by unfold inMode; omega)
      rw [mode']
      exact fresh.regular
    · rw [← Nat.mod_eq_of_lt lt, ← filled.size]
      exact rd32_congr fun i ltI => same _ (by unfold inSize inodeRecordSize; omega)
    · by_cases zero : len = 0
      · rw [zero]
        exact Nat.zero_le _
      · rw [if_neg zero]
        exact spec.1
  · rw [failed]
    intro x hasX
    refine extAllocBlock_none grown.consistent none hasX ?_
    have group : (mkfsFs drv blocks).groupOf x = 0 :=
      Nat.div_eq_of_lt (show x - 0 < blocks from hasX.2)
    rw [group]
    exact mkfsFs_searched fit

/-- **A formatted partition mounts as a consistent filesystem**, whatever was on it: the
writes are inside it, its root holds `"."` and `".."`, and a file made there is read back, or
no block was left for it. -/
theorem mkfs_then_mount (drv : Driver) (total : Option Nat) (lbaStart sectors : UInt32)
    (old : Volume) (s : Formatting)
    (done : fsMkfsExtLike drv total lbaStart sectors ⟨old, []⟩ = .ok s) :
    WritesInside lbaStart.toNat sectors.toNat s.writes ∧
      ∃ fs, extFsMount drv (volumeSuper s.vol) = .ok fs ∧ Consistent fs s.vol ∧
        (∃ root, extReadInode fs s.vol fs.rootInode = some root ∧
          rd16 root inMode &&& sIfDir ≠ 0 ∧
          drv.dirFind fs s.vol root dotName = some (2, 2) ∧
          drv.dirFind fs s.vol root dotDotName = some (2, 2)) ∧
        ∀ (name : CString) (mode uid gid : Nat) (data : Bytes) (len : Nat), LeafName name →
          len < 2 ^ 32 →
          match extOpCreateFile drv fs s.vol (slash :: name) mode uid gid data len with
          | .ok d' => extOpReadFile drv fs d' (slash :: name) len = some (slice data 0 len)
          | .error d' => ∀ x, fs.HasBlock x → blockUsed fs d' x = true := by
  obtain ⟨fit, vol, inside⟩ := fsMkfsExtLike_ok done
  rw [vol]
  have root : RootAt drv (mkfsBlocks sectors) (mkfsVolume drv (mkfsBlocks sectors) old)
      rootEntries := rootAt_mkfs fit
  refine ⟨inside, mkfsFs drv (mkfsBlocks sectors), extFsMount_mkfs fit, root.consistent, ?_, ?_⟩
  · obtain ⟨dir, read, isRoot⟩ := root.read fit
    refine ⟨dir, read, isRoot.isDir, ?_, ?_⟩
    · rw [root.find fit isRoot, links_rootEntries]
      rfl
    · rw [root.find fit isRoot, links_rootEntries]
      rfl
  · intro name mode uid gid data len leaf lt
    exact create_then_read fit leaf mode uid gid data lt

/-- A partition of 4096 sectors at the start of a drive of as many. -/
def smallFormat : Formatting :=
  match fsMkfsExtLike .ext4 (some 4096) 0 4096 ⟨fun _ => zeroed, []⟩ with
  | .ok s => s
  | .error s => s

theorem mkfs_then_mount_small :
    WritesInside 0 4096 smallFormat.writes ∧
      ∃ fs, extFsMount .ext4 (volumeSuper smallFormat.vol) = .ok fs ∧
        Consistent fs smallFormat.vol := by
  have accepted : (fsMkfsExtLike .ext4 (some 4096) 0 4096 ⟨fun _ => zeroed, []⟩).isOk = true := by
    decide +kernel
  have done : fsMkfsExtLike .ext4 (some 4096) 0 4096 ⟨fun _ => zeroed, []⟩ = .ok smallFormat := by
    unfold smallFormat
    cases eq : fsMkfsExtLike .ext4 (some 4096) 0 4096 ⟨fun _ => zeroed, []⟩ with
    | ok s => rfl
    | error s =>
        rw [eq] at accepted
        exact absurd accepted (by simp [Except.isOk, Except.toBool])
  obtain ⟨inside, fs, mounted, consistent, -⟩ := mkfs_then_mount .ext4 (some 4096) 0 4096
    (fun _ => zeroed) smallFormat done
  exact ⟨inside, fs, mounted, consistent⟩

end NTux.Ext
