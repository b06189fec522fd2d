import NTux.Ext.Ext4Overwrite
import NTux.Ext.Directory
import NTux.Fs.Vfs

/-!
# Files by their paths

The operations of `ext2.c` and `ext4.c` that take a path: it is resolved from the root, a
file that is not there is made in its directory, and then its data is written or read.  The
drivers differ in how the blocks of a directory and of a file are found: `ext4.c` asks
`ext4_inode_get_data_block` for each of them.
-/

namespace NTux.Ext

open NTux.Lib NTux.Lib.Bytes NTux.Fs

/-- The two drivers. -/
inductive Driver
  | ext2
  | ext4
  deriving DecidableEq

/-- A record of zeros. -/
def zeroed : Bytes := fun _ => 0

/-! ## The blocks of an inode in `ext4.c` -/

/-- A pointer that is not null. -/
def nonNull (block : Nat) : Option Nat := if block = 0 then none else some block

/-- `ext4_extent_get_phys_block`. -/
def ext4ExtentGetPhysBlock (inode : Bytes) (lblock : Nat) : Option Nat :=
  if rd16 inode ehMagic ≠ ext4ExtMagic ∨ rd16 inode ehDepth ≠ 0 then none
  else (List.range (rd16 inode ehEntries)).findSome? fun i =>
    let start := rd32 inode (extentAt i)
    let len := eeLen inode i
    if len = 0 ∨ lblock < start ∨ (start + len) % 2 ^ 32 ≤ lblock then none
    else some ((eeStart inode i + (lblock - start)) % 2 ^ 32)

/-- `ext4_inode_get_data_block`. -/
def ext4InodeGetDataBlock (fs : ExtFs) (d : Volume) (inode : Bytes) (lblock : Nat) : Option Nat :=
  if ext4InodeUsesExtents inode then ext4ExtentGetPhysBlock inode lblock
  else if lblock < 12 then nonNull (inodePtr inode lblock)
  else if lblock - 12 < fs.ptrs then
    if inodePtr inode 12 = 0 then none
    else nonNull (blockPtr (d (inodePtr inode 12)) (lblock - 12))
  else
    let idx := lblock - 12 - fs.ptrs
    if fs.ptrs * fs.ptrs ≤ idx ∨ inodePtr inode 13 = 0 then none
    else
      let row := blockPtr (d (inodePtr inode 13)) (idx / fs.ptrs)
      if row = 0 then none else nonNull (blockPtr (d row) (idx % fs.ptrs))

/-- The loop of `ext4_read_file_data`. -/
def ext4ReadLoop (fs : ExtFs) (d : Volume) (inode : Bytes) :
    Nat → Nat → Reading → Option (List UInt8)
  | 0, _, r => if r.remain = 0 then some r.out else none
  | fuel + 1, lbi, r =>
      if r.remain = 0 then some r.out
      else
        match ext4InodeGetDataBlock fs d inode lbi with
        | none => none
        | some block =>
            let take := min r.remain fs.blockSize
            ext4ReadLoop fs d inode fuel (lbi + 1) ⟨r.remain - take, r.out ++ slice (d block) 0 take⟩

/-- `ext4_read_file_data` into a buffer of `outCap` bytes; every turn takes a byte at least. -/
def ext4ReadFileData (fs : ExtFs) (d : Volume) (inode : Bytes) (outCap : Nat) :
    Option (List UInt8) :=
  let size := rd32 inode inSize
  if rd16 inode inMode &&& sIfReg = 0 ∨ outCap < size then none
  else ext4ReadLoop fs d inode size 0 ⟨size, []⟩

/-! ## Directories -/

/-- `blocks` of a directory: its size in blocks. -/
def ext4DirSize (fs : ExtFs) (dir : Bytes) : Nat :=
  (rd32 dir inSize + fs.blockSize - 1) % 2 ^ 32 / fs.blockSize

/-- The blocks of a directory that are found. -/
def ext4DirBlocks (fs : ExtFs) (d : Volume) (dir : Bytes) : List Nat :=
  (List.range (ext4DirSize fs dir)).filterMap (ext4InodeGetDataBlock fs d dir)

/-- `ext4_dir_find`. -/
def ext4DirFind (fs : ExtFs) (d : Volume) (dir : Bytes) (name : List UInt8) :
    Option (Nat × UInt8) :=
  (ext4DirBlocks fs d dir).findSome? fun block =>
    (dirWalk fs.blockSize id (DirEntry.names name) (d block) fs.blockSize 0 none).map fun r =>
      let e := dirEntryAt (d block) r.1
      (e.inode, e.fileType)

/-- `ext4_extent_append_single_block`. -/
def ext4ExtentAppendSingleBlock (inode : Bytes) (lblock pblock : Nat) : Option Bytes :=
  let n := rd16 inode ehEntries
  if rd16 inode ehMagic ≠ ext4ExtMagic ∨ rd16 inode ehDepth ≠ 0 ∨ rd16 inode ehMax ≤ n then none
  else
    let inode := wr32 inode (extentAt n) lblock
    let inode := wr16 inode (extentAt n + 4) 1
    let inode := wr16 inode (extentAt n + 6) 0
    let inode := wr32 inode (extentAt n + 8) pblock
    some (wr16 inode ehEntries (n + 1))

/-- The new block in the inode of a directory of `blocks` blocks. -/
def ext4DirAppend (dir : Bytes) (blocks block : Nat) : Option Bytes :=
  if ext4InodeUsesExtents dir then ext4ExtentAppendSingleBlock dir blocks block
  else if 12 ≤ blocks then none
  else some (wr32 dir (inBlock + 4 * blocks) block)

/-- `ext4_dir_add_entry`; the inode of the directory in memory is changed as well. -/
def ext4DirAddEntry (fs : ExtFs) (d : Volume) (parent : Nat) (dir : Bytes) (child : Nat)
    (fileType : UInt8) (name : List UInt8) : Except Volume (Volume × Bytes) :=
  if name.length = 0 ∨ 255 < name.length then .error d
  else
    let need := extAlign4 (8 + name.length)
    let room := (ext4DirBlocks fs d dir).findSome? fun block =>
      (dirWalk fs.blockSize wrap16 (DirEntry.hasRoom need) (d block) fs.blockSize 0 none).map fun r =>
        (block, r.1)
    match room with
    | some (block, off) =>
        .ok (extWriteBlock d block (placeEntry need child fileType name (d block) off), dir)
    | none => do
        let (b, d) ← orFail d (extAllocBlock fs d)
        match ext4DirAppend dir (ext4DirSize fs dir) b with
        | none => .error ((extFreeBlock fs d b).getD d)
        | some dir =>
            let dir := growDir fs dir
            let d := extWriteBlock d b (newDirBlock fs.blockSize child fileType name)
            let d ← orFail d (extWriteInode fs d parent dir)
            .ok (d, dir)

/-! ## The drivers -/

/-- The `dir_find` of a driver. -/
def Driver.dirFind : Driver → ExtFs → Volume → Bytes → List UInt8 → Option (Nat × UInt8)
  | .ext2 => extDirFind
  | .ext4 => ext4DirFind

/-- The `dir_add_entry` of a driver. -/
def Driver.dirAddEntry : Driver → ExtFs → Volume → Nat → Bytes → Nat → UInt8 → List UInt8 →
    Except Volume (Volume × Bytes)
  | .ext2 => extDirAddEntry
  | .ext4 => ext4DirAddEntry

/-- What a driver does with a file it has found, to write it. -/
def Driver.writeFile : Driver → ExtFs → Volume → Nat → Bytes → Bytes → Nat → Except Volume Volume
  | .ext2 => extWriteFile
  | .ext4 => ext4WriteFile

/-- The `read_file_data` of a driver. -/
def Driver.readFileData : Driver → ExtFs → Volume → Bytes → Nat → Option (List UInt8)
  | .ext2 => extReadFileData
  | .ext4 => ext4ReadFileData

/-! ## Paths -/

/-- The tokens of a path; what is too long for a name goes on as the next one. -/
def extPathTokens : Nat → CString → List CString
  | 0, _ => []
  | fuel + 1, p =>
      match p.dropWhile (· == slash) with
      | [] => []
      | s =>
          let token := (s.takeWhile (· != slash)).take (vfsMaxName - 1)
          token :: extPathTokens fuel (s.drop token.length)

/-- The loop of `ext2_resolve_path`, at an inode. -/
def extResolveLoop (drv : Driver) (fs : ExtFs) (d : Volume) :
    Nat × Bytes → List CString → Option (Nat × Bytes)
  | cur, [] => some cur
  | (_, inode), token :: rest =>
      if rd16 inode inMode &&& sIfDir = 0 then none
      else
        match drv.dirFind fs d inode token with
        | none => none
        | some (next, _) =>
            match extReadInode fs d next with
            | none => none
            | some inode => extResolveLoop drv fs d (next, inode) rest

/-- `ext2_resolve_path`: the number of the inode, and the inode. -/
def extResolvePath (drv : Driver) (fs : ExtFs) (d : Volume) (path : CString) :
    Option (Nat × Bytes) :=
  if path.head? ≠ some slash then none
  else
    match extReadInode fs d fs.rootInode with
    | none => none
    | some root => extResolveLoop drv fs d (fs.rootInode, root) (extPathTokens path.length path)

/-- `ext2_split_parent_leaf`. -/
def extSplitParentLeaf (path : CString) : Option (CString × CString) :=
  let leaf := (path.reverse.takeWhile (· ≠ slash)).reverse
  let above := path.take (path.length - leaf.length - 1)
  if path.head? ≠ some slash ∨ leaf = [] ∨ vfsMaxName < leaf.length + 1 then none
  else if above = [] then some ([slash], leaf)
  else if vfsMaxPath < above.length + 1 then none
  else some (above, leaf)

/-! ## Files -/

/-- The inode of a new file. -/
def newFileInode (mode uid gid : Nat) : Bytes :=
  let inode := wr16 zeroed inMode (sIfReg ||| (if mode = 0 then 0o644 else mode) &&& 0o7777)
  let inode := wr16 inode 2 uid
  let inode := wr16 inode 24 gid
  wr16 inode 26 1

/-- The part of `ext2_create_or_write_file` that makes a file: the volume, and the file's
inode. -/
def extMakeFile (drv : Driver) (fs : ExtFs) (d : Volume) (path : CString) (mode uid gid : Nat) :
    Except Volume (Volume × Nat × Bytes) :=
  match extSplitParentLeaf path with
  | none => .error d
  | some (parentPath, leaf) =>
      match extResolvePath drv fs d parentPath with
      | none => .error d
      | some (parent, dir) =>
          if rd16 dir inMode &&& sIfDir = 0 ∨ (drv.dirFind fs d dir leaf).isSome then .error d
          else
            match extAllocInode fs d false with
            | none => .error d
            | some (ino, d) =>
                let inode := newFileInode mode uid gid
                match extWriteInode fs d ino inode with
                | none => .error ((extFreeInode fs d ino false).getD d)
                | some d =>
                    match drv.dirAddEntry fs d parent dir ino 1 leaf with
                    | .error d => .error ((extFreeInode fs d ino false).getD d)
                    | .ok (d, _) => .ok (d, ino, inode)

/-- `ext2_create_or_write_file`. -/
def extCreateOrWriteFile (drv : Driver) (fs : ExtFs) (d : Volume) (path : CString)
    (mode uid gid : Nat) (data : Bytes) (len : Nat) (createIfMissing : Bool) :
    Except Volume Volume :=
  match extResolvePath drv fs d path with
  | some (ino, inode) => drv.writeFile fs d ino inode data len
  | none =>
      if createIfMissing then
        match extMakeFile drv fs d path mode uid gid with
        | .error d => .error d
        | .ok (d, ino, inode) => drv.writeFile fs d ino inode data len
      else .error d

/-- `ext2_op_create_file`. -/
def extOpCreateFile (drv : Driver) (fs : ExtFs) (d : Volume) (path : CString)
    (mode uid gid : Nat) (data : Bytes) (len : Nat) : Except Volume Volume :=
  extCreateOrWriteFile drv fs d path mode uid gid data len true

/-- `ext2_op_read_file`. -/
def extOpReadFile (drv : Driver) (fs : ExtFs) (d : Volume) (path : CString) (outCap : Nat) :
    Option (List UInt8) :=
  match extResolvePath drv fs d path with
  | none => none
  | some (_, inode) => drv.readFileData fs d inode outCap

/-! ## Writing a fresh file -/

variable {fs : ExtFs} {d d' : Volume} {data : Bytes} {len N : Nat} {inode : Bytes}

/-- An inode without pointers, which is not mapped by extents. -/
structure FreshInode (inode : Bytes) : Prop where
  ptrs : ∀ j, j < 14 → inodePtr inode j = 0
  flags : ∀ i, i < 4 → inode (inFlags + i) = 0
  regular : rd16 inode inMode &&& sIfReg ≠ 0

theorem newFileInode_fresh (mode uid gid : Nat) : FreshInode (newFileInode mode uid gid) := by
  have behind : ∀ i, 28 ≤ i → newFileInode mode uid gid i = 0 := by
    intro i ge
    have offset : inMode = 0 := rfl
    simp (disch := omega) only [newFileInode, offset, wr16_of_apart, zeroed]
  refine ⟨?_, ?_, ?_⟩
  · intro j _
    have zero : rd32 (newFileInode mode uid gid) (inBlock + 4 * j) = rd32 zeroed 0 :=
      rd32_congr fun i _ => behind _ (by unfold inBlock; omega)
    rw [inodePtr, zero]
    rfl
  · intro i _
    exact behind _ (by unfold inFlags; omega)
  · generalize eq : (if mode = 0 then 0o644 else mode) &&& 0o7777 = bits
    have small : bits ≤ 0o7777 := eq ▸ Nat.and_le_right
    have stored : rd16 (newFileInode mode uid gid) inMode = sIfReg ||| bits := by
      have offset : inMode = 0 := rfl
      have fits : sIfReg ||| bits < 65536 :=
        Nat.or_lt_two_pow (show sIfReg < 2 ^ 16 by decide) (show bits < 2 ^ 16 by omega)
      unfold newFileInode
      rw [eq, offset, rd16_wr16_of_apart (by omega), rd16_wr16_of_apart (by omega),
        rd16_wr16_of_apart (by omega), rd16_wr16 fits]
    rw [stored]
    intro zero
    have bit : ((sIfReg ||| bits) &&& sIfReg).testBit 15 = true := by
      rw [Nat.testBit_and, Nat.testBit_or]
      have top : sIfReg.testBit 15 = true := by decide
      rw [top]
      rfl
    rw [zero, Nat.zero_testBit] at bit
    exact absurd bit (by decide)

theorem extClearDirect_null (n i : Nat) (null : ∀ j, i ≤ j → j < i + n → inodePtr inode j = 0) :
    extClearDirect fs n i d inode = .ok (d, inode) := by
  induction n generalizing i with
  | zero => rfl
  | succ n ih =>
      rw [extClearDirect, if_pos (null i (Nat.le_refl i) (by omega))]
      exact ih (i + 1) fun j le lt => null j (by omega) (by omega)

/-- There is nothing to clear. -/
theorem FreshInode.clear (fresh : FreshInode inode) :
    extInodeClearData fs d inode = .ok (d, setSize inode 0 0) := by
  have direct : extClearDirect fs 12 0 d inode = .ok (d, inode) :=
    extClearDirect_null 12 0 fun j _ lt => fresh.ptrs j (by omega)
  have single : extClearSingle fs d inode = .ok (d, inode) := if_pos (fresh.ptrs 12 (by decide))
  have double : extClearDoubles fs d inode = .ok (d, inode) := if_pos (fresh.ptrs 13 (by decide))
  unfold extInodeClearData
  simp only [direct, single, double, bind, Except.bind]

theorem FreshInode.noExtents (fresh : FreshInode inode) : ext4InodeUsesExtents inode = false := by
  have zero : rd32 inode inFlags = 0 := by
    have same : rd32 inode inFlags = rd32 zeroed 0 := rd32_congr fun i lt => fresh.flags i lt
    rw [same]
    rfl
  unfold ext4InodeUsesExtents
  rw [zero, Nat.zero_and]
  rfl

/-- The flag is not there to be cleared. -/
theorem FreshInode.clearFlag (fresh : FreshInode inode) :
    clearExtentsFlag (setSize inode 0 0) = setSize inode 0 0 := by
  have kept : ∀ i, i < 4 → setSize inode 0 0 (inFlags + i) = 0 := fun i lt => by
    rw [setSize_of_apart (.inr (.inr (by unfold inFlags; omega))), fresh.flags i lt]
  have zero : rd32 (setSize inode 0 0) inFlags = 0 := by
    have same : rd32 (setSize inode 0 0) inFlags = rd32 zeroed 0 :=
      rd32_congr fun i lt => kept i lt
    rw [same]
    rfl
  unfold clearExtentsFlag
  rw [zero, Nat.zero_and]
  funext i
  by_cases inside : inFlags ≤ i ∧ i < inFlags + 4
  · obtain ⟨k, rfl⟩ : ∃ k, i = inFlags + k := ⟨i - inFlags, by omega⟩
    rw [kept k (by omega)]
    have cases : k = 0 ∨ k = 1 ∨ k = 2 ∨ k = 3 := by omega
    rcases cases with rfl | rfl | rfl | rfl <;> rfl
  · exact wr32_of_apart (by omega)

/-- Both drivers fill a fresh inode in the same way. -/
theorem FreshInode.writeFile (drv : Driver) (ino : Nat) (fresh : FreshInode inode) :
    drv.writeFile fs d ino inode data len =
      (if len = 0 then .ok (d, setSize (setSize inode 0 0) 0 0)
        else if fs.maxBlocks < fs.needed len then .error d
        else extFillInode fs (bufferReader data) len d (setSize inode 0 0)) >>=
          fun r => orFail r.1 (extWriteInode fs r.1 ino r.2) := by
  cases drv with
  | ext2 =>
      show extWriteFileReader fs d ino inode len (bufferReader data) = _
      unfold extWriteFileReader extInodeWriteDataReader
      rw [if_neg fresh.regular, fresh.clear]
      rfl
  | ext4 =>
      show ext4WriteFileReader fs d ino inode len (bufferReader data) = _
      unfold ext4WriteFileReader ext4InodeWriteDataReader ext4InodeClearData
      rw [if_neg fresh.regular, fresh.noExtents, if_neg Bool.false_ne_true, fresh.clear]
      simp only [bind, Except.bind, fresh.clearFlag]

/-- A fresh file is filled and its inode written, or no block is free. -/
theorem FreshInode.writeFile_cases (drv : Driver) {ino : Nat} (fresh : FreshInode inode)
    (ok : Consistent fs d) (has : fs.HasInode ino) (size : fs.blockSize = 4096)
    (fits : fs.DescRead ((ino - 1) / fs.inodesPerGroup) ∧
      inodeOffset fs ino + inodeRecordSize ≤ fs.blockSize) (lt : len < 2 ^ 32) :
    (∃ d' d₂ inode₂ inds, drv.writeFile fs d ino inode data len = .ok d' ∧
      FilledInode fs data len (if len = 0 then 0 else fs.needed len) d (setSize inode 0 0) inds
        d₂ inode₂ ∧
      (if len = 0 then 0 else fs.needed len) ≤ fs.maxBlocks ∧
      extWriteInode fs d₂ ino inode₂ = some d') ∨
    ∃ d' part, drv.writeFile fs d ino inode data len = .error d' ∧ Grown fs d part d' ∧
      extAllocBlock fs d' = none := by
  have ptrs : fs.ptrs = 1024 := by
    rw [ExtFs.ptrs, size]
  have most : fs.maxBlocks = 12 + 1024 + 1024 * 1024 := by
    rw [ExtFs.maxBlocks, ptrs]
  rw [fresh.writeFile drv ino]
  have table : ∀ {d₂ : Volume} (inode₂ : Bytes), Consistent fs d₂ →
      ∃ d', extWriteInode fs d₂ ino inode₂ = some d' := by
    intro d₂ inode₂ ok₂
    rw [extWriteInode_eq ok₂ has, if_pos fits]
    exact ⟨_, rfl⟩
  by_cases zero : len = 0
  · obtain ⟨d', write⟩ := table (setSize (setSize inode 0 0) 0 0) ok
    refine .inl ⟨d', d, setSize (setSize inode 0 0) 0 0, [], ?_, ?_, ?_, write⟩
    · rw [if_pos zero]
      simp only [bind, Except.bind, write, orFail]
    · rw [if_pos zero, zero]
      exact .zero ok
    · rw [if_pos zero]
      exact Nat.zero_le _
  · have few : fs.needed len ≤ fs.maxBlocks := by
      rw [most, ExtFs.needed, size, Nat.mod_eq_of_lt (show len + 4096 - 1 < 2 ^ 64 by omega)]
      have quotient : (len + 4096 - 1) / 4096 ≤ 1048576 := by omega
      rw [Nat.mod_eq_of_lt (by omega)]
      omega
    have fills := extFillInode_fills (bufferReader_supplies data len) (by omega)
      (setSize inode 0 0) ok
    rw [if_neg zero, if_neg zero, if_neg (by omega)]
    cases eq : extFillInode fs (bufferReader data) len d (setSize inode 0 0) with
    | ok r =>
        rw [eq] at fills
        obtain ⟨inds, filled⟩ := fills
        obtain ⟨d', write⟩ := table r.2 filled.grown.consistent
        refine .inl ⟨d', r.1, r.2, inds, ?_, filled, few, write⟩
        simp only [bind, Except.bind, write, orFail]
    | error d' =>
        rw [eq] at fills
        obtain ⟨part, grown, stuck⟩ := fills
        refine .inr ⟨d', part, rfl, grown, stuck.resolve_right ?_⟩
        rintro ⟨off, n, failed⟩
        exact absurd failed (by simp [bufferReader])

/-! ## Reading it back -/

/-- `ext4_inode_get_data_block` finds the blocks that the pointers lead to. -/
theorem ext4InodeGetDataBlock_eq {f : Nat} (noExtents : ext4InodeUsesExtents inode = false)
    (holds : FileHolds fs data len N d inode) (lt : f < N) (most : N ≤ fs.maxBlocks) :
    ext4InodeGetDataBlock fs d inode f = some (filePtr fs d inode f) := by
  have ptr := (holds.blocks f lt).1
  have found : ∀ {b : Nat}, b ≠ 0 → nonNull b = some b := fun ne => if_neg ne
  unfold ExtFs.maxBlocks at most
  unfold ext4InodeGetDataBlock
  unfold filePtr at ptr ⊢
  rw [noExtents, if_neg Bool.false_ne_true]
  by_cases direct : f < 12
  · rw [if_pos direct] at ptr ⊢
    rw [if_pos direct, found ptr]
  · rw [if_neg direct] at ptr ⊢
    rw [if_neg direct]
    by_cases single : f < 12 + fs.ptrs
    · rw [if_pos single] at ptr ⊢
      rw [if_pos (by omega), if_neg (holds.single (by omega)), found ptr]
    · rw [if_neg single] at ptr ⊢
      have idx : f - 12 - fs.ptrs = f - (12 + fs.ptrs) := by omega
      have inside : f - (12 + fs.ptrs) < N - (12 + fs.ptrs) := by omega
      have row := holds.rows (by omega) ((f - (12 + fs.ptrs)) / fs.ptrs)
        (Nat.lt_of_le_of_lt (Nat.div_mul_le_self _ _) inside)
      rw [if_neg (by omega)]
      dsimp only
      rw [idx, if_neg (by rw [not_or]; exact ⟨by omega, holds.double (by omega)⟩), if_neg row]
      exact found ptr

theorem ext4ReadLoop_of_holds (noExtents : ext4InodeUsesExtents inode = false)
    (holds : FileHolds fs data len N d inode) (most : N ≤ fs.maxBlocks)
    (pos : 0 < fs.blockSize) (enough : len ≤ N * fs.blockSize) (fuel lbi : Nat) {r : Reading}
    (read : ReadTo fs data len lbi r) (left : r.remain ≤ fuel) :
    ext4ReadLoop fs d inode fuel lbi r = some (slice data 0 len) := by
  have finished : ∀ {r : Reading} {m : Nat}, ReadTo fs data len m r → r.remain = 0 →
      r.out = slice data 0 len := by
    intro r m read done
    have remain := read.remain
    rw [read.out, show min len (m * fs.blockSize) = len by omega]
  induction fuel generalizing lbi r with
  | zero =>
      have done : r.remain = 0 := by omega
      rw [ext4ReadLoop, if_pos done, finished read done]
  | succ fuel ih =>
      rw [ext4ReadLoop]
      by_cases done : r.remain = 0
      · rw [if_pos done, finished read done]
      · have remain := read.remain
        have inside : lbi * fs.blockSize < len := by omega
        have within : lbi < N := by
          by_contra le
          have more := Nat.mul_le_mul_right fs.blockSize (Nat.le_of_not_lt le)
          omega
        have step : ReadTo fs data len (lbi + 1)
            (extReadBlocks fs d (fun _ => filePtr fs d inode lbi) 1 0 r) := by
          have lead : LeadTo fs data len d lbi (fun _ => filePtr fs d inode lbi) 1 := by
            intro j ltJ _
            obtain rfl : j = 0 := by omega
            exact holds.blocks lbi within
          exact extReadBlocks_readTo 1 1 0 rfl lead read
        have ne := (holds.blocks lbi within).1
        rw [extReadBlocks, if_neg (by rw [not_or]; exact ⟨done, ne⟩), extReadBlocks] at step
        rw [if_neg done, ext4InodeGetDataBlock_eq noExtents holds within most]
        exact ih (lbi + 1) step (by dsimp only; omega)

/-- Both drivers read what a filled inode holds. -/
theorem Driver.readFileData_of_holds (drv : Driver) {outCap : Nat}
    (noExtents : ext4InodeUsesExtents inode = false) (reg : rd16 inode inMode &&& sIfReg ≠ 0)
    (size : rd32 inode inSize = len) (cap : len ≤ outCap) (pos : 0 < fs.blockSize)
    (enough : len ≤ N * fs.blockSize) (most : N ≤ fs.maxBlocks)
    (holds : FileHolds fs data len N d inode) :
    drv.readFileData fs d inode outCap = some (slice data 0 len) := by
  cases drv with
  | ext2 => exact extReadFileData_of_holds reg size cap enough most holds
  | ext4 =>
      show ext4ReadFileData fs d inode outCap = _
      unfold ext4ReadFileData
      dsimp only
      rw [size, if_neg (by rw [not_or]; exact ⟨reg, by omega⟩)]
      exact ext4ReadLoop_of_holds noExtents holds most pos enough len 0
        ⟨by simp, by simp [slice]⟩ (Nat.le_refl _)

end NTux.Ext
