import NTux.Fs.VfsMounts

/-!
# The filesystem calls

The functions of `fs/fs.c` the system calls go through.  Most of them build a path and
call the VFS; `fs_copy_file_fast` goes on to the backends themselves, and the block calls
to the drives.  What a drive does, and how two backends stream a file from one to the
other, is given as a table of functions.

The persistence of the RAM filesystem is switched off by `fs_init` and never switched on,
so that the calls that would save it do nothing.
-/

namespace NTux.Fs

/-- A call that formats or partitions a drive. -/
inductive RawCall
  | setMbrPartition (drive partIndex : UInt8) (lbaStart sectors : UInt32) (type bootable : UInt8)
  | mkfsExt2 (drive : UInt8) (lbaStart sectors : UInt32)
  | mkfsExt4 (drive : UInt8) (lbaStart sectors : UInt32)
  | mkfsFat (drive : UInt8) (lbaStart sectors : UInt32) (fatType : UInt8)
  deriving DecidableEq

/-- Where a `RawCall` writes: the drive, the first sector, and how many. -/
def RawCall.region : RawCall → UInt8 × UInt64 × UInt64
  | .setMbrPartition drive _ _ _ _ _ => (drive, 0, 1)
  | .mkfsExt2 drive lba sectors => (drive, lba.toUInt64, sectors.toUInt64)
  | .mkfsExt4 drive lba sectors => (drive, lba.toUInt64, sectors.toUInt64)
  | .mkfsFat drive lba sectors _ => (drive, lba.toUInt64, sectors.toUInt64)

/-- The drives and the parts of the backends that bypass the VFS.

* `totalSectors`, `readSectors`, `writeSectors` are `fs_drive_total_sectors`,
  `fs_device_read_sectors` and `fs_device_write_sectors`; `raw` is the body of a `RawCall`.
* `residents` says whose data the sectors hold: the attributes of those files.
* `probe` is the mount table after `fs_probe_partitions` of every drive, `overlay` the one
  after `fs_detect_primary_overlay`.
* `fileLen` asks the source of a copy for its length, `stream` is the backend's
  `create_file_from_reader` reading that source.
* `openNode`, `readNode`, `writeNode` and `ioctlNode` are the nodes below `/dev`. -/
structure Devices (σ : Type) where
  totalSectors : UInt8 → Option UInt64
  readSectors : σ → UInt8 → UInt64 → UInt64 → Int × List UInt8
  writeSectors : σ → UInt8 → UInt64 → List UInt8 → Int × σ
  raw : RawCall → σ → Int × σ
  residents : σ → UInt8 → UInt64 → UInt64 → List Attr
  probe : σ → List (Mount σ) → List (Mount σ)
  overlay : σ → List (Mount σ) → List (Mount σ)
  fileLen : Mount σ → σ → CString → Option Nat
  stream : Mount σ → Mount σ → σ → CString → CString → Nat → Int × σ
  openNode : CString → Bool
  readNode : CString → Nat → Option (List UInt8)
  writeNode : CString → List UInt8 → Option Nat
  ioctlNode : CString → UInt64 → Int

variable {σ : Type}

/-! ## Paths -/

/-- `fs_build_child_path`. -/
def fsBuildChildPath (path name : CString) : Option CString :=
  if path.head? ≠ some slash ∨ name = [] ∨ vfsMaxPath < path.length + 1 + name.length + 1 then none
  else some (path ++ (if path.getLast? = some slash then [] else [slash]) ++ name)

/-- What stands behind the last slash. -/
def leafName (full : CString) : CString := (full.reverse.takeWhile (· ≠ slash)).reverse

/-- `fs_split_path`: the parent and the name. -/
def fsSplitPath (full : CString) : Option (CString × CString) :=
  let name := leafName full
  let above := full.take (full.length - name.length - 1)
  if full.head? ≠ some slash ∨ name = [] ∨ vfsMaxName < name.length + 1 then none
  else if above = [] then some ([slash], name)
  else if vfsMaxPath < above.length + 1 then none
  else some (above, name)

/-! ## The calls on paths -/

/-- `fs_mkdir`. -/
def fsMkdir (who : Identity) (v : Vfs σ) (path name : CString) : Int × Vfs σ :=
  match fsBuildChildPath path name with
  | some full => vfsMkdir who v full 0
  | none => (-1, v)

/-- `fs_create_file`. -/
def fsCreateFile (who : Identity) (v : Vfs σ) (path name : CString) (data : List UInt8) :
    Int × Vfs σ :=
  match fsBuildChildPath path name with
  | some full => vfsCreateFile who v full 0 data
  | none => (-1, v)

/-- `fs_remove`. -/
def fsRemove (who : Identity) (v : Vfs σ) (path : CString) : Int × Vfs σ :=
  if path.head? ≠ some slash then (-1, v) else vfsRemove who v path

/-- `fs_rename`: the new name is one in the directory of the old path. -/
def fsRename (who : Identity) (v : Vfs σ) (oldPath newName : CString) : Int × Vfs σ :=
  if oldPath.head? ≠ some slash ∨ newName = [] then (-1, v)
  else match fsSplitPath oldPath with
  | none => (-1, v)
  | some (parent, _) =>
      match fsBuildChildPath parent newName with
      | some newPath => vfsRename who v oldPath newPath
      | none => (-1, v)

/-! ## The copy -/

/-- The pairs of backends `fs_copy_file_fast` has a branch for. -/
def copyRoute : BackendKind → BackendKind → Bool
  | .iso, .fat | .iso, .ext2 | .iso, .ext4 => true
  | .ramfs, .fat | .ramfs, .ext2 | .ramfs, .ext4 => true
  | .fat, .fat | .fat, .ext2 | .fat, .ext4 => true
  | _, _ => false

/-- The target is removed first if it exists; whether that succeeds is not looked at. -/
def clearTarget (who : Identity) (v : Vfs σ) (dst : CString) : Vfs σ :=
  if vfsExists v dst ≠ 0 then (vfsRemove who v dst).2 else v

/-- `fs_copy_file_fast`.  Neither the reading of the source nor the writing of the target
passes the check of the VFS. -/
def fsCopyFileFast (dev : Devices σ) (who : Identity) (v : Vfs σ) (src dst : CString) :
    Int × Vfs σ :=
  if src.head? ≠ some slash ∨ dst.head? ≠ some slash then (-1, v)
  else match vfsFindMount v.mounts src, vfsFindMount v.mounts dst with
  | some (ms, srcRel), some (md, dstRel) =>
      if copyRoute ms.kind md.kind then
        match dev.fileLen ms v.store srcRel with
        | none => (-1, v)
        | some len =>
            let cleared := clearTarget who (v.record who .reads src) dst
            let done := dev.stream ms md cleared.store srcRel dstRel len
            (done.1, { cleared.record who .changes dst with store := done.2 })
      else (-1, v)
  | _, _ => (-1, v)

/-! ## The drives -/

/-- `fs_rescan_storage`: the drives are probed, `/` is searched for the overlay, and `/bin`
is made. -/
def fsRescanStorage (dev : Devices σ) (who : Identity) (v : Vfs σ) : Vfs σ :=
  let probed := { v with mounts := dev.probe v.store v.mounts }
  let listed := (vfsListDir who probed [slash] true 128).2
  let mounted := { listed with mounts := dev.overlay listed.store listed.mounts }
  (vfsMkdir who mounted [slash, 98, 105, 110] 0o755).2

/-- An operation on sectors is recorded, with the files whose data they hold. -/
def Vfs.recordSectors (v : Vfs σ) (dev : Devices σ) (who : Identity) (kind : AccessKind)
    (drive : UInt8) (lba sectors : UInt64) : Vfs σ :=
  { v with accesses := v.accesses ++ [⟨who.uid, kind, dev.residents v.store drive lba sectors⟩] }

/-- The range check of `fs_block_read` and `fs_block_write`. -/
def blockRangeOk (dev : Devices σ) (drive : UInt8) (lba sectors : UInt64) : Bool :=
  match dev.totalSectors drive with
  | none => false
  | some total => sectors ≠ 0 && lba < total && sectors ≤ total && lba + sectors ≤ total

/-- `fs_block_read`. -/
def fsBlockRead (dev : Devices σ) (who : Identity) (v : Vfs σ) (drive : UInt8) (lba : UInt64)
    (sectors : UInt32) : (Int × List UInt8) × Vfs σ :=
  if blockRangeOk dev drive lba sectors.toUInt64 then
    (dev.readSectors v.store drive lba sectors.toUInt64,
      v.recordSectors dev who .reads drive lba sectors.toUInt64)
  else ((-1, []), v)

/-- `fs_block_write`. -/
def fsBlockWrite (dev : Devices σ) (who : Identity) (v : Vfs σ) (drive : UInt8) (lba : UInt64)
    (sectors : UInt32) (data : List UInt8) : Int × Vfs σ :=
  if blockRangeOk dev drive lba sectors.toUInt64 then
    let done := dev.writeSectors v.store drive lba data
    (done.1, { v.recordSectors dev who .changes drive lba sectors.toUInt64 with store := done.2 })
  else (-1, v)

/-- `fs_set_mbr_partition` and the `fs_mkfs` functions. -/
def fsRaw (dev : Devices σ) (who : Identity) (v : Vfs σ) (call : RawCall) : Int × Vfs σ :=
  let done := dev.raw call v.store
  (done.1, { v.recordSectors dev who .changes call.region.1 call.region.2.1 call.region.2.2 with
    store := done.2 })

/-! ## What the calls may do -/

theorem fsMkdir_confined (who : Identity) (v : Vfs σ) (path name : CString) :
    Confined v (fsMkdir who v path name).2 := by
  unfold fsMkdir
  split
  · exact vfsChange_confined _ who v _
  · exact Confined.refl v

theorem fsCreateFile_confined (who : Identity) (v : Vfs σ) (path name : CString)
    (data : List UInt8) : Confined v (fsCreateFile who v path name data).2 := by
  unfold fsCreateFile
  split
  · exact vfsChange_confined _ who v _
  · exact Confined.refl v

theorem fsRemove_confined (who : Identity) (v : Vfs σ) (path : CString) :
    Confined v (fsRemove who v path).2 := by
  unfold fsRemove
  split
  · exact Confined.refl v
  · exact vfsChange_confined _ who v path

theorem fsRename_confined (who : Identity) (v : Vfs σ) (oldPath newName : CString) :
    Confined v (fsRename who v oldPath newName).2 := by
  unfold fsRename
  split
  · exact Confined.refl v
  · split
    · exact Confined.refl v
    · split
      · exact vfsRename_confined who v _ _
      · exact Confined.refl v

theorem clearTarget_confined (who : Identity) (v : Vfs σ) (dst : CString) :
    Confined v (clearTarget who v dst) := by
  unfold clearTarget
  split
  · exact vfsChange_confined _ who v dst
  · exact Confined.refl v

/-- The copy is confined where neither the source nor what is left of the target is root's
alone. -/
theorem fsCopyFileFast_confined {dev : Devices σ} {who : Identity} {v : Vfs σ}
    {src dst : CString} (source : ∀ a ∈ vfsGetattr v src, ¬ a.RootOnly)
    (target : ∀ a ∈ vfsGetattr (clearTarget who (v.record who .reads src) dst) dst,
      ¬ a.RootOnly) :
    Confined v (fsCopyFileFast dev who v src dst).2 := by
  unfold fsCopyFileFast
  split
  · exact Confined.refl v
  · split
    · split
      · split
        · exact Confined.refl v
        · have read : Confined v (v.record who .reads src) :=
            confined_reads fun ⟨_, a, mem, only⟩ => source a (by simpa using mem) only
          have cleared := clearTarget_confined who (v.record who .reads src) dst
          refine (read.trans cleared).trans (confined_changes ?_ _)
          rintro ⟨-, a, mem, only⟩
          exact target a (by simpa using mem) only
      · exact Confined.refl v
    · exact Confined.refl v

/-- A rescan is confined where the root directory it searches is not root's alone. -/
theorem fsRescanStorage_confined {dev : Devices σ} {who : Identity} {v : Vfs σ}
    (root : ∀ a ∈ vfsGetattr { v with mounts := dev.probe v.store v.mounts } [slash],
      ¬ a.RootOnly) :
    Confined v (fsRescanStorage dev who v) := by
  have listed := vfsListDir_confined who root true 128
  refine ((confined_mounts v _).trans listed).trans ?_
  exact (confined_mounts _ _).trans (vfsChange_confined _ who _ _)

/-- Sectors may be read where no file of root's alone keeps data in them. -/
theorem fsBlockRead_confined {dev : Devices σ} {who : Identity} {v : Vfs σ} {drive : UInt8}
    {lba : UInt64} {sectors : UInt32}
    (open_ : ∀ a ∈ dev.residents v.store drive lba sectors.toUInt64, ¬ a.RootOnly) :
    Confined v (fsBlockRead dev who v drive lba sectors).2 := by
  unfold fsBlockRead
  split
  · exact ⟨_, rfl, by simpa using fun ⟨_, a, mem, only⟩ => open_ a mem only, .inl rfl⟩
  · exact Confined.refl v

/-- Sectors may be written where no file of root's alone keeps data in them. -/
theorem fsBlockWrite_confined {dev : Devices σ} {who : Identity} {v : Vfs σ} {drive : UInt8}
    {lba : UInt64} {sectors : UInt32}
    (open_ : ∀ a ∈ dev.residents v.store drive lba sectors.toUInt64, ¬ a.RootOnly)
    (data : List UInt8) : Confined v (fsBlockWrite dev who v drive lba sectors data).2 := by
  unfold fsBlockWrite
  split
  · exact ⟨_, rfl, by simpa using fun ⟨_, a, mem, only⟩ => open_ a mem only,
      .inr ⟨_, List.mem_singleton.2 rfl, rfl⟩⟩
  · exact Confined.refl v

theorem fsRaw_confined {dev : Devices σ} {who : Identity} {v : Vfs σ} {call : RawCall}
    (open_ : ∀ a ∈ dev.residents v.store call.region.1 call.region.2.1 call.region.2.2,
      ¬ a.RootOnly) :
    Confined v (fsRaw dev who v call).2 :=
  ⟨_, rfl, by simpa using fun ⟨_, a, mem, only⟩ => open_ a mem only,
    .inr ⟨_, List.mem_singleton.2 rfl, rfl⟩⟩

end NTux.Fs
