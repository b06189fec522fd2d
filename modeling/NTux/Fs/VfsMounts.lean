import NTux.Fs.Vfs

/-!
# Mounts, permissions and the path operations of the VFS

The mount table and the path operations of `fs/vfs.c`, with the permission check in
front of them.  The backends are the tables of function pointers the mounts hold, over
one store `σ` of all their contexts.

Every operation is run for a thread, of which the check sees the user and the group,
and is recorded: an `Access` says for whom it was done, whether it reads or changes,
and which attributes the file had that it was done on.  The record is not part of the
source.
-/

namespace NTux.Fs

/-- What `getattr` stores: `st_mode`, owner and group. -/
structure Attr where
  mode : UInt16
  uid : UInt32
  gid : UInt32
  deriving DecidableEq

/-- The mode gives nothing to anyone but the owner, and the owner is root. -/
def Attr.RootOnly (a : Attr) : Prop := a.uid = 0 ∧ a.mode &&& 0o077 = 0

instance (a : Attr) : Decidable a.RootOnly := inferInstanceAs (Decidable (_ ∧ _))

/-- The whole of `vfs_backend_ops_t`. -/
structure VfsOps (σ : Type) extends VfsBackendOps σ where
  getattr : Option (σ → CString → Option Attr)
  chmod : Option (σ → CString → UInt16 → Int × σ)
  chown : Option (σ → CString → UInt32 → UInt32 → Int × σ)

/-- Which of the tables a mount points to. -/
inductive BackendKind
  | ramfs
  | devfs
  | fat
  | ext2
  | ext4
  | iso
  | union
  deriving DecidableEq

/-- `vfs_mount_t`, a slot in use. -/
structure Mount (σ : Type) where
  mountPoint : CString
  kind : BackendKind
  ops : VfsOps σ

/-- Whether an operation reads or changes what it is done on. -/
inductive AccessKind
  | reads
  | changes
  deriving DecidableEq

/-- One operation done for a thread: its identity at that moment, and the attributes of
the files the operation was done on. -/
structure Access where
  uid : UInt32
  kind : AccessKind
  attrs : List Attr

/-- The access reaches a file that is root's alone. -/
def Access.Intrudes (a : Access) : Prop := a.uid ≠ 0 ∧ ∃ attr ∈ a.attrs, attr.RootOnly

/-- The state of the VFS, with the record of what was done. -/
structure Vfs (σ : Type) where
  mounts : List (Mount σ)
  store : σ
  accesses : List Access

/-- Who asks: `thread_get_current_uid` and `thread_get_current_gid`. -/
structure Identity where
  uid : UInt32
  gid : UInt32
  deriving DecidableEq

variable {σ : Type}

/-! ## Resolution -/

/-- `vfs_path_is_prefix`. -/
def vfsPathIsPrefix (front path : CString) : Bool :=
  front ≠ [] && front.isPrefixOf path &&
    (front == [slash] || (path.drop front.length).head?.all (· == slash))

/-- One slot of the search of `vfs_find_mount`. -/
def betterMount (path : CString) (best : Option (Mount σ)) (m : Mount σ) : Option (Mount σ) :=
  if vfsPathIsPrefix m.mountPoint path &&
      best.all (fun b => b.mountPoint.length ≤ m.mountPoint.length) then some m
  else best

/-- `out_relative`: what the mount is asked for. -/
def relativePath (m : Mount σ) (path : CString) : CString :=
  if m.mountPoint = [slash] then path
  else if path.drop m.mountPoint.length = [] then [slash] else path.drop m.mountPoint.length

/-- `vfs_find_mount`: the mount and the relative path. -/
def vfsFindMount (mounts : List (Mount σ)) (path : CString) : Option (Mount σ × CString) :=
  (mounts.foldl (betterMount path) none).map fun m => (m, relativePath m path)

/-- `vfs_getattr`. -/
def vfsGetattr (v : Vfs σ) (path : CString) : Option Attr :=
  match vfsFindMount v.mounts path with
  | some (m, rel) => m.ops.getattr.bind fun f => f v.store rel
  | none => none

/-- `vfs_perm_check`: whether it returns `0`. -/
def vfsPermCheck (who : Identity) (v : Vfs σ) (path : CString) (writeAccess : Bool) : Bool :=
  if who.uid = 0 then true
  else match vfsGetattr v path with
  | none => false
  | some a =>
      let mode := a.mode &&& 0o777
      if a.uid = who.uid then mode &&& (if writeAccess then 0o200 else 0o400) != 0
      else if a.gid = who.gid then mode &&& (if writeAccess then 0o020 else 0o040) != 0
      else mode &&& (if writeAccess then 0o002 else 0o004) != 0

/-! ## The path operations -/

/-- The operation on `path` is recorded. -/
def Vfs.record (v : Vfs σ) (who : Identity) (kind : AccessKind) (path : CString) : Vfs σ :=
  { v with accesses := v.accesses ++ [⟨who.uid, kind, (vfsGetattr v path).toList⟩] }

/-- What `vfs_mkdir`, `vfs_create_file`, `vfs_write_file`, `vfs_remove` and `vfs_chmod` do
alike: the check for writing, and the backend's operation, if it has one. -/
def vfsChange (op : VfsOps σ → Option (σ → CString → Int × σ)) (who : Identity) (v : Vfs σ)
    (path : CString) : Int × Vfs σ :=
  if vfsPermCheck who v path true then
    match vfsFindMount v.mounts path with
    | some (m, rel) =>
        match op m.ops with
        | some f => ((f v.store rel).1, { v.record who .changes path with store := (f v.store rel).2 })
        | none => (-1, v)
    | none => (-1, v)
  else (-1, v)

/-- `vfs_mkdir`. -/
def vfsMkdir (who : Identity) (v : Vfs σ) (path : CString) (mode : UInt16) : Int × Vfs σ :=
  vfsChange (fun ops => ops.mkdir.map fun f st rel => f st rel mode.toNat) who v path

/-- `vfs_create_file`. -/
def vfsCreateFile (who : Identity) (v : Vfs σ) (path : CString) (mode : UInt16)
    (data : List UInt8) : Int × Vfs σ :=
  vfsChange (fun ops => ops.createFile.map fun f st rel => f st rel mode.toNat data) who v path

/-- `vfs_write_file`. -/
def vfsWriteFile (who : Identity) (v : Vfs σ) (path : CString) (data : List UInt8) :
    Int × Vfs σ :=
  vfsChange (fun ops => ops.writeFile.map fun f st rel => f st rel data) who v path

/-- `vfs_remove`. -/
def vfsRemove (who : Identity) (v : Vfs σ) (path : CString) : Int × Vfs σ :=
  vfsChange (fun ops => ops.remove) who v path

/-- `vfs_chmod`. -/
def vfsChmod (who : Identity) (v : Vfs σ) (path : CString) (mode : UInt16) : Int × Vfs σ :=
  vfsChange (fun ops => ops.chmod.map fun f st rel => f st rel mode) who v path

/-- What `vfs_read_file` answers where it fails before the backend. -/
def readFailure : ReadOutcome := ⟨-1, none, []⟩

/-- `vfs_read_file`. -/
def vfsReadFile (who : Identity) (v : Vfs σ) (path : CString) (cap : Option Nat) :
    ReadOutcome × Vfs σ :=
  if vfsPermCheck who v path false then
    match vfsFindMount v.mounts path with
    | some (m, rel) =>
        match m.ops.readFile with
        | some f => (f v.store rel cap, v.record who .reads path)
        | none => (readFailure, v)
    | none => (readFailure, v)
  else (readFailure, v)

/-- `vfs_extract_mount_child`: the name a mount point shows in `parent`. -/
def vfsExtractMountChild (parent mountPoint : CString) : Option CString :=
  if parent.head? ≠ some slash ∨ mountPoint.head? ≠ some slash ∨ mountPoint = [slash] then none
  else
    let rel :=
      if parent = [slash] then some (mountPoint.drop 1)
      else if parent.isPrefixOf mountPoint ∧
          (mountPoint.drop parent.length).head? = some slash then
        some (mountPoint.drop (parent.length + 1))
      else none
    rel.bind fun rel =>
      let child := (rel.takeWhile (· ≠ slash)).take (vfsMaxName - 1)
      if child = [] ∨ (rel.drop child.length).head? = some slash then none else some child

/-- One mount of the second loop of `vfs_list_dir`: the entries stored so far and their
number, which goes on counting when the buffer is full. -/
def mergeMountChild (path : CString) (out : Bool) (maxEntries : Nat)
    (acc : List VfsDirent × Nat) (m : Mount σ) : List VfsDirent × Nat :=
  match vfsExtractMountChild path m.mountPoint with
  | none => acc
  | some child =>
      if out ∧ child ∈ acc.1.map VfsDirent.name then acc
      else if out ∧ acc.2 < maxEntries then (acc.1 ++ [⟨child, true, 0⟩], acc.2 + 1)
      else (acc.1, acc.2 + 1)

/-- What `vfs_list_dir` answers where it fails before the backend. -/
def listFailure : ListOutcome := ⟨-1, none, []⟩

/-- `vfs_list_dir`: no check stands in front of it. -/
def vfsListDir (who : Identity) (v : Vfs σ) (path : CString) (out : Bool) (maxEntries : Nat) :
    ListOutcome × Vfs σ :=
  match vfsFindMount v.mounts path with
  | some (m, rel) =>
      match m.ops.listDir with
      | some f =>
          let listed := f v.store rel out maxEntries
          if listed.rc ≠ 0 then (⟨listed.rc, some 0, listed.out⟩, v.record who .reads path)
          else
            let all := v.mounts.foldl (mergeMountChild path out maxEntries)
              (listed.out, listed.outCount.getD 0)
            (⟨0, some all.2, all.1⟩, v.record who .reads path)
      | none => (listFailure, v)
  | none => (listFailure, v)

/-- `vfs_exists`. -/
def vfsExists (v : Vfs σ) (path : CString) : Int :=
  match vfsFindMount v.mounts path with
  | some (m, rel) => (m.ops.exists_.map fun f => f v.store rel).getD 0
  | none => 0

/-- `vfs_rename`: the two paths have to be below one mount. -/
def vfsRename (who : Identity) (v : Vfs σ) (oldPath newPath : CString) : Int × Vfs σ :=
  if vfsPermCheck who v oldPath true && vfsPermCheck who v newPath true then
    match vfsFindMount v.mounts oldPath, vfsFindMount v.mounts newPath with
    | some (mo, oldRel), some (mn, newRel) =>
        if mo.mountPoint = mn.mountPoint then
          match mo.ops.rename with
          | some f =>
              ((f v.store oldRel newRel).1,
                { (v.record who .changes oldPath).record who .changes newPath with
                  store := (f v.store oldRel newRel).2 })
          | none => (-1, v)
        else (-1, v)
    | _, _ => (-1, v)
  else (-1, v)

/-- `vfs_chown`. -/
def vfsChown (who : Identity) (v : Vfs σ) (path : CString) (uid gid : UInt32) : Int × Vfs σ :=
  if who.uid ≠ 0 then (-1, v)
  else match vfsFindMount v.mounts path with
  | some (m, rel) =>
      match m.ops.chown with
      | some f =>
          ((f v.store rel uid gid).1,
            { v.record who .changes path with store := (f v.store rel uid gid).2 })
      | none => (-1, v)
  | none => (-1, v)

/-! ## What an operation may do -/

/-- Between the two states only accesses were made that reach no file of root's alone, and
the store was changed by recorded changes only. -/
def Confined (v w : Vfs σ) : Prop :=
  ∃ done : List Access, w.accesses = v.accesses ++ done ∧ (∀ a ∈ done, ¬ a.Intrudes) ∧
    (w.store = v.store ∨ ∃ a ∈ done, a.kind = .changes)

theorem Confined.refl (v : Vfs σ) : Confined v v := ⟨[], by simp, by simp, .inl rfl⟩

theorem Confined.trans {u v w : Vfs σ} (first : Confined u v) (second : Confined v w) :
    Confined u w := by
  obtain ⟨done, log, good, kept⟩ := first
  obtain ⟨more, log', good', kept'⟩ := second
  refine ⟨done ++ more, by rw [log', log, List.append_assoc], ?_, ?_⟩
  · intro a mem
    rcases List.mem_append.1 mem with h | h
    · exact good a h
    · exact good' a h
  · rcases kept with kept | ⟨a, mem, changes⟩
    · rcases kept' with kept' | ⟨a, mem, changes⟩
      · exact .inl (kept'.trans kept)
      · exact .inr ⟨a, List.mem_append_right _ mem, changes⟩
    · exact .inr ⟨a, List.mem_append_left _ mem, changes⟩

/-- A new mount table touches nothing. -/
theorem confined_mounts (v : Vfs σ) (mounts : List (Mount σ)) :
    Confined v { v with mounts := mounts } :=
  ⟨[], by simp, by simp, .inl rfl⟩

/-- A recorded read of what is not root's alone. -/
theorem confined_reads {v : Vfs σ} {who : Identity} {path : CString}
    (allowed : ¬ Access.Intrudes ⟨who.uid, .reads, (vfsGetattr v path).toList⟩) :
    Confined v (v.record who .reads path) :=
  ⟨_, rfl, by simpa using allowed, .inl rfl⟩

/-- A recorded change of what is not root's alone. -/
theorem confined_changes {v : Vfs σ} {who : Identity} {path : CString}
    (allowed : ¬ Access.Intrudes ⟨who.uid, .changes, (vfsGetattr v path).toList⟩) (store : σ) :
    Confined v { v.record who .changes path with store := store } :=
  ⟨_, rfl, by simpa using allowed, .inr ⟨_, List.mem_singleton.2 rfl, rfl⟩⟩

/-! ## The check -/

/-- A bit for the group or the others that survives the check is a bit of the mode outside
the owner's. -/
theorem mode_and_ne_zero {mode bit : UInt16} (all : bit &&& 0o777 = bit) (rest : bit &&& 0o077 = bit)
    (set : (mode &&& 0o777) &&& bit ≠ 0) : mode &&& 0o077 ≠ 0 := by
  intro none_
  apply set
  calc (mode &&& 0o777) &&& bit
      = mode &&& (bit &&& 0o777) := by rw [UInt16.and_assoc, UInt16.and_comm 0o777]
    _ = mode &&& (bit &&& 0o077) := by rw [all, rest]
    _ = (mode &&& 0o077) &&& bit := by rw [UInt16.and_comm bit, ← UInt16.and_assoc]
    _ = 0 := by rw [none_, UInt16.zero_and]

/-- What passes the check for a thread that is not root's is not root's alone. -/
theorem vfsPermCheck_sound {who : Identity} {v : Vfs σ} {path : CString} {writeAccess : Bool}
    (ok : vfsPermCheck who v path writeAccess = true) (kind : AccessKind) :
    ¬ Access.Intrudes ⟨who.uid, kind, (vfsGetattr v path).toList⟩ := by
  rintro ⟨notRoot, a, mem, owner, closed⟩
  obtain found : vfsGetattr v path = some a := by simpa using mem
  have other : a.uid ≠ who.uid := fun same => notRoot (same.symm.trans owner)
  simp only [vfsPermCheck, if_neg notRoot, found, if_neg other] at ok
  split at ok
  · refine mode_and_ne_zero ?_ ?_ (bne_iff_ne.1 ok) closed <;> cases writeAccess <;> decide
  · refine mode_and_ne_zero ?_ ?_ (bne_iff_ne.1 ok) closed <;> cases writeAccess <;> decide

theorem vfsChange_confined (op : VfsOps σ → Option (σ → CString → Int × σ)) (who : Identity)
    (v : Vfs σ) (path : CString) : Confined v (vfsChange op who v path).2 := by
  unfold vfsChange
  split
  next ok =>
    split
    · split
      · exact confined_changes (vfsPermCheck_sound ok .changes) _
      · exact Confined.refl v
    · exact Confined.refl v
  next => exact Confined.refl v

theorem vfsReadFile_confined (who : Identity) (v : Vfs σ) (path : CString) (cap : Option Nat) :
    Confined v (vfsReadFile who v path cap).2 := by
  unfold vfsReadFile
  split
  next ok =>
    split
    · split
      · exact confined_reads (vfsPermCheck_sound ok .reads)
      · exact Confined.refl v
    · exact Confined.refl v
  next => exact Confined.refl v

/-- Listing is confined where the directory is not root's alone. -/
theorem vfsListDir_confined (who : Identity) {v : Vfs σ} {path : CString}
    (open_ : ∀ a ∈ vfsGetattr v path, ¬ a.RootOnly) (out : Bool) (maxEntries : Nat) :
    Confined v (vfsListDir who v path out maxEntries).2 := by
  have allowed : ¬ Access.Intrudes ⟨who.uid, .reads, (vfsGetattr v path).toList⟩ := by
    rintro ⟨-, a, mem, only⟩
    exact open_ a (by simpa using mem) only
  unfold vfsListDir
  split
  · split
    · dsimp only
      split
      · exact confined_reads allowed
      · exact confined_reads allowed
    · exact Confined.refl v
  · exact Confined.refl v

theorem vfsRename_confined (who : Identity) (v : Vfs σ) (oldPath newPath : CString) :
    Confined v (vfsRename who v oldPath newPath).2 := by
  unfold vfsRename
  split
  next ok =>
    obtain ⟨okOld, okNew⟩ := Bool.and_eq_true_iff.1 ok
    split
    · split
      · split
        · refine ⟨[⟨who.uid, .changes, (vfsGetattr v oldPath).toList⟩,
            ⟨who.uid, .changes, (vfsGetattr v newPath).toList⟩], ?_, ?_, ?_⟩
          · show (_ ++ _) ++ _ = _
            rw [List.append_assoc]
            rfl
          · simp only [List.mem_cons, List.not_mem_nil, or_false, forall_eq_or_imp, forall_eq]
            exact ⟨vfsPermCheck_sound okOld .changes, vfsPermCheck_sound okNew .changes⟩
          · exact .inr ⟨_, List.mem_cons_self, rfl⟩
        · exact Confined.refl v
      · exact Confined.refl v
    · exact Confined.refl v
  next => exact Confined.refl v

theorem vfsChown_confined (who : Identity) (v : Vfs σ) (path : CString) (uid gid : UInt32) :
    Confined v (vfsChown who v path uid gid).2 := by
  unfold vfsChown
  split
  next => exact Confined.refl v
  next root =>
    split
    · split
      · exact confined_changes (fun intrudes => root intrudes.1) _
      · exact Confined.refl v
    · exact Confined.refl v

end NTux.Fs
