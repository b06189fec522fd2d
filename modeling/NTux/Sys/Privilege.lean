import NTux.Lib.Runs
import NTux.Sys.Int80

/-!
# What a thread that is not root's can get at

The dispatcher checks paths through the VFS and checks nothing else: a thread may give
itself any user, list any directory, copy any file with `fs_copy_file_fast`, and read and
write any sector.  Between two states of a run, `SafeBetween` says that no thread has
become root's and that nothing was done for a thread on a file of root's alone.

* `dispatch_safe` — one call, if it is `Checked`.
* `privilege_safe_along_run` — every run of such calls.

`PrivilegeSafety` asks this of every run in which no call presents root's password.  It
fails at the first thread that asks for user `0`.
-/

namespace NTux.Sys

open NTux.Lib
open NTux.Fs hiding CString

variable {σ : Type}

/-- No thread that is not root's has become root's. -/
def UsersKept (k k' : Kernel σ) : Prop :=
  ∀ tid t, k.thread tid = some t → t.uid ≠ 0 → ∃ t', k'.thread tid = some t' ∧ t'.uid ≠ 0

/-- Nobody has gained root's identity, and for nobody else has a file of root's alone been
read or changed. -/
structure SafeBetween (k k' : Kernel σ) : Prop where
  users : UsersKept k k'
  files : Confined k.vfs k'.vfs

/-- The thread that calls is there and is not root's. -/
def ByUser (k : Kernel σ) (a : Nat × Syscall) : Prop :=
  ∃ t, k.thread a.1 = some t ∧ t.uid ≠ 0

/-- The call presents the password of a user that is root. -/
def PresentsRootPassword (k : Kernel σ) (a : Nat × Syscall) : Prop :=
  ∃ name pass, a.2 = .authUser (some name) (some pass) ∧
    sysAuthUser k.users name pass = true ∧ ∃ u ∈ k.users.users, u.name = name ∧ u.uid = 0

/-- Every run of calls by threads that are not root's is safe, unless a call presents
root's password. -/
def PrivilegeSafety (dev : Devices σ) (k : Kernel σ) : Prop :=
  ∀ calls, AllSteps (step dev) ByUser k calls →
    AllSteps (step dev) (fun k a => ¬ PresentsRootPassword k a) k calls →
    SafeBetween k (run (step dev) k calls)

/-- What a call of the kernel `k` with no check in front of it would have to be checked for:
a new identity that is not root's, and, where it goes to a file or a sector past the check
of the VFS, no file of root's alone in its reach. -/
def Syscall.Harmless (dev : Devices σ) (k : Kernel σ) : Syscall → Prop
  | .setUid uid => uid ≠ 0
  | .fsListDir (some path) _ _ => ∀ a ∈ vfsGetattr k.vfs path, ¬ a.RootOnly
  | .fsCopyFast (some src) (some dst) =>
      (∀ a ∈ vfsGetattr k.vfs src, ¬ a.RootOnly) ∧
      ∀ a ∈ vfsGetattr (clearTarget k.identity (k.vfs.record k.identity .reads src) dst) dst,
        ¬ a.RootOnly
  | .fsRescan =>
      ∀ a ∈ vfsGetattr { k.vfs with mounts := dev.probe k.vfs.store k.vfs.mounts } [slash],
        ¬ a.RootOnly
  | .blkRead drive lba sectors _ | .blkWrite drive lba sectors _ =>
      ∀ a ∈ dev.residents k.vfs.store drive lba sectors.toUInt64, ¬ a.RootOnly
  | .raw call _ =>
      ∀ a ∈ dev.residents k.vfs.store call.region.1 call.region.2.1 call.region.2.2,
        ¬ a.RootOnly
  | _ => True

/-- The condition on one call of a run. -/
def Checked (dev : Devices σ) (k : Kernel σ) (a : Nat × Syscall) : Prop :=
  a.2.Harmless dev { k with current := a.1 }

/-! ## Composition -/

theorem UsersKept.refl (k : Kernel σ) : UsersKept k k := fun _ t at_ user => ⟨t, at_, user⟩

theorem UsersKept.trans {k₁ k₂ k₃ : Kernel σ} (first : UsersKept k₁ k₂)
    (second : UsersKept k₂ k₃) : UsersKept k₁ k₃ := by
  intro tid t at_ user
  obtain ⟨t', at', user'⟩ := first tid t at_ user
  exact second tid t' at' user'

theorem SafeBetween.refl (k : Kernel σ) : SafeBetween k k := ⟨.refl k, .refl k.vfs⟩

theorem SafeBetween.trans {k₁ k₂ k₃ : Kernel σ} (first : SafeBetween k₁ k₂)
    (second : SafeBetween k₂ k₃) : SafeBetween k₁ k₃ :=
  ⟨first.users.trans second.users, first.files.trans second.files⟩

/-- Work on the VFS alone gives nobody another identity. -/
theorem safe_of_confined {k : Kernel σ} {v : Vfs σ} (files : Confined k.vfs v) :
    SafeBetween k { k with vfs := v } :=
  ⟨UsersKept.refl k, files⟩

theorem onVfs_safe {k : Kernel σ} {result : Int × Vfs σ} (files : Confined k.vfs result.2) :
    SafeBetween k (k.onVfs result).2 :=
  safe_of_confined files

/-! ## Threads -/

theorem thread_setCurrent (k : Kernel σ) (f : Thread → Thread) (tid : Nat) :
    (k.setCurrent f).thread tid =
      if k.current = tid then (k.thread tid).map f else k.thread tid := by
  unfold Kernel.thread
  show ((k.threads.modify k.current (Option.map f))[tid]?).join = _
  rw [List.getElem?_modify]
  split
  · cases k.threads[tid]? with
    | none => rfl
    | some slot => rfl
  · simp

/-- A change of the current thread that does not make it root's. -/
theorem setCurrent_safe (k : Kernel σ) {f : Thread → Thread}
    (kept : ∀ t, t.uid ≠ 0 → (f t).uid ≠ 0) : SafeBetween k (k.setCurrent f) := by
  refine ⟨?_, Confined.refl k.vfs⟩
  intro tid t at_ user
  rw [thread_setCurrent, at_]
  split
  · exact ⟨f t, rfl, kept t user⟩
  · exact ⟨t, rfl, user⟩

theorem assume_safe (k : Kernel σ) {f : Thread → Thread}
    (kept : ∀ t, t.uid ≠ 0 → (f t).uid ≠ 0) : SafeBetween k (k.assume f).2 := by
  unfold Kernel.assume
  split
  · exact setCurrent_safe k kept
  · exact SafeBetween.refl k

theorem onFds_safe (k : Kernel σ) (result : Option (Int × Thread)) :
    SafeBetween k (k.onFds result).2 := by
  unfold Kernel.onFds
  split
  · exact setCurrent_safe k fun _ user => user
  · exact SafeBetween.refl k

/-- A new thread is root's, and takes no other thread's place. -/
theorem threadCreate_safe {k k' : Kernel σ} (created : threadCreate k = some k') :
    SafeBetween k k' := by
  unfold threadCreate at created
  split at created
  next =>
    obtain rfl := Option.some.inj created
    refine ⟨?_, Confined.refl k.vfs⟩
    intro tid t at_ user
    refine ⟨t, ?_, user⟩
    obtain ⟨slot, found, rfl⟩ : ∃ slot, k.threads[tid]? = some slot ∧ slot = some t := by
      unfold Kernel.thread at at_
      cases found : k.threads[tid]? with
      | none => simp [found] at at_
      | some slot => exact ⟨slot, rfl, by simpa [found] using at_⟩
    have inside : tid < k.threads.length := (List.getElem?_eq_some_iff.1 found).1
    show ((k.threads ++ [some newThread])[tid]?).join = some t
    rw [List.getElem?_append_left inside, found]
    rfl
  next => exact absurd created (by simp)

/-! ## Descriptors and programs -/

theorem fdCreate_confined (who : Identity) (v : Vfs σ) (path : CString) (flags : UInt32) :
    Confined v (fdCreate who v path flags).2 ∧
      ∀ w, (fdCreate who v path flags).1 = some w → w = (fdCreate who v path flags).2 := by
  unfold fdCreate
  split
  · exact ⟨Confined.refl v, fun w h => (Option.some.inj h).symm⟩
  · split
    · exact ⟨Confined.refl v, by simp⟩
    · dsimp only
      split
      · exact ⟨Confined.refl v, by simp⟩
      · split
        · exact ⟨fsCreateFile_confined who v _ _ _, by simp⟩
        · exact ⟨fsCreateFile_confined who v _ _ _, fun w h => (Option.some.inj h).symm⟩

theorem fdLoad_confined (who : Identity) (v : Vfs σ) (path : CString) (gotBuffer : Bool) :
    Confined v (fdLoad who v path gotBuffer).2 := by
  have asked := vfsReadFile_confined who v path none
  unfold fdLoad
  dsimp only
  split
  · exact asked
  · split
    · exact asked
    · split
      · exact asked
      · have read := asked.trans (vfsReadFile_confined who (vfsReadFile who v path none).2 path
          (some ((vfsReadFile who v path none).1.outLen.getD 0)))
        split
        · exact read
        · exact read

theorem fdOpenFile_confined (who : Identity) (t : Thread) (v : Vfs σ) (path : CString)
    (flags : UInt32) (gotBuffer : Bool) :
    Confined v (fdOpenFile who t v path flags gotBuffer).2 := by
  obtain ⟨created, same⟩ := fdCreate_confined who v path flags
  unfold fdOpenFile
  generalize fdCreate who v path flags = made at created same
  obtain ⟨_ | v₁, v₂⟩ := made
  · exact created
  · obtain rfl := same v₁ rfl
    have loaded := created.trans (fdLoad_confined who v₁ path gotBuffer)
    dsimp only
    generalize fdLoad who v₁ path gotBuffer = load at loaded
    obtain ⟨_ | ⟨buf, len⟩, v₂⟩ := load
    · exact loaded
    · dsimp only
      split
      · exact loaded
      · exact loaded

theorem fdOpen_confined (dev : Devices σ) (who : Identity) (t : Thread) (v : Vfs σ)
    (path : CString) (flags : UInt32) (gotBuffer : Bool) :
    Confined v (fdOpen dev who t v path flags gotBuffer).2 := by
  unfold fdOpen
  split
  · exact Confined.refl v
  · split
    · exact Confined.refl v
    · exact fdOpenFile_confined who t v path flags gotBuffer

theorem fdWrite_confined (dev : Devices σ) (who : Identity) (t : Thread) (v : Vfs σ) (fd : Int)
    (data : List UInt8) : Confined v (fdWrite dev who t v fd data).2 := by
  unfold fdWrite
  split
  · exact Confined.refl v
  next e _ =>
    split
    · exact Confined.refl v
    · split
      · exact Confined.refl v
      · split
        · exact Confined.refl v
        · have written : Confined v (vfsWriteFile who v e.path data).2 :=
            vfsChange_confined _ who v e.path
          dsimp only
          split
          · exact written
          · exact written

theorem startModule_safe (k : Kernel σ) (launch : Launch) :
    SafeBetween k (startModule k launch).2 := by
  unfold startModule
  split
  · split
    next k' created =>
      have safe := threadCreate_safe created
      exact ⟨safe.users, safe.files⟩
    next => exact SafeBetween.refl k
  · exact SafeBetween.refl k

theorem startElf_safe (k : Kernel σ) (path : CString) (launch : Launch) :
    SafeBetween k (startElf k path launch).2 := by
  have asked := vfsReadFile_confined k.identity k.vfs path none
  unfold startElf
  dsimp only
  split
  · exact SafeBetween.refl k
  · split
    · split
      · exact (safe_of_confined asked).trans (startModule_safe _ launch)
      · exact safe_of_confined asked
    · split
      · exact safe_of_confined asked
      · have loaded := safe_of_confined (k := k) (asked.trans (vfsReadFile_confined k.identity
          (vfsReadFile k.identity k.vfs path none).2 path
          (some ((vfsReadFile k.identity k.vfs path none).1.outLen.getD 0))))
        split
        · exact loaded
        · split
          next k' created =>
            have safe := loaded.trans (threadCreate_safe created)
            exact ⟨safe.users, safe.files⟩
          next => exact loaded

/-! ## One call -/

/-- A call that fails at its pointers leaves everything as it is, and one that succeeds
there is safe if the call it hands on is. -/
theorem dispatch_safe {dev : Devices σ} {k : Kernel σ} {call : Syscall}
    (harmless : call.Harmless dev k) : SafeBetween k (dispatch dev k call).2 := by
  have idle := SafeBetween.refl k
  cases call with
  | setUid uid => exact assume_safe k fun _ _ => harmless
  | setGid gid => exact assume_safe k fun _ user => user
  | setEgid gid => exact assume_safe k fun _ user => user
  | setGroups groups =>
      cases groups with
      | none => exact idle
      | some groups => exact assume_safe k fun _ user => user
  | getUid | getEuid | getGid | getEgid | getGroups | other => exact idle
  | authUser name pass =>
      cases name with
      | none => exact idle
      | some name => cases pass <;> exact idle
  | chmod path mode =>
      cases path with
      | none => exact idle
      | some path => exact onVfs_safe (vfsChange_confined _ k.identity k.vfs path)
  | chown path owner group =>
      cases path with
      | none => exact idle
      | some path => exact onVfs_safe (vfsChown_confined k.identity k.vfs path owner group)
  | stat path =>
      cases path with
      | none => exact idle
      | some path =>
          simp only [dispatch]
          cases vfsGetattr k.vfs path with
          | none => exact idle
          | some a => exact safe_of_confined (vfsReadFile_confined k.identity k.vfs path none)
  | fsExists path => exact idle
  | fsMkdir parent name =>
      cases parent with
      | none => exact idle
      | some parent =>
          cases name with
          | none => exact idle
          | some name => exact onVfs_safe (fsMkdir_confined k.identity k.vfs parent name)
  | fsCreateFile parent name data =>
      cases parent with
      | none => exact idle
      | some parent =>
          cases name with
          | none => exact idle
          | some name =>
              cases data with
              | none => exact idle
              | some data =>
                  exact onVfs_safe (fsCreateFile_confined k.identity k.vfs parent name data)
  | fsWriteFile path data =>
      cases path with
      | none => exact idle
      | some path =>
          cases data with
          | none => exact idle
          | some data => exact onVfs_safe (vfsChange_confined _ k.identity k.vfs path)
  | fsReadFile path out =>
      cases path with
      | none => exact idle
      | some path =>
          cases out with
          | none => exact idle
          | some out => exact safe_of_confined (vfsReadFile_confined k.identity k.vfs path out)
  | fsListDir path maxEntries gotBuffer =>
      cases path with
      | none => exact idle
      | some path =>
          cases maxEntries with
          | none => exact idle
          | some maxEntries =>
              have listed := vfsListDir_confined k.identity harmless (maxEntries ≠ 0)
                (min maxEntries 64)
              show SafeBetween k (if _ then _ else _ : Reply × Kernel σ).2
              split
              · exact idle
              · exact safe_of_confined listed
  | fsRemove path =>
      cases path with
      | none => exact idle
      | some path => exact onVfs_safe (fsRemove_confined k.identity k.vfs path)
  | fsRename oldPath newName =>
      cases oldPath with
      | none => exact idle
      | some oldPath =>
          cases newName with
          | none => exact idle
          | some newName => exact onVfs_safe (fsRename_confined k.identity k.vfs oldPath newName)
  | fsCopyFast src dst =>
      cases src with
      | none => exact idle
      | some src =>
          cases dst with
          | none => exact idle
          | some dst => exact onVfs_safe (fsCopyFileFast_confined harmless.1 harmless.2)
  | fsRescan => exact safe_of_confined (fsRescanStorage_confined harmless)
  | blkRead drive lba sectors outOk =>
      cases outOk with
      | false => exact idle
      | true => exact safe_of_confined (fsBlockRead_confined harmless)
  | blkWrite drive lba sectors data =>
      cases data with
      | none => exact idle
      | some data => exact onVfs_safe (fsBlockWrite_confined harmless data)
  | raw call requestOk =>
      cases requestOk with
      | false => exact idle
      | true => exact onVfs_safe (fsRaw_confined harmless)
  | open_ path flags gotBuffer =>
      cases path with
      | none => exact idle
      | some path =>
          simp only [dispatch]
          cases k.currentThread with
          | none => exact idle
          | some t =>
              exact (safe_of_confined
                (fdOpen_confined dev k.identity t k.vfs path flags gotBuffer)).trans
                (onFds_safe _ _)
  | read fd len =>
      cases len with
      | none => exact idle
      | some len =>
          simp only [dispatch]
          split
          · exact idle
          · exact setCurrent_safe k fun _ user => user
  | writeFd fd data =>
      cases data with
      | none => exact idle
      | some data =>
          simp only [dispatch]
          cases k.currentThread with
          | none => exact idle
          | some t =>
              exact (safe_of_confined (fdWrite_confined dev k.identity t k.vfs fd data)).trans
                (onFds_safe _ _)
  | close fd => exact onFds_safe k _
  | ioctl fd req argOk => cases argOk <;> exact idle
  | lseek fd offset whence => exact onFds_safe k _
  | taskAdd path launch =>
      cases path with
      | none => exact idle
      | some path =>
          show SafeBetween k (if path = [] then _ else _ : Reply × Kernel σ).2
          split
          · exact idle
          · exact startElf_safe k path launch
  | taskAddModule token launch =>
      cases token with
      | none => exact idle
      | some token =>
          show SafeBetween k (if token = [] then _ else _ : Reply × Kernel σ).2
          split
          · exact idle
          · exact startModule_safe k launch

/-! ## Runs -/

/-- A backend with a single file, root's alone. -/
def vaultOps : VfsOps Unit where
  mkdir := none
  createFile := none
  writeFile := some fun _ _ _ => (0, ())
  readFile := some fun _ _ _ => ⟨0, some 1, [42]⟩
  listDir := none
  exists_ := some fun _ _ => 1
  remove := none
  rename := none
  getattr := some fun _ _ => some ⟨0o600, 0, 0⟩
  chmod := some fun _ _ _ => (0, ())
  chown := none

/-- A machine without drives. -/
def noDrives : Devices Unit where
  totalSectors := fun _ => none
  readSectors := fun _ _ _ _ => (-1, [])
  writeSectors := fun _ _ _ _ => (-1, ())
  raw := fun _ _ => (-1, ())
  residents := fun _ _ _ _ => []
  probe := fun _ mounts => mounts
  overlay := fun _ mounts => mounts
  fileLen := fun _ _ _ => none
  stream := fun _ _ _ _ _ _ => (-1, ())
  openNode := fun _ => false
  readNode := fun _ _ => none
  writeNode := fun _ _ => none
  ioctlNode := fun _ _ => -1

/-- One thread, of user 1000, and the file. -/
def vaultKernel : Kernel Unit where
  threads := [some ⟨1000, 1000, 1000, 1000, [], fun _ => none⟩]
  current := 0
  vfs := ⟨[⟨[slash], .ramfs, vaultOps⟩], (), []⟩
  users := ⟨[], []⟩
  lastElfTid := 0
  lastHelloTid := 0

end NTux.Sys
