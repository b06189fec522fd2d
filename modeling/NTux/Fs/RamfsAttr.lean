import NTux.Fs.Ramfs
import NTux.Fs.VfsMounts

/-!
# The attributes of the RAM filesystem

The operations of `fs/ramfs.c` on modes and owners, and with them the whole of
`g_ramfs_ops`.
-/

namespace NTux.Fs

/-- What `ramfs_op_getattr` stores for a node. -/
def RamfsNode.attr (n : RamfsNode) : Attr :=
  ⟨UInt16.ofNat n.mode, UInt32.ofNat n.uid, UInt32.ofNat n.gid⟩

/-- `ramfs_op_getattr`. -/
def ramfsOpGetattr (fs : Ramfs) (path : CString) : Option Attr :=
  match (ramfsResolve fs path false).node with
  | .error _ => none
  | .ok node => some (fs.nodes node).attr

/-- `ramfs_op_chmod`: only the lower twelve bits change. -/
def ramfsOpChmod (fs : Ramfs) (path : CString) (mode : UInt16) : Int × Ramfs :=
  match (ramfsResolve fs path false).node with
  | .error _ => (-1, fs)
  | .ok node =>
      let n := fs.nodes node
      let kept := UInt16.ofNat n.mode &&& 0xF000
      (0, fs.setNode node { n with mode := (kept ||| (mode &&& 0o7777)).toNat })

/-- `ramfs_op_chown`: `(uint32_t)-1` leaves a field alone. -/
def ramfsOpChown (fs : Ramfs) (path : CString) (uid gid : UInt32) : Int × Ramfs :=
  match (ramfsResolve fs path false).node with
  | .error _ => (-1, fs)
  | .ok node =>
      let n := fs.nodes node
      (0, fs.setNode node
        { n with
          uid := if uid = 0xFFFFFFFF then n.uid else uid.toNat
          gid := if gid = 0xFFFFFFFF then n.gid else gid.toNat })

/-- `g_ramfs_ops`, for a caller with the given uid. -/
def ramfsOps (uid : Nat) : VfsOps Ramfs :=
  { ramfsBackendOps uid with
    getattr := some ramfsOpGetattr
    chmod := some ramfsOpChmod
    chown := some ramfsOpChown }

/-- The RAM filesystem mounted at the root, as `fs_init` does. -/
def ramfsRootMount (uid : Nat) : Mount Ramfs := ⟨[slash], .ramfs, ramfsOps uid⟩

/-- Every path below the root belongs to the mount of the root, and the backend is asked
for it as it is. -/
theorem vfsFindMount_root (uid : Nat) {path : CString} (absolute : path.head? = some slash) :
    vfsFindMount [ramfsRootMount uid] path = some (ramfsRootMount uid, path) := by
  have below : vfsPathIsPrefix [slash] path = true := by
    cases path with
    | nil => exact absurd absolute (by simp)
    | cons c path =>
        obtain rfl : c = slash := Option.some.inj absolute
        simp [vfsPathIsPrefix]
  have best : betterMount path none (ramfsRootMount uid) = some (ramfsRootMount uid) := by
    rw [betterMount, if_pos]
    simp only [Option.all_none, Bool.and_true]
    exact below
  rw [vfsFindMount, List.foldl_cons, List.foldl_nil, best]
  rfl

end NTux.Fs
