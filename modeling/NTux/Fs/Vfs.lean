import Mathlib.Data.UInt
import Mathlib.Data.List.Basic

/-!
# The virtual filesystem interface

The constants and the backend table of `fs/vfs.h`.  A C string is the list of its
bytes before the terminating NUL.  What a backend operation stores through an out
parameter is a field of its result: `none` where the source leaves the caller's
variable alone.
-/

namespace NTux.Fs

/-- A NUL-terminated string: the bytes before the terminator. -/
abbrev CString := List UInt8

/-- `'/'`. -/
abbrev slash : UInt8 := 0x2F

/-- `'.'`. -/
abbrev dot : UInt8 := 0x2E

/-- `VFS_MAX_PATH`. -/
def vfsMaxPath : Nat := 256

/-- `VFS_MAX_NAME`: the size of a name buffer, terminator included. -/
def vfsMaxName : Nat := 64

/-- `vfs_dirent_t`. -/
structure VfsDirent where
  name : CString
  isDir : Bool
  size : Nat
  deriving DecidableEq

/-- What `read_file` returns: its code, what it stores through `out_len`, and the
bytes it stores from the start of `out`. -/
structure ReadOutcome where
  rc : Int
  outLen : Option Nat
  out : List UInt8
  deriving DecidableEq

/-- What `list_dir` returns: its code, what it stores through `out_count`, and the
entries it stores from the start of `out`. -/
structure ListOutcome where
  rc : Int
  outCount : Option Nat
  out : List VfsDirent
  deriving DecidableEq

/-- `vfs_backend_ops_t` over a context of type `σ`: a null function pointer is
`none`.  `readFile` is given the capacity of the caller's buffer, `none` for a null
pointer; `listDir` whether the caller passed a buffer, and `max_entries`. -/
structure VfsBackendOps (σ : Type) where
  mkdir : Option (σ → CString → Nat → Int × σ)
  createFile : Option (σ → CString → Nat → List UInt8 → Int × σ)
  writeFile : Option (σ → CString → List UInt8 → Int × σ)
  readFile : Option (σ → CString → Option Nat → ReadOutcome)
  listDir : Option (σ → CString → Bool → Nat → ListOutcome)
  exists_ : Option (σ → CString → Int)
  remove : Option (σ → CString → Int × σ)
  rename : Option (σ → CString → CString → Int × σ)

end NTux.Fs
