import Mathlib.Logic.Function.Basic
import Mathlib.Data.List.Basic
import NTux.Fs.Vfs

/-!
# The copy of the installer

`scan_tree`, `copy_tree` and `remove_tree` of `installer_term.c`; those of `installer.c` have a
buffer of their own for the list of a directory and are otherwise the same.

A directory is what `list_dir` lists, in that order; a path is the list of its components.
Which of the calls fail is given.  The source does not change while it is copied.
-/

namespace NTux.Install

open NTux.Fs

/-- `INS_PATH_MAX`. -/
def insPathMax : Nat := 256

/-- `INS_LS_MAX`. -/
def insLsMax : Nat := 64

/-- `INS_FILE_MAX`. -/
def insFileMax : Nat := 67108864

/-- The bytes of an ASCII text. -/
def ascii (s : String) : CString := s.toList.map fun c => UInt8.ofNat c.toNat

/-- The components of a path. -/
abbrev CompPath := List CString

/-- The path as a string. -/
def render : CompPath → CString
  | [] => [slash]
  | path => path.flatMap fun name => slash :: name

/-- `"."` and `".."`. -/
def isDots (name : CString) : Prop := name = [dot] ∨ name = [dot, dot]

instance (name : CString) : Decidable (isDots name) := by unfold isDots; infer_instance

/-- `make_child_path`. -/
def makeChildPath (base : CompPath) (name : CString) : Option CompPath :=
  if insPathMax < (render (base ++ [name])).length + 1 then none else some (base ++ [name])

/-- The endings of the paths that are not copied. -/
def skippedEndings : List CString :=
  [ascii "/boot/modules/installer.elf", ascii "/boot/modules/INSTALLER.ELF",
    ascii "/boot/modules/installer_term.elf", ascii "/boot/modules/INSTALLER_TERM.ELF",
    ascii "/boot/boot/modules/installer.elf", ascii "/boot/boot/modules/INSTALLER.ELF",
    ascii "/boot/boot/modules/installer_term.elf", ascii "/boot/boot/modules/INSTALLER_TERM.ELF"]

/-- `should_skip_on_install`. -/
def shouldSkipOnInstall (path : CompPath) : Bool :=
  skippedEndings.any fun ending => ending.isSuffixOf (render path)

/-- What is listed in a directory, with what is below it. -/
inductive Entries
  | none
  | file (name : CString) (data : List UInt8) (rest : Entries)
  | dir (name : CString) (below rest : Entries)

namespace Entries

/-- The names in the list. -/
def names : Entries → List CString
  | none => []
  | file name _ rest => name :: rest.names
  | dir name _ rest => name :: rest.names

/-- No directory has a name twice. -/
def Proper : Entries → Prop
  | none => True
  | file name _ rest => name ∉ rest.names ∧ rest.Proper
  | dir name below rest => name ∉ rest.names ∧ below.Proper ∧ rest.Proper

/-- There is nothing but `"."` and `".."`. -/
def Empty : Entries → Prop
  | none => True
  | file name _ rest => isDots name ∧ rest.Empty
  | dir name _ rest => isDots name ∧ rest.Empty

/-- What is behind the first `n` entries. -/
def drop : Nat → Entries → Entries
  | _, none => none
  | 0, e => e
  | n + 1, file _ _ rest => rest.drop n
  | n + 1, dir _ _ rest => rest.drop n

instance instDecidableEmpty : ∀ e : Entries, Decidable e.Empty
  | none => isTrue trivial
  | file name _ rest => @instDecidableAnd (isDots name) rest.Empty inferInstance
      (instDecidableEmpty rest)
  | dir name _ rest => @instDecidableAnd (isDots name) rest.Empty inferInstance
      (instDecidableEmpty rest)

instance instDecidableProper : ∀ e : Entries, Decidable e.Proper
  | none => isTrue trivial
  | file name _ rest => @instDecidableAnd (name ∉ rest.names) rest.Proper inferInstance
      (instDecidableProper rest)
  | dir name below rest =>
      @instDecidableAnd (name ∉ rest.names) (below.Proper ∧ rest.Proper) inferInstance
        (@instDecidableAnd below.Proper rest.Proper (instDecidableProper below)
          (instDecidableProper rest))

end Entries

/-- Which calls fail for a path: the list of a directory or the memory for it, `mkdir`, the copy
of a file by either way, and `remove`. -/
structure Faults where
  list : CompPath → Bool
  mkdir : CompPath → Bool
  copy : CompPath → Bool
  remove : CompPath → Bool

/-- What is at a path. -/
inductive DiskNode
  | dir
  | file (data : List UInt8)
  deriving DecidableEq

/-- The filesystem that is copied to, and the totals of the progress. -/
structure Target where
  node : CompPath → Option DiskNode
  files : Nat
  bytes : Nat

/-- `mkdir_full_path`. -/
def mkdirFullPath (faults : Faults) (path : CompPath) (t : Target) : Option Target :=
  if (t.node path).isSome then some t
  else if faults.mkdir path ∨ t.node path.dropLast ≠ some .dir then none
  else some { t with node := Function.update t.node path (some .dir) }

/-- `copy_file`. -/
def copyFile (faults : Faults) (path : CompPath) (data : List UInt8) (t : Target) :
    Option Target :=
  if insFileMax < data.length then none
  else if faults.copy path ∨ t.node path = some .dir ∨ t.node path.dropLast ≠ some .dir then none
  else some {
    node := Function.update t.node path (some (.file data))
    files := t.files + 1
    bytes := t.bytes + data.length }

/-- The loop of `copy_tree` over the first `n` entries. -/
def copyEntries (faults : Faults) :
    Nat → CompPath → CompPath → Entries → Target → Option Target
  | _, _, _, .none, t => some t
  | 0, _, _, _, t => some t
  | n + 1, src, dst, .file name data rest, t =>
      if isDots name then copyEntries faults n src dst rest t
      else do
        let srcChild ← makeChildPath src name
        let dstChild ← makeChildPath dst name
        if shouldSkipOnInstall srcChild then copyEntries faults n src dst rest t
        else
          let t ← copyFile faults dstChild data t
          copyEntries faults n src dst rest t
  | n + 1, src, dst, .dir name below rest, t =>
      if isDots name then copyEntries faults n src dst rest t
      else do
        let srcChild ← makeChildPath src name
        let dstChild ← makeChildPath dst name
        let t ← mkdirFullPath faults dstChild t
        if faults.list srcChild then none
        else
          let t ← copyEntries faults insLsMax srcChild dstChild below t
          copyEntries faults n src dst rest t

/-- `copy_tree` of a directory that lists `e`; nothing, where it fails. -/
def copyTree (faults : Faults) (src dst : CompPath) (e : Entries) (t : Target) : Option Target :=
  if faults.list src then none else copyEntries faults insLsMax src dst e t

/-- The loop of `scan_tree`. -/
def scanEntries (faults : Faults) : Nat → CompPath → Entries → Nat × Nat → Option (Nat × Nat)
  | _, _, .none, sum => some sum
  | 0, _, _, sum => some sum
  | n + 1, src, .file name data rest, sum =>
      if isDots name then scanEntries faults n src rest sum
      else do
        let srcChild ← makeChildPath src name
        if shouldSkipOnInstall srcChild then scanEntries faults n src rest sum
        else scanEntries faults n src rest (sum.1 + 1, sum.2 + data.length)
  | n + 1, src, .dir name below rest, sum =>
      if isDots name then scanEntries faults n src rest sum
      else do
        let srcChild ← makeChildPath src name
        if faults.list srcChild then none
        else
          let sum ← scanEntries faults insLsMax srcChild below sum
          scanEntries faults n src rest sum

/-- `scan_tree`: the files and the bytes. -/
def scanTree (faults : Faults) (src : CompPath) (e : Entries) : Option (Nat × Nat) :=
  if faults.list src then none else scanEntries faults insLsMax src e (0, 0)

/-- The loop of `remove_tree`; a directory is removed if it is empty. -/
def removeEntries (faults : Faults) : Nat → CompPath → Entries → Option Entries
  | _, _, .none => some .none
  | 0, _, e => some e
  | n + 1, path, .file name data rest =>
      if isDots name then (removeEntries faults n path rest).map (.file name data)
      else do
        let child ← makeChildPath path name
        if faults.remove child then none else removeEntries faults n path rest
  | n + 1, path, .dir name below rest =>
      if isDots name then (removeEntries faults n path rest).map (.dir name below)
      else do
        let child ← makeChildPath path name
        if faults.list child then none
        else
          let left ← removeEntries faults insLsMax child below
          if ¬ left.Empty ∨ faults.remove child then none else removeEntries faults n path rest

/-- `remove_tree`: what is left in the directory. -/
def removeTree (faults : Faults) (path : CompPath) (e : Entries) : Option Entries :=
  if faults.list path then none else removeEntries faults insLsMax path e

end NTux.Install
