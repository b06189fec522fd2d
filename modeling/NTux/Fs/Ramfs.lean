import Mathlib.Logic.Function.Basic
import NTux.Fs.Vfs

/-!
# The RAM filesystem

The data model and the operations of `fs/ramfs.c`: a table of nodes, each with a
fixed array of child indices and a count, and a byte pool from which file
contents are carved.

The `children` array is a function on indices and `childCount` says how many of
its entries are in use, as in the source: removing a child shifts the entries
behind it and leaves the last one in place.  `Node.entries` reads the entries in
use as a list.  The uid of the calling thread (`thread_get_current_uid`) is a
parameter of the operations that create nodes.
-/

namespace NTux.Fs

/-- `RAMFS_MAX_NODES`. -/
def ramfsMaxNodes : Nat := 1024

/-- `RAMFS_MAX_CHILDREN`. -/
def ramfsMaxChildren : Nat := 64

/-- `RAMFS_MAX_FILE_BYTES`. -/
def ramfsMaxFileBytes : Nat := 1024 * 1024

/-- `RAMFS_DEFAULT_DIR_MODE`. -/
def ramfsDefaultDirMode : Nat := 0o755

/-- `RAMFS_DEFAULT_FILE_MODE`. -/
def ramfsDefaultFileMode : Nat := 0o644

/-- `ramfs_node_type_t`. -/
inductive RamfsNodeType
  | file
  | dir
  deriving DecidableEq

/-- `ramfs_node_t`; `data` is an offset into the file pool. -/
structure RamfsNode where
  used : Bool
  type : RamfsNodeType
  parent : Nat
  name : CString
  children : Nat → Nat
  childCount : Nat
  data : Option Nat
  size : Nat
  capacity : Nat
  mode : Nat
  uid : Nat
  gid : Nat

namespace RamfsNode

/-- The node `memset` leaves behind. -/
def zero : RamfsNode where
  used := false
  type := .file
  parent := 0
  name := []
  children := fun _ => 0
  childCount := 0
  data := none
  size := 0
  capacity := 0
  mode := 0
  uid := 0
  gid := 0

/-- The entries of the children array that are in use. -/
def entries (n : RamfsNode) : List Nat := (List.range n.childCount).map n.children

/-- `children[child_count++] = child`. -/
def addChild (n : RamfsNode) (child : Nat) : RamfsNode :=
  { n with
    children := Function.update n.children n.childCount child
    childCount := n.childCount + 1 }

/-- Shift the entries behind `idx` down by one and drop the count. -/
def dropChild (n : RamfsNode) (idx : Nat) : RamfsNode :=
  { n with
    children := fun i =>
      if idx ≤ i ∧ i + 1 < n.childCount then n.children (i + 1) else n.children i
    childCount := n.childCount - 1 }

end RamfsNode

/-- `ramfs_t`. -/
structure Ramfs where
  nodes : Nat → RamfsNode
  filePool : Nat → UInt8
  filePoolUsed : Nat
  rootIndex : Nat

namespace Ramfs

/-- Store a node in the table. -/
def setNode (fs : Ramfs) (i : Nat) (n : RamfsNode) : Ramfs :=
  { fs with nodes := Function.update fs.nodes i n }

@[simp] theorem setNode_nodes_self (fs : Ramfs) (i : Nat) (n : RamfsNode) :
    (fs.setNode i n).nodes i = n := by
  simp [setNode]

theorem setNode_nodes_of_ne (fs : Ramfs) {i j : Nat} (n : RamfsNode) (ne : j ≠ i) :
    (fs.setNode i n).nodes j = fs.nodes j := by
  simp [setNode, ne]

@[simp] theorem setNode_rootIndex (fs : Ramfs) (i : Nat) (n : RamfsNode) :
    (fs.setNode i n).rootIndex = fs.rootIndex := rfl

@[simp] theorem setNode_filePoolUsed (fs : Ramfs) (i : Nat) (n : RamfsNode) :
    (fs.setNode i n).filePoolUsed = fs.filePoolUsed := rfl

@[simp] theorem setNode_filePool (fs : Ramfs) (i : Nat) (n : RamfsNode) :
    (fs.setNode i n).filePool = fs.filePool := rfl

end Ramfs

/-! ## Nodes -/

/-- The scan of `ramfs_alloc_node`: the first unused node from `i` on, among `fuel`. -/
def ramfsAllocScan (fs : Ramfs) : Nat → Nat → Option Nat
  | 0, _ => none
  | fuel + 1, i => if (fs.nodes i).used then ramfsAllocScan fs fuel (i + 1) else some i

/-- `ramfs_alloc_node`. -/
def ramfsAllocNode (fs : Ramfs) : Option (Nat × Ramfs) :=
  (ramfsAllocScan fs ramfsMaxNodes 0).map fun i =>
    (i, fs.setNode i { RamfsNode.zero with used := true })

/-- `ramfs_copy_name`. -/
def ramfsCopyName (name : CString) : CString := name.take (vfsMaxName - 1)

/-- `ramfs_path_next`: the next token, truncated to a name buffer, and what
follows it; `none` at the end of the path. -/
def ramfsPathNext (p : CString) : Option (CString × CString) :=
  match p.dropWhile (· == slash) with
  | [] => none
  | s => some ((s.takeWhile (· != slash)).take (vfsMaxName - 1), s.dropWhile (· != slash))

/-- The tokens `ramfs_path_next` yields one after the other. -/
def ramfsPathTokens (p : CString) : List CString :=
  go p.length p
where
  go : Nat → CString → List CString
    | 0, _ => []
    | fuel + 1, p =>
        match ramfsPathNext p with
        | none => []
        | some (token, rest) => token :: go fuel rest

/-- `ramfs_find_child`. -/
def ramfsFindChild (fs : Ramfs) (parent : Nat) (name : CString) : Option Nat :=
  (fs.nodes parent).entries.find? fun c => (fs.nodes c).used && (fs.nodes c).name == name

/-- `ramfs_create_child`. -/
def ramfsCreateChild (fs : Ramfs) (parent : Nat) (name : CString) (type : RamfsNodeType) :
    Except Int (Nat × Ramfs) :=
  if ramfsMaxChildren ≤ (fs.nodes parent).childCount then .error (-1)
  else
    match ramfsAllocNode fs with
    | none => .error (-2)
    | some (idx, fs) =>
        let fs := fs.setNode idx
          { fs.nodes idx with type := type, parent := parent, name := ramfsCopyName name }
        .ok (idx, fs.setNode parent ((fs.nodes parent).addChild idx))

/-- What `ramfs_resolve` returns and stores through its out parameters; with
`create_dirs` it also changes the filesystem. -/
structure RamfsResolution where
  fs : Ramfs
  node : Except Int Nat
  parent : Option Nat
  leaf : CString

/-- The loop of `ramfs_resolve`, over the tokens still to come. -/
def ramfsResolveLoop (createDirs : Bool) : Ramfs → Nat → CString → List CString → RamfsResolution
  | fs, cur, tok, [] =>
      { fs := fs
        node := match ramfsFindChild fs cur tok with
          | some child => .ok child
          | none => .error (-2)
        parent := some cur
        leaf := ramfsCopyName tok }
  | fs, cur, tok, next :: rest =>
      match ramfsFindChild fs cur tok with
      | some child =>
          if (fs.nodes child).type = .dir then ramfsResolveLoop createDirs fs child next rest
          else ⟨fs, .error (-5), none, []⟩
      | none =>
          if createDirs then
            match ramfsCreateChild fs cur tok .dir with
            | .error _ => ⟨fs, .error (-4), none, []⟩
            | .ok (child, fs) =>
                if (fs.nodes child).type = .dir then ramfsResolveLoop createDirs fs child next rest
                else ⟨fs, .error (-5), none, []⟩
          else ⟨fs, .error (-3), none, []⟩

/-- `ramfs_resolve`. -/
def ramfsResolve (fs : Ramfs) (path : CString) (createDirs : Bool) : RamfsResolution :=
  if path.head? ≠ some slash then ⟨fs, .error (-1), none, []⟩
  else
    match ramfsPathTokens path with
    | [] => ⟨fs, .ok fs.rootIndex, some fs.rootIndex, []⟩
    | tok :: rest => ramfsResolveLoop createDirs fs fs.rootIndex tok rest

/-! ## Operations -/

/-- `ramfs_alloc_bytes`. -/
def ramfsAllocBytes (fs : Ramfs) (len : Nat) : Option (Nat × Ramfs) :=
  if len = 0 then none
  else if ramfsMaxFileBytes < fs.filePoolUsed + len then none
  else some (fs.filePoolUsed, { fs with filePoolUsed := fs.filePoolUsed + len })

/-- `memcpy` into the file pool. -/
def ramfsPoolWrite (fs : Ramfs) (dst : Nat) (data : List UInt8) : Ramfs :=
  { fs with
    filePool := fun i =>
      if h : dst ≤ i ∧ i - dst < data.length then data.get ⟨i - dst, h.2⟩ else fs.filePool i }

/-- The mode and the owner a new node is given. -/
def ramfsStamp (fs : Ramfs) (node mode uid : Nat) : Ramfs :=
  fs.setNode node { fs.nodes node with mode := mode, uid := uid }

/-- `ramfs_op_mkdir`. -/
def ramfsOpMkdir (uid : Nat) (fs : Ramfs) (path : CString) (mode : Nat) : Int × Ramfs :=
  let r := ramfsResolve fs path true
  match r.node, r.parent with
  | .ok node, _ => if (r.fs.nodes node).type = .dir then (0, r.fs) else (-1, r.fs)
  | .error (-2), some parent =>
      match ramfsCreateChild r.fs parent r.leaf .dir with
      | .ok (created, fs) =>
          (0, ramfsStamp fs created (if mode = 0 then ramfsDefaultDirMode else mode) uid)
      | .error _ => (-2, r.fs)
  | .error _, _ => (-3, r.fs)

/-- The part of `ramfs_op_create_file` after the node is known: install `data` as
its content. -/
def ramfsStoreContent (fs : Ramfs) (node : Nat) (data : List UInt8) : Int × Ramfs :=
  let n := fs.nodes node
  if n.type ≠ .file then (-3, fs)
  else if data.length = 0 then
    (0, fs.setNode node { n with data := none, size := 0, capacity := 0 })
  else
    match (if data.length ≤ n.capacity then n.data.map (·, fs)
        else ramfsAllocBytes fs data.length) with
    | none => (-4, fs)
    | some (dst, fs) =>
        (0, (ramfsPoolWrite fs dst data).setNode node
          { n with data := some dst, size := data.length, capacity := data.length })

/-- `ramfs_op_create_file`. -/
def ramfsOpCreateFile (uid : Nat) (fs : Ramfs) (path : CString) (mode : Nat)
    (data : List UInt8) : Int × Ramfs :=
  let r := ramfsResolve fs path true
  match r.node, r.parent with
  | .ok node, _ => ramfsStoreContent r.fs node data
  | .error (-2), some parent =>
      match ramfsCreateChild r.fs parent r.leaf .file with
      | .ok (node, fs) =>
          ramfsStoreContent
            (ramfsStamp fs node (if mode = 0 then ramfsDefaultFileMode else mode) uid) node data
      | .error _ => (-1, r.fs)
  | .error _, _ => (-2, r.fs)

/-- `ramfs_op_write_file`. -/
def ramfsOpWriteFile (uid : Nat) (fs : Ramfs) (path : CString) (data : List UInt8) : Int × Ramfs :=
  ramfsOpCreateFile uid fs path 0 data

/-- The bytes of a file node. -/
def ramfsContent (fs : Ramfs) (n : RamfsNode) : List UInt8 :=
  match n.data with
  | some off => (List.range n.size).map fun i => fs.filePool (off + i)
  | none => []

/-- `ramfs_op_read_file`. -/
def ramfsOpReadFile (fs : Ramfs) (path : CString) (outCap : Option Nat) : ReadOutcome :=
  match (ramfsResolve fs path false).node with
  | .error _ => ⟨-1, none, []⟩
  | .ok node =>
      let n := fs.nodes node
      if n.type ≠ .file then ⟨-2, none, []⟩
      else
        match outCap with
        | none => ⟨0, some n.size, []⟩
        | some cap =>
            if cap < n.size then ⟨-3, some n.size, []⟩
            else ⟨0, some n.size, ramfsContent fs n⟩

/-- The directory entry `ramfs_op_list_dir` stores for a child. -/
def ramfsDirent (n : RamfsNode) : VfsDirent :=
  ⟨ramfsCopyName n.name, n.type = .dir, n.size⟩

/-- `ramfs_op_list_dir`. -/
def ramfsOpListDir (fs : Ramfs) (path : CString) (out : Bool) (maxEntries : Nat) : ListOutcome :=
  match (ramfsResolve fs path false).node with
  | .error _ => ⟨-1, none, []⟩
  | .ok node =>
      let dir := fs.nodes node
      if dir.type ≠ .dir then ⟨-2, none, []⟩
      else if out then
        ⟨0, some dir.childCount,
          (dir.entries.take maxEntries).map fun c => ramfsDirent (fs.nodes c)⟩
      else ⟨0, some dir.childCount, []⟩

/-- `ramfs_op_exists`. -/
def ramfsOpExists (fs : Ramfs) (path : CString) : Int :=
  match (ramfsResolve fs path false).node with
  | .ok _ => 1
  | .error _ => 0

/-- `ramfs_detach_child`. -/
def ramfsDetachChild (fs : Ramfs) (parent child : Nat) : Option Ramfs :=
  ((fs.nodes parent).entries.findIdx? (· == child)).map fun idx =>
    fs.setNode parent ((fs.nodes parent).dropChild idx)

/-- `ramfs_op_remove`. -/
def ramfsOpRemove (fs : Ramfs) (path : CString) : Int × Ramfs :=
  if path.head? ≠ some slash ∨ path.length = 1 then (-1, fs)
  else
    let r := ramfsResolve fs path false
    match r.node, r.parent with
    | .ok node, some parent =>
        if (fs.nodes node).type = .dir ∧ (fs.nodes node).childCount ≠ 0 then (-1, fs)
        else
          match ramfsDetachChild fs parent node with
          | none => (-1, fs)
          | some fs => (0, fs.setNode node .zero)
    | _, _ => (-1, fs)

/-- `ramfs_op_rename`. -/
def ramfsOpRename (fs : Ramfs) (oldPath newPath : CString) : Int × Ramfs :=
  if oldPath.head? ≠ some slash ∨ newPath.head? ≠ some slash then (-1, fs)
  else if oldPath.length = 1 ∨ newPath.length = 1 then (-1, fs)
  else
    let old := ramfsResolve fs oldPath false
    let new := ramfsResolve fs newPath false
    match old.node, old.parent, new.parent, new.node with
    | .ok node, some oldParent, some newParent, .error _ =>
        if oldParent ≠ newParent then
          match ramfsDetachChild fs oldParent node with
          | none => (-1, fs)
          | some fs =>
              let np := fs.nodes newParent
              if ramfsMaxChildren ≤ np.childCount then (-1, fs)
              else
                let fs := fs.setNode newParent (np.addChild node)
                (0, fs.setNode node
                  { fs.nodes node with parent := newParent, name := ramfsCopyName new.leaf })
        else (0, fs.setNode node { fs.nodes node with name := ramfsCopyName new.leaf })
    | _, _, _, _ => (-1, fs)

/-- `ramfs_init`. -/
def ramfsInit : Ramfs :=
  let empty : Ramfs := ⟨fun _ => .zero, fun _ => 0, 0, 0⟩
  empty.setNode 0 { RamfsNode.zero with used := true, type := .dir, parent := 0, name := [slash] }

/-- `g_ramfs_ops`, for a caller with the given uid. -/
def ramfsBackendOps (uid : Nat) : VfsBackendOps Ramfs where
  mkdir := some (ramfsOpMkdir uid)
  createFile := some (ramfsOpCreateFile uid)
  writeFile := some (ramfsOpWriteFile uid)
  readFile := some ramfsOpReadFile
  listDir := some ramfsOpListDir
  exists_ := some ramfsOpExists
  remove := some ramfsOpRemove
  rename := some ramfsOpRename

end NTux.Fs
