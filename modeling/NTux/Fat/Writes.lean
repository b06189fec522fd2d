import NTux.Fat.Payload
import NTux.Lib.Logged
import Mathlib.Data.List.DropRight

/-!
# Removing and overwriting on the partition

`fat_op_remove` and `fat_op_write_file` of `fs/fat.c` down to the sectors they store.  A function
that fails leaves what it has stored so far, and its caller may go on; every sector that is
stored and every cluster that is allocated is logged.
-/

namespace NTux.Fat.Disk

open NTux.Fs NTux.Lib NTux.Lib.Bytes NTux.Lib.Logged

/-- What is logged. -/
inductive FatEvent
  | stored (sector : Nat)
  | allocated (cluster : Nat)
  deriving DecidableEq

/-- A function fails, or its loop does not end. -/
inductive Fault
  | failed
  | endless
  deriving DecidableEq

/-- A function that writes to the partition. -/
abbrev Writing := Logged FatState FatEvent Fault

/-- The outcome of a function that only reads. -/
def orFailed {α : Type} : Option α → Except Fault α
  | none => .error .failed
  | some a => .ok a

/-! ## Sectors -/

/-- `fat_read_sector`. -/
def readSector (sector : Nat) : Writing Bytes :=
  query fun st => orFailed (fatReadSector st.vol sector)

/-- `fat_write_sector`. -/
def writeSector (sector : Nat) (buf : Bytes) : Writing Unit := fun st =>
  match fatWriteSector st.vol sector buf with
  | none => ⟨.error .failed, st, []⟩
  | some v => ⟨.ok (), ⟨v, st.nextFree⟩, [.stored sector]⟩

/-- The sectors of a run are written with the pieces of the bytes, and with zeroes behind
them. -/
def storeSectors : List Nat → List UInt8 → Writing Unit
  | [], _ => pure ()
  | sector :: rest, bytes => do
      writeSector sector fun i => bytes.getD i 0
      storeSectors rest (bytes.drop ataSectorSize)

/-- `fat_write_entry_at`, of the 32 bytes of an entry. -/
def writeEntryAt (place : Nat × Nat) (raw : Bytes) : Writing Unit := do
  let sec ← readSector place.1
  writeSector place.1 (splice sec place.2 dirEntrySize raw)

/-! ## The table -/

/-- The sectors of an entry in a copy, as the code computes them: a second one where an entry of
FAT12 starts in the last byte of the first. -/
def entrySectors (fs : FatFs) (fi cluster : Nat) : List Nat :=
  let fatOffset := u32 (fs.type.offset cluster)
  let sector := u32 (u32 (fs.firstFatSector + u32 (fi * fs.sectorsPerFat)) +
    fatOffset / fs.bytesPerSector)
  if fs.type = .fat12 ∧ fatOffset % fs.bytesPerSector = fs.bytesPerSector - 1 then
    [sector, u32 (sector + 1)]
  else [sector]

/-- The body of the loop of `fat_write_fat_entry`. -/
def writeCopy (fs : FatFs) (cluster value fi : Nat) : Writing Unit := fun st =>
  match fatWriteCopy fs st.vol fi cluster value with
  | none => ⟨.error .failed, st, []⟩
  | some v => ⟨.ok (), ⟨v, st.nextFree⟩, (entrySectors fs fi cluster).map .stored⟩

/-- Its loop. -/
def writeCopies (fs : FatFs) (cluster value : Nat) : List Nat → Writing Unit
  | [] => pure ()
  | fi :: rest => do
      writeCopy fs cluster value fi
      writeCopies fs cluster value rest

/-- `fat_write_fat_entry`. -/
def writeFatEntry (fs : FatFs) (cluster value : Nat) : Writing Unit :=
  writeCopies fs cluster value (List.range fs.fatCount)

/-- The loop of `fat_free_chain`. -/
def freeLoop (fs : FatFs) : Nat → Nat → Writing Unit
  | 0, _ => fail .endless
  | fuel + 1, c =>
      if c < 2 then pure ()
      else do
        let next ← query fun st => orFailed (fatReadFatEntry fs st.vol c)
        writeFatEntry fs c 0
        if fatIsEoc fs next then pure ()
        else if next < 2 ∨ fatMaxValidCluster fs < next then pure ()
        else freeLoop fs fuel next

/-- `fat_free_chain`. -/
def freeChain (fs : FatFs) (first : Nat) : Writing Unit :=
  freeLoop fs (fatMaxValidCluster fs + 2) first

/-- `(void)` before a call. -/
def ignored {α : Type} (x : Writing α) : Writing Unit :=
  andThen x fun
    | .error .endless => fail .endless
    | _ => pure ()

/-- Where `x` fails, `undo` is called and the failure is handed on. -/
def undoing {α : Type} (x : Writing α) (undo : Writing Unit) : Writing α :=
  andThen x fun
    | .ok a => pure a
    | .error .endless => fail .endless
    | .error .failed => do
        ignored undo
        fail .failed

/-- The cluster is handed out, and the search for the next one starts behind it. -/
def handOut (fs : FatFs) (c : Nat) : Writing Nat := fun st =>
  ⟨.ok c, ⟨st.vol, if c + 1 ≤ fatMaxValidCluster fs then c + 1 else 2⟩, [.allocated c]⟩

/-- `fat_alloc_cluster` of a cluster that is not zeroed. -/
def allocCluster (fs : FatFs) : Writing Nat :=
  let maxCluster := fatMaxValidCluster fs
  if maxCluster < 2 then fail .failed
  else do
    let c ← query fun st =>
      orFailed (findFree fs st.vol (allocOrder (allocStart maxCluster st.nextFree) maxCluster))
    writeFatEntry fs c (fatEocValue fs)
    handOut fs c

/-! ## The bytes of a file -/

/-- The entry of the last cluster of the chain, if there is one, gets a value. -/
def linkTo (fs : FatFs) (allocated : List Nat) (value : Nat) : Writing Unit :=
  let prev := allocated.getLastD 0
  if 2 ≤ prev then undoing (writeFatEntry fs prev value) (freeChain fs (allocated.headD 0))
  else pure ()

/-- The loop of `fat_write_file_payload` that allocates, with the clusters allocated so far. -/
def linkLoop (fs : FatFs) : Nat → List Nat → Writing (List Nat)
  | 0, allocated => pure allocated
  | n + 1, allocated => do
      let c ← undoing (allocCluster fs) (freeChain fs (allocated.headD 0))
      linkTo fs allocated c
      linkLoop fs n (allocated ++ [c])

/-- The loop that writes the bytes. -/
def storeClusters (fs : FatFs) : List Nat → List UInt8 → Writing Unit
  | [], _ => pure ()
  | c :: rest, data => do
      storeSectors (clusterSectors fs c) (data.take (perCluster fs))
      storeClusters fs rest (data.drop (perCluster fs))

/-- `fat_write_file_payload`; `array` says whether the array of the clusters is got from
`kmalloc`. -/
def writeFilePayload (fs : FatFs) (array : Bool) (data : List UInt8) : Writing Nat :=
  if data.length = 0 then pure 0
  else if !array then fail .failed
  else do
    let allocated ← linkLoop fs (clustersNeeded fs data.length) []
    let first := allocated.headD 0
    linkTo fs allocated (fatEocValue fs)
    undoing (storeClusters fs allocated data) (freeChain fs first)
    pure first

/-! ## The operations -/

/-- The chain of an entry is freed if it has one. -/
def freeEntry (fs : FatFs) (e : FatDirEntry) : Writing Unit :=
  if 2 ≤ e.cluster.toNat then freeChain fs e.cluster.toNat else pure ()

/-- `fat_split_parent_leaf`. -/
def fatSplitParentLeaf (path : CString) : Option (CString × CString) :=
  if path.head? ≠ some slash then none
  else
    let leaf := path.rtakeWhile (· ≠ slash)
    let parent := path.take (path.length - leaf.length - 1)
    if leaf = [] ∨ vfsMaxName < leaf.length + 1 then none
    else if parent = [] then some ([slash], leaf)
    else if vfsMaxPath < parent.length + 1 then none
    else some (parent, leaf)

/-- `fat_resolve_parent_dir`. -/
def fatResolveParentDir (fs : FatFs) (v : FatVolume) (parent : CString) : Option Nat :=
  if parent = [slash] then some 0
  else
    match fatResolvePath fs v parent with
    | .error _ => none
    | .ok e => if e.attr &&& attrDir = 0 then none else some e.cluster.toNat

/-- The directory that a path leads to, and the last name. -/
def fatParentOf (fs : FatFs) (v : FatVolume) (path : CString) : Option (Nat × CString) :=
  (fatSplitParentLeaf path).bind fun (parent, leaf) =>
    (fatResolveParentDir fs v parent).map fun dir => (dir, leaf)

/-- What `fat_dir_find_entry` finds there. -/
def fatEntryOf (fs : FatFs) (v : FatVolume) (dir : Nat) (leaf : CString) :
    Option (FatDirEntry × Nat × Nat) :=
  match fatDirFindEntry fs v dir leaf with
  | (rc, found) => if rc = 0 then found else none

/-- `fat_dir_is_empty`. -/
def fatDirIsEmpty (fs : FatFs) (v : FatVolume) (dirCluster : Nat) : Bool :=
  match fatIterateDir fs v dirCluster fatNonDotVisitor false with
  | (rc, foundNonDot) => if rc < 0 then false else !foundNonDot

/-- `fat_op_remove`. -/
def fatOpRemove (fs : FatFs) (path : CString) : Writing Unit :=
  if path.head? ≠ some slash ∨ path = [slash] then fail .failed
  else do
    let (dir, leaf) ← query fun st => orFailed (fatParentOf fs st.vol path)
    let (e, place) ← query fun st => orFailed (fatEntryOf fs st.vol dir leaf)
    let occupied ← query fun st => .ok (e.attr &&& attrDir ≠ 0 ∧ 2 ≤ e.cluster.toNat ∧
      fatDirIsEmpty fs st.vol e.cluster.toNat = false : Bool)
    if occupied then fail .failed
    else do
      freeEntry fs e
      let sec ← readSector place.1
      writeSector place.1 (Function.update sec place.2 0xE5)

/-- The 32 bytes of an entry with another first cluster and another size. -/
def withCluster (raw : Bytes) (first size : Nat) : Bytes :=
  wr32 (wr16 (wr16 raw 20 (first / 65536)) 26 (first % 65536)) 28 (u32 size)

/-- `fat_op_write_file`; `create` is the call of `fat_create_entry`, of a file that is not yet
there. -/
def fatOpWriteFile (fs : FatFs) (path : CString) (array : Bool) (data : List UInt8)
    (create : Writing Unit) : Writing Unit := do
  let (dir, leaf) ← query fun st => orFailed (fatParentOf fs st.vol path)
  let found ← query fun st => .ok ((fatEntryOf fs st.vol dir leaf).map fun (e, place) =>
    (e, place, fun i => st.vol.sectors place.1 (place.2 + i)))
  match found with
  | none => create
  | some (e, place, raw) =>
      if e.attr &&& attrDir ≠ 0 then fail .failed
      else do
        ignored (freeEntry fs e)
        let first ← writeFilePayload fs array data
        writeEntryAt place (withCluster raw first data.length)

end NTux.Fat.Disk
