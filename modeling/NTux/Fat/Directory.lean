import NTux.Fat.Names

/-!
# The directories of a FAT volume

A directory is its sectors of sixteen slots each, in the order the chain of its clusters
(or the fixed root directory) gives them.  `fat_dir_find_entry` and `fat_iterate_dir` walk
over all of them up to the first unused slot; `fat_dir_find_free_slots` looks for a run of
free slots inside one sector.

The data clusters of the files are not part of the state: what `fat_alloc_cluster` and
`fat_write_file_payload` come to (the first cluster, or a failure) is an argument, as are
the sectors of a cluster the directory grows by.  The drive itself does not fail.
-/

namespace NTux.Fat

open NTux.Fs

/-- A slot: never used (`0x00`), deleted (`0xE5`), a part of a long name, or an entry. -/
inductive Slot
  | unused
  | deleted
  | lfn (e : FatLfnEntry)
  | entry (e : FatDirEntry)
  deriving DecidableEq

/-- The slots of one sector, and a directory. -/
abbrev Sector := List Slot

/-- The sectors of a directory in order. -/
abbrev Dir := List Sector

/-- The slots of a sector. -/
def slotsPerSector : Nat := 16

/-- A sector of zeroes. -/
def emptySector : Sector := List.replicate slotsPerSector .unused

/-! ## Walking -/

/-- An entry the walk comes by: its place, its name, whether that is the long one, and the
entry. -/
structure Found where
  index : Nat
  name : CString
  long : Bool
  entry : FatDirEntry
  deriving DecidableEq

/-- `fat_entry_to_name`: the name, and whether it is the long one. -/
def fatEntryToName (e : FatDirEntry) (a : LfnAccum) : CString × Bool :=
  if fatLfnComplete a then (a.text, true) else (fatSfnToName e.name, false)

/-- The walk of `fat_iterate_dir` and `fat_dir_find_entry` over the slots from `i` on. -/
def scan (a : LfnAccum) (i : Nat) : List Slot → List Found
  | [] => []
  | .unused :: _ => []
  | .deleted :: rest => scan lfnReset (i + 1) rest
  | .lfn e :: rest => scan (fatLfnPush a e) (i + 1) rest
  | .entry e :: rest =>
      if e.attr &&& attrVolumeId ≠ 0 then scan lfnReset (i + 1) rest
      else
        ⟨i, (fatEntryToName e a).1, (fatEntryToName e a).2, e⟩ :: scan lfnReset (i + 1) rest

/-- The entries of a directory. -/
def entries (dir : Dir) : List Found := scan lfnReset 0 dir.flatten

/-- The first of the entries that answers to the name. -/
def firstNamed (name : CString) (found : List Found) : Option Found :=
  found.find? fun f => fatNameEquals f.name name

/-- `fat_dir_find_entry`. -/
def fatDirFindEntry (dir : Dir) (name : CString) : Option Found := firstNamed name (entries dir)

/-! ## Free slots -/

/-- A slot whose first byte is `0x00` or `0xE5`. -/
def Slot.free : Slot → Bool
  | .unused | .deleted => true
  | .lfn _ | .entry _ => false

/-- The search of one sector, from the slot `off` on, after a run of `run` free slots. -/
def freeRun (count : Nat) : Nat → Nat → List Slot → Option Nat
  | _, _, [] => none
  | off, run, s :: rest =>
      if s.free then
        if count ≤ run + 1 then some (off - run) else freeRun count (off + 1) (run + 1) rest
      else freeRun count (off + 1) 0 rest

/-- The search of the sectors, the first of which is number `i`. -/
def freeSector (count : Nat) : Nat → Dir → Option (Nat × Nat)
  | _, [] => none
  | i, sector :: rest =>
      match freeRun count 0 0 sector with
      | some off => some (i, off)
      | none => freeSector count (i + 1) rest

/-- `fat_dir_find_free_slots`: the directory, which may have grown, and the place.  `growth`
is the number of sectors of a new cluster, where one can be allocated and the directory
may grow. -/
def fatDirFindFreeSlots (dir : Dir) (count : Nat) (growth : Option Nat) :
    Option (Dir × Nat × Nat) :=
  if count = 0 ∨ slotsPerSector < count then none
  else match freeSector count 0 dir with
  | some place => some (dir, place)
  | none =>
      growth.map fun n => (dir ++ List.replicate (n + 1) emptySector, dir.length, 0)

/-- The slots from `off` on are overwritten. -/
def writeSlots (off : Nat) (slots : List Slot) (sector : Sector) : Sector :=
  sector.take off ++ slots ++ sector.drop (off + slots.length)

/-- `fat_write_entries_at`, within one sector. -/
def fatWriteEntriesAt (dir : Dir) (place : Nat × Nat) (slots : List Slot) : Dir :=
  dir.modify place.1 (writeSlots place.2 slots)

/-- `fat_write_entry_at`, at a slot counted over all sectors. -/
def fatWriteEntryAt (dir : Dir) (index : Nat) (slot : Slot) : Dir :=
  dir.modify (index / slotsPerSector) (writeSlots (index % slotsPerSector) [slot])

/-! ## The operations -/

/-- What the entry of a new file or directory gets: its first cluster and its size. -/
structure Payload where
  cluster : UInt32
  size : UInt32
  deriving DecidableEq

/-- `fat_create_entry` in the directory of its parent: the directory afterwards, and whether
it succeeds.  `payload` is `none` where `fat_write_file_payload` or `fat_alloc_cluster`
fails. -/
def fatCreateEntry (dir : Dir) (leaf : CString) (attr : UInt8) (payload : Option Payload)
    (growth : Option Nat) : Dir × Bool :=
  if (fatDirFindEntry dir leaf).isSome then (dir, false)
  else match fatMakeSfn leaf with
  | none => (dir, false)
  | some sfn =>
      let count := fatLfnEntryCountForName leaf
      match fatDirFindFreeSlots dir (count + 1) growth with
      | none => (dir, false)
      | some (grown, place) =>
          match payload with
          | none => (grown, false)
          | some p =>
              if 8 < count then (grown, false)
              else
                let slots := (lfnEntries sfn leaf).map Slot.lfn ++
                  [.entry ⟨sfn, attr, p.cluster, p.size⟩]
                (fatWriteEntriesAt grown place slots, true)

/-- `fat_op_write_file` in the directory of its parent. -/
def fatWriteFile (dir : Dir) (leaf : CString) (payload : Option Payload) (growth : Option Nat) :
    Dir × Bool :=
  match fatDirFindEntry dir leaf with
  | none => fatCreateEntry dir leaf 0 payload growth
  | some f =>
      if f.entry.attr &&& attrDir ≠ 0 then (dir, false)
      else match payload with
      | none => (dir, false)
      | some p =>
          (fatWriteEntryAt dir f.index
            (.entry { f.entry with cluster := p.cluster, size := p.size }), true)

/-- `fat_op_remove` in the directory of its parent; `removable` is whether a directory is
empty and the chain could be freed. -/
def fatRemove (dir : Dir) (leaf : CString) (removable : Bool) : Dir × Bool :=
  match fatDirFindEntry dir leaf with
  | none => (dir, false)
  | some f =>
      if removable then (fatWriteEntryAt dir f.index .deleted, true) else (dir, false)

/-- `fat_op_rename` in the directory of both parents: the eleven bytes of the entry are
replaced, the parts of its long name stay. -/
def fatRename (dir : Dir) (oldLeaf newLeaf : CString) : Dir × Bool :=
  match fatDirFindEntry dir oldLeaf with
  | none => (dir, false)
  | some f =>
      if (fatDirFindEntry dir newLeaf).isSome then (dir, false)
      else match fatMakeSfn newLeaf with
      | none => (dir, false)
      | some sfn => (fatWriteEntryAt dir f.index (.entry { f.entry with name := sfn }), true)

/-- A call on a directory, with what the rest of the volume answers. -/
inductive DirAction
  | create (leaf : CString) (attr : UInt8) (payload : Option Payload) (growth : Option Nat)
  | write (leaf : CString) (payload : Option Payload) (growth : Option Nat)
  | remove (leaf : CString) (removable : Bool)
  | rename (oldLeaf newLeaf : CString)

/-- The call: the directory afterwards, and whether it succeeds. -/
def dirCall (dir : Dir) : DirAction → Dir × Bool
  | .create leaf attr payload growth => fatCreateEntry dir leaf attr payload growth
  | .write leaf payload growth => fatWriteFile dir leaf payload growth
  | .remove leaf removable => fatRemove dir leaf removable
  | .rename oldLeaf newLeaf => fatRename dir oldLeaf newLeaf

/-- The directory after the call. -/
def dirStep (dir : Dir) (a : DirAction) : Dir := (dirCall dir a).1

/-- The root directory of a fresh format, of `n` sectors. -/
def freshRoot (n : Nat) : Dir := List.replicate n emptySector

/-- The eleven bytes of `.` and `..`. -/
def dotName (n : Nat) : List UInt8 := padTo 11 (List.replicate n dot)

/-- The first sector of a new directory, as `fat_create_entry` fills it, and the other `n`
sectors of its cluster. -/
def freshSubdir (self parent : UInt32) (n : Nat) : Dir :=
  ([.entry ⟨dotName 1, attrDir, self, 0⟩, .entry ⟨dotName 2, attrDir, parent, 0⟩] ++
    List.replicate (slotsPerSector - 2) .unused) :: List.replicate n emptySector

/-- A new directory: the root of a fresh volume, or one just made. -/
def Fresh (dir : Dir) : Prop :=
  (∃ n, dir = freshRoot n) ∨ ∃ self parent n, dir = freshSubdir self parent n

end NTux.Fat
