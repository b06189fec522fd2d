import NTux.Fat.Directory
import NTux.Fat.Table
import NTux.Fs.PathComponents
import NTux.Lib.ChainWalk

/-!
# The walks along the cluster chains

The loops of `fs/fat.c` that follow a chain on the partition: `fat_iterate_dir`,
`fat_dir_find_entry` and `fat_dir_find_free_slots` over the slots of a directory, and
`fat_read_file_data` and `fat_read_file_range_data` over the bytes of a file.  All of them
count a guard down from `cluster_count + 2` with `guard-- > 0`, which leaves `UINT32_MAX` in
it once it has run out (`guardLeft`), and ask afterwards whether it is 0.

Allocation is here too, since a search for free slots may append a cluster.
-/

namespace NTux.Fat.Disk

open NTux.Fs NTux.Lib NTux.Lib.Bytes NTux.Lib.ChainWalk

/-- `fat_fs_t` as far as it changes: the partition, and `next_free_cluster`. -/
structure FatState where
  vol : FatVolume
  nextFree : Nat

/-- `fat_is_eoc`. -/
def fatIsEoc (fs : FatFs) (value : Nat) : Bool :=
  match fs.type with
  | .fat12 => 0x0FF8 ≤ value
  | .fat16 => 0xFFF8 ≤ value
  | .fat32 => 0x0FFFFFF8 ≤ value

/-- `fat_eoc_value`. -/
def fatEocValue (fs : FatFs) : Nat :=
  match fs.type with
  | .fat12 => 0x0FFF
  | .fat16 => 0xFFFF
  | .fat32 => 0x0FFFFFFF

/-- `fat_max_valid_cluster`. -/
def fatMaxValidCluster (fs : FatFs) : Nat :=
  if fatFatEntryCount fs ≤ 2 then 1
  else min (u32 (fs.clusterCount + 1)) (fatFatEntryCount fs - 1)

/-! ## Following a chain -/

/-- Where a cluster leads: a link to itself is taken for an error. -/
def fatLink (fs : FatFs) (v : FatVolume) (cluster : Nat) : Link :=
  match fatReadFatEntry fs v cluster with
  | none => .broken
  | some next => if fatIsEoc fs next then .stop else if next = cluster then .broken else .to next

/-- What `guard-- > 0` has left in the guard. -/
def guardLeft : Option Nat → Nat
  | some g => g
  | none => 4294967295

/-- The guard of the walks. -/
def guardOf (fs : FatFs) : Nat := u32 (fs.clusterCount + 2)

/-- The sectors of a cluster. -/
def clusterSectors (fs : FatFs) (cluster : Nat) : List Nat :=
  (List.range fs.sectorsPerCluster).map fun s => u32 (fatClusterToSector fs cluster + s)

section Sectors

variable {σ ρ : Type}

/-- Sectors are read and visited one after another; `failed` is the result where one cannot
be read. -/
def visitSectors (v : FatVolume) (failed : σ → ρ) (f : Nat → Bytes → σ → Visit σ ρ) :
    List Nat → σ → Visit σ ρ
  | [], s => .next s
  | sector :: rest, s =>
      match fatReadSector v sector with
      | none => .done (failed s)
      | some buf =>
          match f sector buf s with
          | .done r => .done r
          | .next s => visitSectors v failed f rest s

/-- A walk over the clusters of a chain: `outside` is the result at a cluster that is none. -/
def clusterWalker (fs : FatFs) (v : FatVolume) (outside unread broken : σ → ρ)
    (f : Nat → Bytes → σ → Visit σ ρ) : Walker σ ρ where
  ends c := c < 2
  visit c s :=
    if fs.clusterCount + 1 < c then .done (outside s)
    else visitSectors v unread f (clusterSectors fs c) s
  link := fatLink fs v
  fail := broken

/-- The walk goes on at the numbers from 2 on. -/
theorem clusterWalker_ends {fs : FatFs} {v : FatVolume} {outside unread broken : σ → ρ}
    {f : Nat → Bytes → σ → Visit σ ρ} {c : Nat} :
    (clusterWalker fs v outside unread broken f).ends c = false ↔ 2 ≤ c :=
  decide_eq_false_iff_not.trans Nat.not_lt

end Sectors

/-! ## Directories -/

/-- `FAT_ATTR_LFN`. -/
def attrLfn : UInt8 := 0x0F

/-- `sizeof(fat_dir_entry_t)`. -/
def dirEntrySize : Nat := 32

/-- The characters of a long name part: `name1`, `name2` and `name3`. -/
def lfnCharsAt (buf : Bytes) (off : Nat) : List UInt16 :=
  (List.range lfnChars).map fun i => UInt16.ofNat (rd16 buf
    (if i < 5 then off + 1 + 2 * i else if i < 11 then off + 14 + 2 * (i - 5)
      else off + 28 + 2 * (i - 11)))

/-- The slot at an offset of a sector. -/
def slotAt (buf : Bytes) (off : Nat) : Slot :=
  if buf off = 0 then .unused
  else if buf off = 0xE5 then .deleted
  else if buf (off + 11) = attrLfn then .lfn ⟨buf off, buf (off + 13), lfnCharsAt buf off⟩
  else .entry ⟨(List.range 11).map fun i => buf (off + i), buf (off + 11),
    UInt32.ofNat (65536 * rd16 buf (off + 20) + rd16 buf (off + 26)),
    UInt32.ofNat (rd32 buf (off + 28))⟩

/-- The slots of a sector. -/
def sectorSlots (buf : Bytes) : Sector :=
  (List.range slotsPerSector).map fun i => slotAt buf (dirEntrySize * i)

section Walk

variable {σ : Type}

/-- What a walk does at an entry: its sector and offset, the entry and its name are given; a
code ends the walk. -/
abbrev Visitor (σ : Type) := Nat × Nat → FatDirEntry → CString → σ → σ × Option Int

/-- The slots of a sector from `off` on; `atEnd` is the code at a slot that was never used. -/
def visitSlots (atEnd : Int) (visit : Visitor σ) (sector : Nat) :
    Nat → List Slot → LfnAccum × σ → Visit (LfnAccum × σ) (Int × σ)
  | _, [], s => .next s
  | _, .unused :: _, (_, u) => .done (atEnd, u)
  | off, .deleted :: rest, (_, u) =>
      visitSlots atEnd visit sector (off + dirEntrySize) rest (lfnReset, u)
  | off, .lfn e :: rest, (a, u) =>
      visitSlots atEnd visit sector (off + dirEntrySize) rest (fatLfnPush a e, u)
  | off, .entry e :: rest, (a, u) =>
      if e.attr &&& attrVolumeId ≠ 0 then
        visitSlots atEnd visit sector (off + dirEntrySize) rest (lfnReset, u)
      else
        match visit (sector, off) e (fatEntryToName e a).1 u with
        | (u, some rc) => .done (rc, u)
        | (u, none) => visitSlots atEnd visit sector (off + dirEntrySize) rest (lfnReset, u)

/-- The first cluster of a directory. -/
def dirStart (fs : FatFs) (dirCluster : Nat) : Nat :=
  if fs.type = .fat32 ∧ dirCluster = 0 then fs.rootCluster else dirCluster

/-- The sectors of the fixed root directory. -/
def rootSectors (fs : FatFs) : List Nat :=
  (List.range fs.rootDirSectors).map fun s => u32 (fs.firstRootDirSector + s)

/-- The visits of a sector of a directory. -/
def dirSector (atEnd : Int) (visit : Visitor σ) (sector : Nat) (buf : Bytes)
    (s : LfnAccum × σ) : Visit (LfnAccum × σ) (Int × σ) :=
  visitSlots atEnd visit sector 0 (sectorSlots buf) s

/-- The walker of a directory. -/
def dirWalker (fs : FatFs) (v : FatVolume) (atEnd : Int) (visit : Visitor σ) :
    Walker (LfnAccum × σ) (Int × σ) :=
  clusterWalker fs v (fun s => (-1, s.2)) (fun s => (-1, s.2)) (fun s => (-1, s.2))
    (dirSector atEnd visit)

/-- The loops of `fat_iterate_dir` and `fat_dir_find_entry`, which differ in the code `atEnd`
at the end of the directory. -/
def walkDir (fs : FatFs) (v : FatVolume) (dirCluster : Nat) (atEnd : Int) (visit : Visitor σ)
    (u : σ) : Int × σ :=
  if fs.type ≠ .fat32 ∧ dirCluster = 0 then
    match visitSectors v (fun s => ((-1 : Int), s.2)) (dirSector atEnd visit) (rootSectors fs)
        (lfnReset, u) with
    | .done r => r
    | .next s => (atEnd, s.2)
  else
    match walk (dirWalker fs v atEnd visit) (guardOf fs) (dirStart fs dirCluster) (lfnReset, u) with
    | .done r => r
    | .left s cluster guard =>
        if 2 ≤ cluster ∧ guardLeft guard = 0 then (-1, s.2) else (atEnd, s.2)

/-- A visitor of `fat_iterate_dir`: the walk ends with every code but 0. -/
def untilNonzero (visitor : FatDirEntry → CString → σ → σ × Int) : Visitor σ :=
  fun _ e name u =>
    let (u, rc) := visitor e name u
    (u, if rc ≠ 0 then some rc else none)

/-- `fat_iterate_dir`. -/
def fatIterateDir (fs : FatFs) (v : FatVolume) (dirCluster : Nat)
    (visitor : FatDirEntry → CString → σ → σ × Int) (u : σ) : Int × σ :=
  walkDir fs v dirCluster 0 (untilNonzero visitor) u

end Walk

/-- `fat_find_visitor`. -/
def fatFindVisitor (name : CString) (e : FatDirEntry) (stored : CString)
    (found : Option FatDirEntry) : Option FatDirEntry × Int :=
  if fatNameEquals stored name then (some e, 1) else (found, 0)

/-- `fat_non_dot_visitor`. -/
def fatNonDotVisitor (_ : FatDirEntry) (name : CString) (foundNonDot : Bool) : Bool × Int :=
  if name = [dot] ∨ name = [dot, dot] then (foundNonDot, 0) else (true, 1)

/-- `fat_dir_find_entry`: the code, and the entry with its place. -/
def fatDirFindEntry (fs : FatFs) (v : FatVolume) (dirCluster : Nat) (name : CString) :
    Int × Option (FatDirEntry × Nat × Nat) :=
  walkDir fs v dirCluster (-2) (fun place e stored found =>
    if fatNameEquals stored name then (some (e, place), some 0) else (found, none)) none

/-- The entry of the root directory. -/
def rootEntry : FatDirEntry := ⟨List.replicate 11 0, attrDir, 0, 0⟩

/-- `fat_resolve_path` behind the checks of the path. -/
def fatResolveTokens (fs : FatFs) (v : FatVolume) (dirCluster : Nat) :
    List CString → Except Int FatDirEntry
  | [] => .error (-4)
  | token :: rest =>
      match fatIterateDir fs v dirCluster (fatFindVisitor token) none with
      | (rc, found) =>
          if rc < 0 then .error (-2)
          else
            match found with
            | none => .error (-2)
            | some e =>
                if rest = [] then .ok e
                else if e.attr &&& attrDir = 0 then .error (-3)
                else fatResolveTokens fs v e.cluster.toNat rest

/-- `fat_resolve_path`. -/
def fatResolvePath (fs : FatFs) (v : FatVolume) (path : CString) : Except Int FatDirEntry :=
  if path.head? ≠ some slash then .error (-1)
  else if path = [slash] then .ok rootEntry
  else fatResolveTokens fs v 0 (fatPathTokens path)

/-! ## Files -/

/-- The bytes of a sector. -/
def sectorBytes (buf : Bytes) : List UInt8 := (List.range ataSectorSize).map buf

/-- What of a file is still to be read, and what has been read. -/
structure FileReading where
  remaining : Nat
  out : List UInt8

/-- The body of the loop of `fat_read_file_data` over the sectors, and the test for
`remaining == 0` behind it. -/
def fileSector (_ : Nat) (buf : Bytes) (r : FileReading) : Visit FileReading (Int × List UInt8) :=
  let take := min r.remaining ataSectorSize
  let out := r.out ++ (sectorBytes buf).take take
  if r.remaining - take = 0 then .done (0, out) else .next ⟨r.remaining - take, out⟩

/-- The walker of a file. -/
def fileWalker (fs : FatFs) (v : FatVolume) : Walker FileReading (Int × List UInt8) :=
  clusterWalker fs v (fun r => (-4, r.out)) (fun r => (-2, r.out)) (fun r => (-3, r.out))
    fileSector

/-- `fat_read_file_data` into a buffer of `outCap` bytes: the code, and the bytes stored. -/
def fatReadFileData (fs : FatFs) (v : FatVolume) (entry : FatDirEntry) (outCap : Nat) :
    Int × List UInt8 :=
  if outCap < entry.size.toNat then (-1, [])
  else if entry.size.toNat = 0 then (0, [])
  else
    match walk (fileWalker fs v) (guardOf fs) entry.cluster.toNat ⟨entry.size.toNat, []⟩ with
    | .done r => r
    | .left r _ _ => (-4, r.out)

/-- What of a range is still to be skipped and to be read, and what has been read. -/
structure RangeReading where
  skip : Nat
  remaining : Nat
  out : List UInt8

/-- The body of the loop of `fat_read_file_range_data` over the sectors, and the test behind
it. -/
def rangeSector (_ : Nat) (buf : Bytes) (r : RangeReading) :
    Visit RangeReading (Int × List UInt8) :=
  if ataSectorSize ≤ r.skip then .next { r with skip := r.skip - ataSectorSize }
  else
    let take := min r.remaining (ataSectorSize - r.skip)
    let out := r.out ++ ((sectorBytes buf).drop r.skip).take take
    if r.remaining - take = 0 then .done (0, out) else .next ⟨0, r.remaining - take, out⟩

/-- The walker of a range. -/
def rangeWalker (fs : FatFs) (v : FatVolume) : Walker RangeReading (Int × List UInt8) :=
  clusterWalker fs v (fun r => (-4, r.out)) (fun r => (-2, r.out)) (fun r => (-3, r.out))
    rangeSector

/-- The loop that skips whole clusters: what is left to be skipped, the cluster, and the
guard. -/
def skipClusters (fs : FatFs) (v : FatVolume) (perCluster : Nat) :
    Nat → Nat → Nat → Except Int (Nat × Nat × Nat)
  | 0, skip, cluster =>
      if perCluster ≤ skip ∧ 2 ≤ cluster then .ok (skip, cluster, guardLeft none)
      else .ok (skip, cluster, 0)
  | g + 1, skip, cluster =>
      if perCluster ≤ skip ∧ 2 ≤ cluster then
        match fatReadFatEntry fs v cluster with
        | none => .error (-3)
        | some next =>
            if fatIsEoc fs next then .error (-4)
            else if next = cluster then .error (-3)
            else skipClusters fs v perCluster g (skip - perCluster) next
      else .ok (skip, cluster, g + 1)

/-- What a read of a range comes to: the code, what is stored through `out_read`, if anything
is, and the bytes stored. -/
structure RangeOutcome where
  rc : Int
  outRead : Option Nat
  out : List UInt8
  deriving DecidableEq

/-- `fat_read_file_range_data`. -/
def fatReadFileRangeData (fs : FatFs) (v : FatVolume) (entry : FatDirEntry) (offset len : Nat) :
    RangeOutcome :=
  let size := entry.size.toNat
  if size ≤ offset ∨ len = 0 then ⟨0, some 0, []⟩
  else
    let len := if size < (offset + len) % 2 ^ 64 then size - offset else len
    match skipClusters fs v (fs.sectorsPerCluster * ataSectorSize) (guardOf fs) offset
        entry.cluster.toNat with
    | .error rc => ⟨rc, some 0, []⟩
    | .ok (skip, cluster, guard) =>
        match walk (rangeWalker fs v) guard cluster ⟨skip, len, []⟩ with
        | .done (rc, out) => if rc = 0 then ⟨0, some out.length, out⟩ else ⟨rc, some 0, out⟩
        | .left r _ _ => ⟨-4, some r.out.length, r.out⟩

/-- `fat_fs_read_file_range` into a buffer. -/
def fatFsReadFileRange (fs : FatFs) (v : FatVolume) (path : CString) (offset len : Nat) :
    RangeOutcome :=
  match fatResolvePath fs v path with
  | .error _ => ⟨-1, none, []⟩
  | .ok e =>
      if e.attr &&& attrDir ≠ 0 then ⟨-2, none, []⟩
      else if len = 0 then ⟨0, none, []⟩
      else fatReadFileRangeData fs v e offset len

/-! ## Allocation -/

/-- The clusters in the order of the two passes. -/
def allocOrder (start maxCluster : Nat) : List Nat :=
  List.range' start (maxCluster + 1 - start) ++ List.range' 2 (start - 2)

/-- The cluster the search starts with. -/
def allocStart (maxCluster nextFree : Nat) : Nat :=
  if nextFree < 2 ∨ maxCluster < nextFree then 2 else nextFree

/-- The first free cluster; a read that fails ends the search. -/
def findFree (fs : FatFs) (v : FatVolume) : List Nat → Option Nat
  | [] => none
  | c :: rest =>
      match fatReadFatEntry fs v c with
      | none => none
      | some value => if value = 0 then some c else findFree fs v rest

/-- The sectors are written with the pieces of the bytes, and with zeroes behind them. -/
def writeSectors (v : FatVolume) : List Nat → List UInt8 → Option FatVolume
  | [], _ => some v
  | sector :: rest, bytes =>
      (fatWriteSector v sector fun i => bytes.getD i 0).bind fun v =>
        writeSectors v rest (bytes.drop ataSectorSize)

/-- `fat_zero_cluster`. -/
def fatZeroCluster (fs : FatFs) (v : FatVolume) (cluster : Nat) : Option FatVolume :=
  writeSectors v (clusterSectors fs cluster) []

/-- `fat_alloc_cluster`. -/
def fatAllocCluster (fs : FatFs) (st : FatState) (zero : Bool) : Option (Nat × FatState) :=
  let maxCluster := fatMaxValidCluster fs
  if maxCluster < 2 then none
  else
    (findFree fs st.vol (allocOrder (allocStart maxCluster st.nextFree) maxCluster)).bind fun c =>
      (fatWriteFatEntry fs st.vol c (fatEocValue fs)).bind fun v =>
        (if zero then fatZeroCluster fs v c else some v).map fun v =>
          (c, ⟨v, if c + 1 ≤ maxCluster then c + 1 else 2⟩)

/-- The visits of a sector in the search for free slots. -/
def slotSector (count : Nat) (sector : Nat) (buf : Bytes) (last : Nat) :
    Visit Nat (Option (Nat × Nat)) :=
  match freeRun count 0 0 (sectorSlots buf) with
  | some i => .done (some (sector, dirEntrySize * i))
  | none => .next last

/-- The walker of the search for free slots; its state is `last_cluster`. -/
def slotWalker (fs : FatFs) (v : FatVolume) (count : Nat) : Walker Nat (Option (Nat × Nat)) where
  ends c := c < 2
  visit c last :=
    if fs.clusterCount + 1 < c then .done none
    else
      match visitSectors v (fun _ => none) (slotSector count) (clusterSectors fs c) last with
      | .done r => .done r
      | .next _ => .next c
  link := fatLink fs v
  fail := fun _ => none

/-- The directory gets another cluster behind `last`. -/
def appendCluster (fs : FatFs) (st : FatState) (last : Nat) : Option ((Nat × Nat) × FatState) :=
  (fatAllocCluster fs st true).bind fun (new, st) =>
    (fatWriteFatEntry fs st.vol last new).bind fun v =>
      (fatWriteFatEntry fs v new (fatEocValue fs)).map fun v =>
        ((fatClusterToSector fs new, 0), ⟨v, st.nextFree⟩)

/-- `fat_dir_find_free_slots`: the place of the slots, and the partition, which has changed
where the directory has grown. -/
def fatDirFindFreeSlots (fs : FatFs) (st : FatState) (dirCluster count : Nat) :
    Option ((Nat × Nat) × FatState) :=
  if count = 0 ∨ slotsPerSector < count then none
  else if fs.type ≠ .fat32 ∧ dirCluster = 0 then
    match visitSectors st.vol (fun _ => none) (slotSector count) (rootSectors fs) 0 with
    | .done r => r.map fun place => (place, st)
    | .next _ => none
  else
    match walk (slotWalker fs st.vol count) (guardOf fs) (dirStart fs dirCluster)
        (dirStart fs dirCluster) with
    | .done r => r.map fun place => (place, st)
    | .left last cluster guard =>
        if 2 ≤ cluster ∧ guardLeft guard = 0 then none else appendCluster fs st last

end NTux.Fat.Disk
