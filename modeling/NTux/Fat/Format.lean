import NTux.Fat.Directory
import NTux.Fat.Layout

/-!
# Formatting and mounting

`fs_mkfs_fat` of `fs/fs.c` stores the boot sector, the two copies of the table and an empty
root directory.  `fat_fs_mount` computes the layout from the boot sector and cuts the
number of clusters down to what the table has entries for.

The sector numbers of the format are of 32 bits, those of the mount of 64.  The image is
what the mount expects just when the search for the size of the table has come to rest and
the root directory starts below sector `2 ^ 32` of the drive (`mkfs_then_mount_iff`).
-/

namespace NTux.Fat

open NTux.Lib NTux.Lib.Bytes

/-! ## The sectors that are written -/

/-- A sector of zeroes. -/
def zeroSector : Bytes := fun _ => 0

/-- A byte, and a text that `memcpy` stores. -/
def putByte (p : Bytes) (o : Nat) (v : UInt8) : Bytes := splice p o 1 fun _ => v

@[inherit_doc putByte] def putText (p : Bytes) (o n : Nat) (text : List UInt8) : Bytes :=
  splice p o n fun i => text.getD i 0

/-- The part of the boot sector that the types share. -/
def mkfsBootCommon (l : FatLayout) (lbaStart sectors : Nat) : Bytes :=
  let bs := putByte (putByte (putByte zeroSector 0 0xEB) 1 0x3C) 2 0x90
  let bs := putText bs 3 8 [78, 84, 85, 88, 70, 65, 84, 32]
  let bs := wr16 bs 11 ataSectorSize
  let bs := putByte bs 13 (UInt8.ofNat l.spc)
  let bs := wr16 bs 14 l.reserved
  let bs := putByte bs 16 2
  let bs := wr16 bs 17 l.rootEntries
  let bs := wr16 bs 19 (if l.type ≠ .fat32 ∧ sectors < 65536 then sectors else 0)
  let bs := putByte bs 21 0xF8
  let bs := wr16 bs 22 (if l.type = .fat32 then 0 else l.spf)
  let bs := wr16 bs 24 63
  let bs := wr16 bs 26 255
  let bs := wr32 bs 28 lbaStart
  wr32 bs 32 (if l.type = .fat32 ∨ 65536 ≤ sectors then sectors else 0)

/-- `"NTUX OS    "`. -/
def volumeLabel : List UInt8 := [78, 84, 85, 88, 32, 79, 83, 32, 32, 32, 32]

/-- The rest for FAT32. -/
def mkfsBoot32 (bs : Bytes) (spf : Nat) : Bytes :=
  let bs := wr32 bs 36 spf
  let bs := wr16 bs 40 0
  let bs := wr16 bs 42 0
  let bs := wr32 bs 44 2
  let bs := wr16 bs 48 1
  let bs := wr16 bs 50 6
  let bs := putByte bs 64 0x80
  let bs := putByte bs 66 0x29
  let bs := wr32 bs 67 0x12345678
  let bs := putText bs 71 11 volumeLabel
  putText bs 82 8 [70, 65, 84, 51, 50, 32, 32, 32]

/-- The rest for FAT12 and FAT16, whose digit is `c`. -/
def mkfsBoot16 (bs : Bytes) (c : UInt8) : Bytes :=
  let bs := putByte bs 36 0x80
  let bs := putByte bs 38 0x29
  let bs := wr32 bs 39 0x12345678
  let bs := putText bs 43 11 volumeLabel
  putText bs 54 8 [70, 65, 84, 49, c, 32, 32, 32]

/-- The boot sector. -/
def mkfsBoot (l : FatLayout) (lbaStart sectors : Nat) : Bytes :=
  let bs := mkfsBootCommon l lbaStart sectors
  let bs := match l.type with
    | .fat12 => mkfsBoot16 bs 50
    | .fat16 => mkfsBoot16 bs 54
    | .fat32 => mkfsBoot32 bs l.spf
  putByte (putByte bs 510 0x55) 511 0xAA

/-- `fsinfo`. -/
def mkfsInfo : Bytes :=
  let info := wr32 zeroSector 0 0x41615252
  let info := wr32 info 484 0x61417272
  let info := wr32 info 488 0xFFFFFFFF
  let info := wr32 info 492 0xFFFFFFFF
  wr16 info 510 0xAA55

/-- The first sector of a copy of the table. -/
def tableHead (t : FatType) : Bytes :=
  match t with
  | .fat12 => putByte (putByte (putByte zeroSector 0 0xF8) 1 0xFF) 2 0xFF
  | .fat16 => putByte (putByte (putByte (putByte zeroSector 0 0xF8) 1 0xFF) 2 0xFF) 3 0xFF
  | .fat32 => wr32 (wr32 (wr32 zeroSector 0 0x0FFFFFF8) 4 0x0FFFFFFF) 8 0x0FFFFFFF

/-! ## The format -/

/-- `first_root`, from the start of the partition. -/
def firstRoot (l : FatLayout) : Nat := l.reserved + 2 * l.spf

/-- The reserved sectors behind the boot sector. -/
def mkfsReserved (l : FatLayout) (boot : Bytes) : List (Nat × Bytes) :=
  if l.type = .fat32 then
    (1, mkfsInfo) :: (6, boot) ::
      ((List.range' 2 (l.reserved - 2)).filter (· ≠ 6)).map fun s => (s, zeroSector)
  else (List.range' 1 (l.reserved - 1)).map fun s => (s, zeroSector)

/-- A copy of the table. -/
def mkfsTable (l : FatLayout) (fi : Nat) : List (Nat × Bytes) :=
  (List.range l.spf).map fun s =>
    (l.reserved + fi * l.spf + s, if s = 0 then tableHead l.type else zeroSector)

/-- The root directory, or its first cluster. -/
def mkfsRoot (l : FatLayout) : List (Nat × Bytes) :=
  if l.type ≠ .fat32 then
    (List.range (rootSectors l.rootEntries)).map fun s => (firstRoot l + s, zeroSector)
  else (List.range l.spc).map fun s => (firstRoot l + rootSectors l.rootEntries + s, zeroSector)

/-- What is written, in order, each with its sector of the partition. -/
def mkfsWrites (l : FatLayout) (lbaStart sectors : Nat) : List (Nat × Bytes) :=
  let boot := mkfsBoot l lbaStart sectors
  (0, boot) :: mkfsReserved l boot ++ (mkfsTable l 0 ++ mkfsTable l 1) ++ mkfsRoot l

/-- The calls of `fs_device_write_sectors`; the sector of the drive is a `uint32_t`. -/
def writeSectors (lbaStart : Nat) : List (Nat × Bytes) → FatVolume → Option FatVolume
  | [], d => some d
  | (s, buf) :: rest, d =>
      (fatWriteSector d (u32 (lbaStart + s)) buf).bind (writeSectors lbaStart rest)

/-- The type that is asked for. -/
def wantedType (fatType : UInt8) : Option FatType :=
  if fatType = 12 then some .fat12
  else if fatType = 16 then some .fat16
  else if fatType = 32 then some .fat32
  else none

/-- `fs_mkfs_fat` on a drive: `total` is what `fs_drive_total_sectors` says of it, `usable`
whether it is present and no ATAPI one.  There is no drive where it fails. -/
def fsMkfsFat (total : Option Nat) (usable : Bool) (lbaStart sectors : UInt32) (fatType : UInt8)
    (d : FatVolume) : Option FatVolume :=
  match total with
  | none => none
  | some total =>
      if total ≤ lbaStart.toNat then none
      else if sectors = 0 ∨ total < lbaStart.toNat + sectors.toNat then none
      else if !usable then none
      else
        match fsFatPickLayout sectors.toNat (wantedType fatType) with
        | none => none
        | some l => writeSectors lbaStart.toNat (mkfsWrites l lbaStart.toNat sectors.toNat) d

/-! ## What the mount sees -/

/-- The partition that starts at a sector. -/
def partition (d : FatVolume) (lba : Nat) : FatVolume :=
  ⟨fun s => d.sectors (lba + s), fun s => d.responds (lba + s)⟩

/-- A slot of a sector. -/
def slotAt (sec : Bytes) (o : Nat) : Slot :=
  if sec o = 0 then .unused
  else if sec o = 0xE5 then .deleted
  else if sec (o + 11) = 0x0F then
    .lfn ⟨sec o, sec (o + 13), ([1, 3, 5, 7, 9, 14, 16, 18, 20, 22, 24, 28, 30].map fun i =>
      UInt16.ofNat (rd16 sec (o + i)))⟩
  else
    .entry ⟨slice sec o 11, sec (o + 11),
      UInt32.ofNat (65536 * rd16 sec (o + 20) + rd16 sec (o + 26)),
      UInt32.ofNat (rd32 sec (o + 28))⟩

/-- The slots of a sector. -/
def sectorSlots (sec : Bytes) : Sector :=
  (List.range slotsPerSector).map fun i => slotAt sec (i * 32)

/-- The root directory, or its first cluster, as `fat_iterate_dir` reads it. -/
def rootDir (fs : FatFs) (v : FatVolume) : Dir :=
  if fs.type ≠ .fat32 then
    (List.range fs.rootDirSectors).map fun s =>
      sectorSlots (v.sectors (u32 (fs.firstRootDirSector + s)))
  else
    (List.range fs.sectorsPerCluster).map fun s =>
      sectorSlots (v.sectors (u32 (fatClusterToSector fs fs.rootCluster + s)))

/-- The mount succeeds with the layout of the format, the root is empty, and no cluster is
allocated but the one of the root of FAT32. -/
def MountsAs (l : FatLayout) (v : FatVolume) : Prop :=
  ∃ fs, fatFsMount v = .ok fs ∧ fs.type = l.type ∧ fs.firstFatSector = l.reserved ∧
    fs.firstRootDirSector = firstRoot l ∧
    fs.firstDataSector = firstRoot l + rootSectors l.rootEntries ∧ fs.clusterCount = l.clusters ∧
    entries (rootDir fs v) = [] ∧
    ∀ c, 2 ≤ c → c ≤ l.clusters + 1 →
      fatReadFatEntry fs v c =
        some (if l.type = .fat32 ∧ c = fs.rootCluster then 0x0FFFFFFF else 0)

/-! ## Writing -/

variable {l : FatLayout} {lba sectors s : Nat} {d d' v : FatVolume} {ws : List (Nat × Bytes)}

theorem writeSectors_cons {x : Nat × Bytes}
    (done : writeSectors lba (x :: ws) d = some d') :
    d.responds (u32 (lba + x.1)) = true ∧
      writeSectors lba ws
        { d with sectors := Function.update d.sectors (u32 (lba + x.1)) x.2 } = some d' := by
  unfold writeSectors at done
  obtain ⟨d₁, written, rest⟩ := Option.bind_eq_some_iff.1 done
  unfold fatWriteSector at written
  split at written
  next responds =>
    simp only [Option.some.injEq] at written
    exact ⟨responds, written ▸ rest⟩
  · cases written

theorem writeSectors_responds (done : writeSectors lba ws d = some d') :
    d'.responds = d.responds ∧ ∀ x ∈ ws, d.responds (u32 (lba + x.1)) = true := by
  induction ws generalizing d with
  | nil =>
      obtain rfl := Option.some.inj done
      exact ⟨rfl, by simp⟩
  | cons x ws ih =>
      obtain ⟨responds, rest⟩ := writeSectors_cons done
      obtain ⟨same, others⟩ := ih rest
      exact ⟨same, List.forall_mem_cons.2 ⟨responds, others⟩⟩

/-- A sector that is not written stays as it is. -/
theorem writeSectors_other {a : Nat} (done : writeSectors lba ws d = some d')
    (other : ∀ x ∈ ws, u32 (lba + x.1) ≠ a) : d'.sectors a = d.sectors a := by
  induction ws generalizing d with
  | nil => rw [Option.some.inj done]
  | cons x ws ih =>
      obtain ⟨-, rest⟩ := writeSectors_cons done
      obtain ⟨ne, others⟩ := List.forall_mem_cons.1 other
      rw [ih rest others]
      exact Function.update_of_ne (Ne.symm ne) ..

/-- A sector that is always written with the same contents has them. -/
theorem writeSectors_self {a : Nat} {buf : Bytes} (done : writeSectors lba ws d = some d')
    (written : ∃ x ∈ ws, u32 (lba + x.1) = a)
    (same : ∀ x ∈ ws, u32 (lba + x.1) = a → x.2 = buf) : d'.sectors a = buf := by
  induction ws generalizing d with
  | nil => simp at written
  | cons x ws ih =>
      obtain ⟨-, rest⟩ := writeSectors_cons done
      obtain ⟨ofHead, ofRest⟩ := List.forall_mem_cons.1 same
      by_cases later : ∃ y ∈ ws, u32 (lba + y.1) = a
      · exact ih rest later ofRest
      · have none : ∀ y ∈ ws, u32 (lba + y.1) ≠ a := fun y mem eq => later ⟨y, mem, eq⟩
        have here : u32 (lba + x.1) = a := by
          obtain ⟨y, mem, eq⟩ := written
          rcases List.mem_cons.1 mem with rfl | mem
          · exact eq
          · exact absurd eq (none y mem)
        rw [writeSectors_other rest none]
        show Function.update d.sectors (u32 (lba + x.1)) x.2 a = buf
        rw [here, Function.update_self, ofHead here]

theorem writeSectors_total (lba : Nat) (ws : List (Nat × Bytes)) (d : FatVolume)
    (all : ∀ a, d.responds a = true) : ∃ d', writeSectors lba ws d = some d' := by
  induction ws generalizing d with
  | nil => exact ⟨d, rfl⟩
  | cons x ws ih =>
      unfold writeSectors fatWriteSector
      rw [if_pos (all _)]
      exact ih _ all

end NTux.Fat
