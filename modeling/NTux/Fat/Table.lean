import NTux.Lib.Bytes

/-!
# The file allocation table

`fat_fs_mount` as far as the geometry goes, and the entries of the table:
`fat_read_fat_entry`, which reads the first copy, and `fat_write_fat_entry`, which writes
all of them.  An entry of FAT12 is one and a half bytes, shares a byte with a neighbour
and may lie in two sectors.

The partition is read as one run of bytes (`flat`).  In these terms writing an entry is
one store for each copy (`entryPut`), a store sees to its own entry and to nothing else
(`entryPut_self`, `entryPut_neighbour`), and the sector arithmetic of the source is exact
as long as the copy lies below sector `2 ^ 32`; behind it the sector numbers wrap and the
copy is missed (`fat_entry_store_iff`).
-/

namespace NTux.Fat

open NTux.Lib NTux.Lib.Bytes

/-- `ATA_SECTOR_SIZE`. -/
def ataSectorSize : Nat := 512

/-- What a `uint32_t` holds of a number. -/
def u32 (n : Nat) : Nat := n % 4294967296

/-- `fat_type_t`. -/
inductive FatType
  | fat12
  | fat16
  | fat32
  deriving DecidableEq

/-- `fat_fs_t`, but for where the partition is and the hint for the next free cluster. -/
structure FatFs where
  type : FatType
  bytesPerSector : Nat
  sectorsPerCluster : Nat
  reservedSectors : Nat
  fatCount : Nat
  rootEntryCount : Nat
  totalSectors : Nat
  sectorsPerFat : Nat
  rootDirSectors : Nat
  firstFatSector : Nat
  firstRootDirSector : Nat
  firstDataSector : Nat
  clusterCount : Nat
  rootCluster : Nat
  deriving DecidableEq

/-- The sectors of a partition, and which of them the drive transfers. -/
structure FatVolume where
  sectors : Nat → Bytes
  responds : Nat → Bool

/-! ## The source -/

/-- `fat_read_sector`. -/
def fatReadSector (v : FatVolume) (sector : Nat) : Option Bytes :=
  if v.responds sector then some (v.sectors sector) else none

/-- `fat_write_sector`. -/
def fatWriteSector (v : FatVolume) (sector : Nat) (buf : Bytes) : Option FatVolume :=
  if v.responds sector then some { v with sectors := Function.update v.sectors sector buf }
  else none

/-- `fat_fat_entry_count`. -/
def fatFatEntryCount (fs : FatFs) : Nat :=
  let fatBytes := u32 (fs.sectorsPerFat * fs.bytesPerSector)
  match fs.type with
  | .fat12 => u32 (fatBytes * 2) / 3
  | .fat16 => fatBytes / 2
  | .fat32 => fatBytes / 4

/-- `fat_cluster_to_sector`. -/
def fatClusterToSector (fs : FatFs) (cluster : Nat) : Nat :=
  u32 (fs.firstDataSector + (cluster - 2) * fs.sectorsPerCluster)

/-- The fields that `fat_fs_mount` takes from the boot sector or computes from it. -/
def fatGeometry (bs : Bytes) : FatFs :=
  let reserved := rd16 bs 14
  let spf := if rd16 bs 22 = 0 then rd32 bs 36 else rd16 bs 22
  let total := if rd16 bs 19 = 0 then rd32 bs 32 else rd16 bs 19
  let rootDirSectors := (rd16 bs 17 * 32 + (ataSectorSize - 1)) / ataSectorSize
  let firstRootDir := u32 (reserved + u32 ((bs 16).toNat * spf))
  let firstData := u32 (firstRootDir + rootDirSectors)
  let clusters := (total - firstData) / (bs 13).toNat
  let type : FatType :=
    if clusters < 4085 then .fat12 else if clusters < 65525 then .fat16 else .fat32
  let fs : FatFs := ⟨type, rd16 bs 11, (bs 13).toNat, reserved, (bs 16).toNat, rd16 bs 17, total,
    spf, rootDirSectors, reserved, firstRootDir, firstData, clusters,
    if type = .fat32 then rd32 bs 44 else 0⟩
  { fs with clusterCount := min clusters (fatFatEntryCount fs - 2) }

/-- `fat_is_power_of_two_u32`. -/
def fatIsPowerOfTwo (v : Nat) : Bool := v ≠ 0 && v &&& (v - 1) = 0

/-- `fat_fs_mount`, of a partition with the given boot sector. -/
def fatFsMount (v : FatVolume) : Except Int FatFs :=
  let bs := v.sectors 0
  let fs := fatGeometry bs
  if !v.responds 0 then .error (-1)
  else if bs 510 ≠ 0x55 ∨ bs 511 ≠ 0xAA then .error (-2)
  else if fs.bytesPerSector ≠ ataSectorSize ∨ fs.sectorsPerCluster = 0 ∨ fs.fatCount = 0 ∨
      fs.sectorsPerFat = 0 then .error (-3)
  else if !fatIsPowerOfTwo fs.sectorsPerCluster ∨ fs.reservedSectors = 0 ∨
      fs.totalSectors = 0 then .error (-3)
  else if fs.totalSectors ≤ fs.firstDataSector then .error (-3)
  else if (fs.totalSectors - fs.firstDataSector) / fs.sectorsPerCluster = 0 then .error (-3)
  else if fatFatEntryCount fs ≤ 2 then .error (-3)
  else if fs.type = .fat32 ∧ (fs.rootCluster < 2 ∨ fs.clusterCount + 1 < fs.rootCluster) then
    .error (-3)
  else if fs.type ≠ .fat32 ∧ (fs.rootDirSectors = 0 ∨
      fs.totalSectors < u32 (fs.firstRootDirSector + fs.rootDirSectors)) then .error (-3)
  else
    let rootSector :=
      if fs.type = .fat32 then fatClusterToSector fs fs.rootCluster else fs.firstRootDirSector
    if !v.responds rootSector then .error (-3) else .ok fs

/-- The twelve bits of a cluster in the two bytes that hold them. -/
def half (cluster w : Nat) : Nat := if cluster % 2 = 1 then w / 16 else w % 4096

/-- `fat_read_fat_entry`. -/
def fatReadFatEntry (fs : FatFs) (v : FatVolume) (cluster : Nat) : Option Nat :=
  match fs.type with
  | .fat12 =>
      let fatOffset := u32 (cluster + cluster / 2)
      let sector := u32 (fs.firstFatSector + fatOffset / fs.bytesPerSector)
      let off := fatOffset % fs.bytesPerSector
      (fatReadSector v sector).bind fun sec =>
        (if off = fs.bytesPerSector - 1 then
            (fatReadSector v (u32 (sector + 1))).map fun sec2 => sec2 0
          else some (sec (off + 1))).map fun b1 =>
            half cluster ((sec off).toNat + 256 * b1.toNat)
  | .fat16 =>
      let fatOffset := u32 (cluster * 2)
      let sector := u32 (fs.firstFatSector + fatOffset / fs.bytesPerSector)
      (fatReadSector v sector).map fun sec => rd16 sec (fatOffset % fs.bytesPerSector)
  | .fat32 =>
      let fatOffset := u32 (cluster * 4)
      let sector := u32 (fs.firstFatSector + fatOffset / fs.bytesPerSector)
      (fatReadSector v sector).map fun sec =>
        rd32 sec (fatOffset % fs.bytesPerSector) % 268435456

/-- `(old & 0x000F) | (value12 << 4)` for an odd cluster, `(old & 0xF000) | value12` for an
even one. -/
def withHalf (cluster old value12 : Nat) : Nat :=
  if cluster % 2 = 1 then old % 16 + 16 * (value12 % 4096)
  else old / 4096 * 4096 + value12 % 4096

/-- `fat_write_fat12_single`. -/
def fatWriteFat12Single (fs : FatFs) (v : FatVolume) (fatBase cluster value12 : Nat) :
    Option FatVolume :=
  let fatOffset := u32 (cluster + cluster / 2)
  let sector := u32 (fatBase + fatOffset / fs.bytesPerSector)
  let off := fatOffset % fs.bytesPerSector
  (fatReadSector v sector).bind fun s0 =>
    if off = fs.bytesPerSector - 1 then
      (fatReadSector v (u32 (sector + 1))).bind fun s1 =>
        let nv := withHalf cluster ((s0 off).toNat + 256 * (s1 0).toNat) value12
        (fatWriteSector v sector (Function.update s0 off (UInt8.ofNat nv))).bind fun v =>
          fatWriteSector v (u32 (sector + 1)) (Function.update s1 0 (UInt8.ofNat (nv / 256)))
    else
      let nv := withHalf cluster (rd16 s0 off) value12
      fatWriteSector v sector (wr16 s0 off nv)

/-- The body of the loop of `fat_write_fat_entry`, for one copy. -/
def fatWriteCopy (fs : FatFs) (v : FatVolume) (fi cluster value : Nat) : Option FatVolume :=
  let fatBase := u32 (fs.firstFatSector + u32 (fi * fs.sectorsPerFat))
  match fs.type with
  | .fat12 => fatWriteFat12Single fs v fatBase cluster (value % 4096)
  | .fat16 =>
      let fatOff := u32 (cluster * 2)
      let sector := u32 (fatBase + fatOff / fs.bytesPerSector)
      (fatReadSector v sector).bind fun sec =>
        fatWriteSector v sector (wr16 sec (fatOff % fs.bytesPerSector) (value % 65536))
  | .fat32 =>
      let fatOff := u32 (cluster * 4)
      let sector := u32 (fatBase + fatOff / fs.bytesPerSector)
      (fatReadSector v sector).bind fun sec =>
        let off := fatOff % fs.bytesPerSector
        fatWriteSector v sector
          (wr32 sec off (rd32 sec off / 268435456 * 268435456 + value % 268435456))

/-- `fat_write_fat_entry`. -/
def fatWriteFatEntry (fs : FatFs) (v : FatVolume) (cluster value : Nat) : Option FatVolume :=
  (List.range fs.fatCount).foldlM (fun v fi => fatWriteCopy fs v fi cluster value) v

/-! ## The table as bytes -/

/-- The partition as one run of bytes. -/
def FatVolume.flat (v : FatVolume) : Bytes := fun i =>
  v.sectors (i / ataSectorSize) (i % ataSectorSize)

/-- How many bytes the entry of a cluster lies in. -/
def FatType.width : FatType → Nat
  | .fat12 | .fat16 => 2
  | .fat32 => 4

/-- Where the entry of a cluster starts in a copy. -/
def FatType.offset (t : FatType) (cluster : Nat) : Nat :=
  match t with
  | .fat12 => cluster + cluster / 2
  | .fat16 => cluster * 2
  | .fat32 => cluster * 4

/-- Where it starts on the partition. -/
def FatFs.entryPos (fs : FatFs) (fi cluster : Nat) : Nat :=
  (fs.firstFatSector + fi * fs.sectorsPerFat) * ataSectorSize + fs.type.offset cluster

/-- The part of a value that an entry keeps. -/
def FatType.masked (t : FatType) (value : Nat) : Nat :=
  match t with
  | .fat12 => value % 4096
  | .fat16 => value % 65536
  | .fat32 => value % 268435456

/-- The entry of a cluster that starts at `pos`. -/
def entryAt (t : FatType) (p : Bytes) (pos cluster : Nat) : Nat :=
  match t with
  | .fat12 => half cluster (rd16 p pos)
  | .fat16 => rd16 p pos
  | .fat32 => rd32 p pos % 268435456

/-- Store a value in it. -/
def entryPut (t : FatType) (p : Bytes) (pos cluster value : Nat) : Bytes :=
  match t with
  | .fat12 => wr16 p pos (withHalf cluster (rd16 p pos) (value % 4096))
  | .fat16 => wr16 p pos (value % 65536)
  | .fat32 => wr32 p pos (rd32 p pos / 268435456 * 268435456 + value % 268435456)

section Store

variable {t : FatType} {p q : Bytes} {pos base c d value : Nat}

theorem withHalf_lt (old : Nat) (lt : old < 65536) : withHalf c old value < 65536 := by
  unfold withHalf
  split <;> omega

theorem half_withHalf (old : Nat) : half c (withHalf c old value) = value % 4096 := by
  unfold half withHalf
  split <;> omega

theorem entryAt_congr (same : ∀ i, i < t.width → p (pos + i) = q (pos + i)) :
    entryAt t p pos c = entryAt t q pos c := by
  cases t with
  | fat12 => exact congrArg (half c) (rd16_congr same)
  | fat16 => exact rd16_congr same
  | fat32 => exact congrArg (· % 268435456) (rd32_congr same)

/-- A store changes its own bytes only. -/
theorem entryPut_apart {i : Nat} (apart : i < pos ∨ pos + t.width ≤ i) :
    entryPut t p pos c value i = p i := by
  cases t with
  | fat12 => exact wr16_of_apart apart
  | fat16 => exact wr16_of_apart apart
  | fat32 => exact wr32_of_apart apart

/-- An entry reads back as what was stored, masked to its width. -/
theorem entryPut_self : entryAt t (entryPut t p pos c value) pos c = t.masked value := by
  cases t with
  | fat12 =>
      show half c (rd16 (wr16 p pos _) pos) = value % 4096
      rw [rd16_wr16 (withHalf_lt _ rd16_lt), half_withHalf, Nat.mod_mod]
  | fat16 => exact rd16_wr16 (Nat.mod_lt _ (by decide))
  | fat32 =>
      have lt : rd32 p pos < 4294967296 := rd32_lt
      show rd32 (wr32 p pos _) pos % 268435456 = value % 268435456
      rw [rd32_wr32 (by omega)]
      omega

/-- The top four bits of a FAT32 entry are kept. -/
theorem entryPut_reserved :
    rd32 (entryPut .fat32 p pos c value) pos / 268435456 = rd32 p pos / 268435456 := by
  have lt : rd32 p pos < 4294967296 := rd32_lt
  show rd32 (wr32 p pos _) pos / 268435456 = _
  rw [rd32_wr32 (by omega)]
  omega

/-- The entries of two clusters are in different bytes, but for neighbours of FAT12 that
share one. -/
theorem offset_apart (ne : d ≠ c) :
    t.offset d + t.width ≤ t.offset c ∨ t.offset c + t.width ≤ t.offset d ∨
      (t = .fat12 ∧ ((c % 2 = 0 ∧ d = c + 1) ∨ (d % 2 = 0 ∧ c = d + 1))) := by
  cases t with
  | fat12 =>
      simp only [FatType.offset, FatType.width, true_and]
      omega
  | fat16 =>
      simp only [FatType.offset, FatType.width]
      omega
  | fat32 =>
      simp only [FatType.offset, FatType.width]
      omega

/-- A store to an even cluster of FAT12 keeps the upper half of its second byte. -/
theorem put_even (even : c % 2 = 0) (o : Nat) :
    rd16 (wr16 p o (withHalf c (rd16 p o) value)) (o + 1) / 16 = rd16 p (o + 1) / 16 := by
  have second : ∀ nv, wr16 p o nv (o + 1) = UInt8.ofNat (nv / 256) := by
    intro nv
    unfold wr16
    rw [if_neg (by omega), if_pos rfl]
  have third : ∀ nv, wr16 p o nv (o + 1 + 1) = p (o + 1 + 1) := fun nv =>
    wr16_of_apart (.inr (Nat.le_refl _))
  have lt := (p (o + 1)).toNat_lt
  have ltFirst := (p o).toNat_lt
  unfold rd16
  rw [second, third, toNat_ofNat_byte, withHalf, if_neg (by omega)]
  omega

/-- A store to an odd cluster of FAT12 keeps the lower half of its first byte. -/
theorem put_odd (odd : c % 2 = 1) (o : Nat) :
    rd16 (wr16 p (o + 1) (withHalf c (rd16 p (o + 1)) value)) o % 4096 = rd16 p o % 4096 := by
  have first : ∀ nv, wr16 p (o + 1) nv o = p o := fun nv => wr16_of_apart (.inl (Nat.lt_succ_self o))
  have second : ∀ nv, wr16 p (o + 1) nv (o + 1) = UInt8.ofNat nv := by
    intro nv
    unfold wr16
    rw [if_pos rfl]
  have lt := (p (o + 1)).toNat_lt
  unfold rd16
  rw [first, second, toNat_ofNat_byte, withHalf, if_pos odd]
  omega

/-- A store leaves the other entries of its copy alone. -/
theorem entryPut_neighbour (ne : d ≠ c) :
    entryAt t (entryPut t p (base + t.offset c) c value) (base + t.offset d) d =
      entryAt t p (base + t.offset d) d := by
  rcases offset_apart (t := t) ne with before | behind | ⟨rfl, ⟨even, rfl⟩ | ⟨even, rfl⟩⟩
  · exact entryAt_congr fun i lt => entryPut_apart (by omega)
  · exact entryAt_congr fun i lt => entryPut_apart (by omega)
  · -- the byte in which the even entry ends
    have next : base + FatType.fat12.offset (c + 1) = base + FatType.fat12.offset c + 1 := by
      simp only [FatType.offset]
      omega
    have odd : (c + 1) % 2 = 1 := by omega
    rw [next]
    simp only [entryAt, entryPut, half, if_pos odd]
    exact put_even even _
  · -- the byte in which the odd entry starts
    have next : base + FatType.fat12.offset (d + 1) = base + FatType.fat12.offset d + 1 := by
      simp only [FatType.offset]
      omega
    have odd : (d + 1) % 2 = 1 := by omega
    have notOdd : ¬ d % 2 = 1 := by omega
    rw [next]
    simp only [entryAt, entryPut, half, if_neg notOdd]
    exact put_odd odd _

end Store

/-! ## Sectors and bytes -/

section Sectors

variable {v v' : FatVolume} {s o nv : Nat} {buf : Bytes}

theorem flat_sector (v : FatVolume) (lt : o < ataSectorSize) :
    v.flat (s * ataSectorSize + o) = v.sectors s o := by
  unfold ataSectorSize at lt
  have sector : (s * 512 + o) / 512 = s := by omega
  have off : (s * 512 + o) % 512 = o := by omega
  rw [FatVolume.flat, ataSectorSize, sector, off]

theorem rd16_sector (v : FatVolume) (lt : o + 2 ≤ ataSectorSize) :
    rd16 v.flat (s * ataSectorSize + o) = rd16 (v.sectors s) o := by
  refine rd16_congr fun i ltI => ?_
  rw [Nat.add_assoc]
  exact flat_sector v (by omega)

theorem rd32_sector (v : FatVolume) (lt : o + 4 ≤ ataSectorSize) :
    rd32 v.flat (s * ataSectorSize + o) = rd32 (v.sectors s) o := by
  refine rd32_congr fun i ltI => ?_
  rw [Nat.add_assoc]
  exact flat_sector v (by omega)

/-- Two bytes that lie in two sectors. -/
theorem rd16_two_sectors (v : FatVolume) :
    rd16 v.flat (s * ataSectorSize + 511) =
      (v.sectors s 511).toNat + 256 * (v.sectors (s + 1) 0).toNat := by
  have second : s * ataSectorSize + 511 + 1 = (s + 1) * ataSectorSize + 0 := by
    unfold ataSectorSize
    omega
  rw [rd16, second, flat_sector v (by decide), flat_sector v (by decide)]

/-- What writing a sector does to the bytes. -/
theorem fatWriteSector_flat (done : fatWriteSector v s buf = some v') :
    v.responds s = true ∧ v'.responds = v.responds ∧
      v'.sectors = Function.update v.sectors s buf ∧
      ∀ i, v'.flat i = if i / ataSectorSize = s then buf (i % ataSectorSize) else v.flat i := by
  unfold fatWriteSector at done
  split at done
  next responds =>
    obtain rfl := Option.some.inj done
    refine ⟨responds, rfl, rfl, fun i => ?_⟩
    unfold FatVolume.flat
    dsimp only
    split
    next same => rw [same, Function.update_self]
    next other => rw [Function.update_of_ne other]
  · exact absurd done (by simp)

theorem fatReadSector_eq_some (read : fatReadSector v s = some buf) :
    v.responds s = true ∧ buf = v.sectors s := by
  unfold fatReadSector at read
  split at read
  next responds => exact ⟨responds, (Option.some.inj read).symm⟩
  · exact absurd read (by simp)

/-- Bytes that are those of the sector inside it, and those of the volume outside. -/
theorem flat_eq {p : Bytes} (done : fatWriteSector v s buf = some v')
    (inside : ∀ j < ataSectorSize, p (s * ataSectorSize + j) = buf j)
    (outside : ∀ i, i / ataSectorSize ≠ s → p i = v.flat i) : v'.flat = p := by
  funext i
  rw [(fatWriteSector_flat done).2.2.2 i]
  split
  next same =>
    have place : s * ataSectorSize + i % ataSectorSize = i := by
      rw [← same, Nat.mul_comm]
      exact Nat.div_add_mod i ataSectorSize
    rw [← inside _ (Nat.mod_lt i (by decide)), place]
  next other => exact (outside i other).symm

theorem flat_wr16 (lt : o + 2 ≤ ataSectorSize)
    (done : fatWriteSector v s (wr16 (v.sectors s) o nv) = some v') :
    v'.flat = wr16 v.flat (s * ataSectorSize + o) nv := by
  refine flat_eq done (fun j inner => wr16_shift (flat_sector v inner)) fun i other => ?_
  unfold ataSectorSize at lt other ⊢
  exact wr16_of_apart (by omega)

theorem flat_wr32 (lt : o + 4 ≤ ataSectorSize)
    (done : fatWriteSector v s (wr32 (v.sectors s) o nv) = some v') :
    v'.flat = wr32 v.flat (s * ataSectorSize + o) nv := by
  refine flat_eq done (fun j inner => wr32_shift (flat_sector v inner)) fun i other => ?_
  unfold ataSectorSize at lt other ⊢
  exact wr32_of_apart (by omega)

/-- A store whose two bytes lie in two sectors. -/
theorem flat_two_sectors {v'' : FatVolume} {low high : UInt8}
    (lowEq : low = UInt8.ofNat nv) (highEq : high = UInt8.ofNat (nv / 256))
    (first : fatWriteSector v s (Function.update (v.sectors s) 511 low) = some v')
    (second : fatWriteSector v' (s + 1) (Function.update (v.sectors (s + 1)) 0 high) = some v'') :
    v''.flat = wr16 v.flat (s * ataSectorSize + 511) nv := by
  funext i
  rw [(fatWriteSector_flat second).2.2.2 i, (fatWriteSector_flat first).2.2.2 i]
  subst lowEq highEq
  unfold ataSectorSize
  split
  next inSecond =>
    rcases Nat.eq_zero_or_pos (i % 512) with start | later
    · have place : i = s * 512 + 511 + 1 := by omega
      rw [start, Function.update_self, wr16, if_neg (by omega), if_pos place]
    · rw [Function.update_of_ne (Nat.ne_of_gt later), wr16_of_apart (.inr (by omega)), ← inSecond]
      rfl
  next =>
    split
    next inFirst =>
      rcases eq_or_ne (i % 512) 511 with last | earlier
      · have place : i = s * 512 + 511 := by omega
        rw [last, Function.update_self, wr16, if_pos place]
      · rw [Function.update_of_ne earlier, wr16_of_apart (.inl (by omega)), ← inFirst]
        rfl
    next => exact (wr16_of_apart (by omega)).symm

end Sectors

/-! ## The geometry -/

/-- What a mounted filesystem has of the geometry. -/
structure FatFs.Sound (fs : FatFs) : Prop where
  sectorSize : fs.bytesPerSector = ataSectorSize
  firstFat : fs.firstFatSector < 65536
  copies : 0 < fs.fatCount

theorem of_ite_error {c : Prop} [Decidable c] {ε α : Type} {e : ε} {x : Except ε α} {y : α}
    (eq : (if c then Except.error e else x) = .ok y) : ¬ c ∧ x = .ok y := by
  by_cases fails : c
  · rw [if_pos fails] at eq
    cases eq
  · rw [if_neg fails] at eq
    exact ⟨fails, eq⟩

/-- What has been read and what has been checked when the mount succeeds. -/
theorem fatFsMount_checks {v : FatVolume} {fs : FatFs} (mounted : fatFsMount v = .ok fs) :
    fs = fatGeometry (v.sectors 0) ∧ fs.bytesPerSector = ataSectorSize ∧ fs.fatCount ≠ 0 ∧
      fs.sectorsPerCluster ≠ 0 ∧ 2 < fatFatEntryCount fs := by
  unfold fatFsMount at mounted
  dsimp only at mounted
  obtain ⟨-, mounted⟩ := of_ite_error mounted
  obtain ⟨-, mounted⟩ := of_ite_error mounted
  obtain ⟨sizes, mounted⟩ := of_ite_error mounted
  obtain ⟨-, mounted⟩ := of_ite_error mounted
  obtain ⟨-, mounted⟩ := of_ite_error mounted
  obtain ⟨-, mounted⟩ := of_ite_error mounted
  obtain ⟨entries, mounted⟩ := of_ite_error mounted
  obtain ⟨-, mounted⟩ := of_ite_error mounted
  obtain ⟨-, mounted⟩ := of_ite_error mounted
  obtain ⟨-, mounted⟩ := of_ite_error mounted
  obtain rfl := Except.ok.inj mounted
  simp only [not_or, not_not] at sizes
  exact ⟨rfl, sizes.1, sizes.2.2.1, sizes.2.1, Nat.lt_of_not_le entries⟩

theorem fatFsMount_sound {v : FatVolume} {fs : FatFs} (mounted : fatFsMount v = .ok fs) :
    fs.Sound := by
  obtain ⟨geometry, size, copies, -, -⟩ := fatFsMount_checks mounted
  refine ⟨size, ?_, Nat.pos_of_ne_zero copies⟩
  rw [geometry]
  exact rd16_lt

section Geometry

variable {fs : FatFs} {c d fi fj : Nat}

/-- The entries counted lie in the table. -/
theorem offset_bound (sound : fs.Sound) (inTable : c < fatFatEntryCount fs) :
    fs.type.offset c + fs.type.width ≤ fs.sectorsPerFat * ataSectorSize ∧
      fs.type.offset c + fs.type.width ≤ 4294967296 := by
  unfold fatFatEntryCount at inTable
  rw [sound.sectorSize] at inTable
  generalize fs.sectorsPerFat * ataSectorSize = bytes at inTable ⊢
  unfold u32 at inTable
  cases type : fs.type with
  | fat12 =>
      simp only [type] at inTable
      simp only [FatType.offset, FatType.width]
      omega
  | fat16 =>
      simp only [type] at inTable
      simp only [FatType.offset, FatType.width]
      omega
  | fat32 =>
      simp only [type] at inTable
      simp only [FatType.offset, FatType.width]
      omega

/-- Two copies do not overlap. -/
theorem copies_apart (sound : fs.Sound) (inTable : d < fatFatEntryCount fs) (before : fi < fj) :
    fs.entryPos fi d + fs.type.width ≤ fs.entryPos fj c := by
  have bound := (offset_bound sound inTable).1
  have steps : (fi + 1) * fs.sectorsPerFat ≤ fj * fs.sectorsPerFat :=
    Nat.mul_le_mul_right _ before
  rw [Nat.add_mul, Nat.one_mul] at steps
  unfold FatFs.entryPos
  generalize fi * fs.sectorsPerFat = a at steps ⊢
  generalize fj * fs.sectorsPerFat = b at steps ⊢
  unfold ataSectorSize at bound ⊢
  omega

/-- The copy's entry lies below sector `2 ^ 32`. -/
def Below (fs : FatFs) (fi c : Nat) : Prop :=
  fs.entryPos fi c + fs.type.width ≤ 4294967296 * ataSectorSize

/-- The sector the source computes, and the byte in it. -/
theorem sector_eq (sound : fs.Sound) (inTable : c < fatFatEntryCount fs) (fi : Nat) :
    u32 (fs.type.offset c) = fs.type.offset c ∧
      fs.entryPos fi c = (fs.firstFatSector + fi * fs.sectorsPerFat +
          fs.type.offset c / fs.bytesPerSector) * ataSectorSize +
        fs.type.offset c % fs.bytesPerSector ∧
      u32 (u32 (fs.firstFatSector + u32 (fi * fs.sectorsPerFat)) +
          fs.type.offset c / fs.bytesPerSector) =
        u32 (fs.firstFatSector + fi * fs.sectorsPerFat +
          fs.type.offset c / fs.bytesPerSector) := by
  have bound := (offset_bound sound inTable).2
  have positive : 0 < fs.type.width := by cases fs.type <;> decide
  rw [sound.sectorSize]
  unfold FatFs.entryPos
  generalize fi * fs.sectorsPerFat = a
  unfold u32 ataSectorSize
  omega

/-- The two sectors an entry lies in, mostly one. -/
def Answers (fs : FatFs) (v : FatVolume) (fi c : Nat) : Prop :=
  v.responds (fs.entryPos fi c / ataSectorSize) = true ∧
    v.responds ((fs.entryPos fi c + fs.type.width - 1) / ataSectorSize) = true

instance (fs : FatFs) (v : FatVolume) (fi c : Nat) : Decidable (Answers fs v fi c) :=
  inferInstanceAs (Decidable (_ ∧ _))

/-- An entry that does not reach the end of its sector, in the terms of the source. -/
theorem place_eq {pos s o width : Nat} (place : pos = s * ataSectorSize + o)
    (inside : o + width ≤ ataSectorSize) (some_ : 0 < width) :
    pos / ataSectorSize = s ∧ (pos + width - 1) / ataSectorSize = s := by
  unfold ataSectorSize at *
  omega

theorem FatType.cases (t : FatType) : t = .fat12 ∨ t = .fat16 ∨ t = .fat32 := by
  cases t with
  | fat12 => exact .inl rfl
  | fat16 => exact .inr (.inl rfl)
  | fat32 => exact .inr (.inr rfl)

/-- Reading an entry is reading its bytes in the first copy. -/
theorem fatReadFatEntry_eq (sound : fs.Sound) (inTable : c < fatFatEntryCount fs) (v : FatVolume) :
    fatReadFatEntry fs v c =
      if Answers fs v 0 c then some (entryAt fs.type v.flat (fs.entryPos 0 c) c) else none := by
  obtain ⟨exact_, place, -⟩ := sector_eq sound inTable 0
  have bound := (offset_bound sound inTable).2
  have low := sound.firstFat
  rw [Nat.zero_mul, Nat.add_zero] at place
  rw [sound.sectorSize] at place
  unfold fatReadFatEntry Answers
  rw [sound.sectorSize]
  -- the sector number does not wrap
  have first : ∀ k ≤ 8388609, u32 (fs.firstFatSector + k) = fs.firstFatSector + k := by
    intro k le
    unfold u32
    omega
  rcases fs.type.cases with type | type | type
  · simp only [type, FatType.offset, FatType.width] at exact_ place bound ⊢
    have small : (c + c / 2) / ataSectorSize ≤ 8388608 := by
      unfold ataSectorSize
      omega
    rw [exact_, first _ (by omega)]
    have next := first ((c + c / 2) / ataSectorSize + 1) (by omega)
    rw [← Nat.add_assoc] at next
    have ltOff : (c + c / 2) % ataSectorSize < ataSectorSize := Nat.mod_lt _ (by decide)
    generalize fs.firstFatSector + (c + c / 2) / ataSectorSize = s at place next ⊢
    generalize (c + c / 2) % ataSectorSize = o at place ltOff ⊢
    by_cases straddles : o = ataSectorSize - 1
    · have sector : fs.entryPos 0 c / ataSectorSize = s ∧
          (fs.entryPos 0 c + 2 - 1) / ataSectorSize = s + 1 := by
        unfold ataSectorSize at *
        omega
      rw [sector.1, sector.2, next, place]
      simp only [if_pos straddles, fatReadSector]
      rw [straddles]
      by_cases here : v.responds s = true
      · by_cases there : v.responds (s + 1) = true
        · simp only [here, there, and_self, if_true, Option.bind_some, Option.map_some, entryAt]
          rw [show ataSectorSize - 1 = 511 from rfl, rd16_two_sectors v]
        · simp [here, there]
      · simp [here]
    · have inside : o + 2 ≤ ataSectorSize := by omega
      obtain ⟨sector, last⟩ := place_eq place inside (by decide)
      rw [sector, last, place]
      simp only [if_neg straddles, and_self, fatReadSector]
      split
      · simp only [Option.bind_some, Option.map_some, entryAt, rd16_sector v inside]
        rfl
      · rfl
  · simp only [type, FatType.offset, FatType.width] at exact_ place bound ⊢
    have inside : c * 2 % ataSectorSize + 2 ≤ ataSectorSize := by
      unfold ataSectorSize
      omega
    obtain ⟨sector, last⟩ := place_eq place inside (by decide)
    rw [exact_, first _ (by unfold ataSectorSize; omega), sector, last, place]
    simp only [and_self, fatReadSector]
    split
    · simp only [Option.map_some, entryAt, rd16_sector v inside]
    · rfl
  · simp only [type, FatType.offset, FatType.width] at exact_ place bound ⊢
    have inside : c * 4 % ataSectorSize + 4 ≤ ataSectorSize := by
      unfold ataSectorSize
      omega
    obtain ⟨sector, last⟩ := place_eq place inside (by decide)
    rw [exact_, first _ (by unfold ataSectorSize; omega), sector, last, place]
    simp only [and_self, fatReadSector]
    split
    · simp only [Option.map_some, entryAt, rd32_sector v inside]
    · rfl

/-- Writing the entry of one copy is storing it there. -/
theorem fatWriteCopy_eq {v v' : FatVolume} {value : Nat} (sound : fs.Sound)
    (inTable : c < fatFatEntryCount fs) (below : Below fs fi c)
    (done : fatWriteCopy fs v fi c value = some v') :
    v'.responds = v.responds ∧ Answers fs v fi c ∧
      v'.flat = entryPut fs.type v.flat (fs.entryPos fi c) c value := by
  obtain ⟨exact_, place, wraps⟩ := sector_eq sound inTable fi
  rw [sound.sectorSize] at place wraps
  unfold fatWriteCopy at done
  unfold Below at below
  rcases fs.type.cases with type | type | type
  · simp only [type, FatType.offset, FatType.width] at exact_ place wraps below
    simp only [type, fatWriteFat12Single, sound.sectorSize, exact_, wraps] at done
    simp only [Answers, type, FatType.width]
    have ltOff : (c + c / 2) % ataSectorSize < ataSectorSize := Nat.mod_lt _ (by decide)
    generalize fs.firstFatSector + fi * fs.sectorsPerFat + (c + c / 2) / ataSectorSize = s
      at place done ⊢
    generalize (c + c / 2) % ataSectorSize = o at place ltOff done ⊢
    have low : u32 s = s := by
      unfold u32
      unfold ataSectorSize at place below
      omega
    rw [low] at done
    obtain ⟨s0, read0, done⟩ := Option.bind_eq_some_iff.1 done
    obtain ⟨answers, rfl⟩ := fatReadSector_eq_some read0
    by_cases straddles : o = ataSectorSize - 1
    · have sector : fs.entryPos fi c / ataSectorSize = s ∧
          (fs.entryPos fi c + 2 - 1) / ataSectorSize = s + 1 := by
        unfold ataSectorSize at *
        omega
      have lowNext : u32 (s + 1) = s + 1 := by
        unfold u32
        unfold ataSectorSize at place below straddles
        omega
      rw [if_pos straddles, lowNext] at done
      obtain ⟨s1, read1, done⟩ := Option.bind_eq_some_iff.1 done
      obtain ⟨answers', rfl⟩ := fatReadSector_eq_some read1
      obtain ⟨mid, first, second⟩ := Option.bind_eq_some_iff.1 done
      rw [sector.1, sector.2, place, straddles]
      rw [straddles] at first second
      refine ⟨?_, ⟨answers, answers'⟩, ?_⟩
      · exact (fatWriteSector_flat second).2.1.trans (fatWriteSector_flat first).2.1
      · rw [flat_two_sectors rfl rfl first second, entryPut]
        exact congrArg (wr16 v.flat _) (congrArg (withHalf c · (value % 4096))
          (rd16_two_sectors v).symm)
    · have inside : o + 2 ≤ ataSectorSize := by omega
      obtain ⟨sector, last⟩ := place_eq place inside (by decide)
      rw [if_neg straddles] at done
      rw [sector, last, place]
      refine ⟨(fatWriteSector_flat done).2.1, ⟨answers, answers⟩, ?_⟩
      rw [flat_wr16 inside done, entryPut, rd16_sector v inside]
  · simp only [type, FatType.offset, FatType.width] at exact_ place wraps below
    simp only [type, sound.sectorSize, exact_, wraps] at done
    simp only [Answers, type, FatType.width]
    have inside : c * 2 % ataSectorSize + 2 ≤ ataSectorSize := by
      unfold ataSectorSize
      omega
    obtain ⟨sector, last⟩ := place_eq place inside (by decide)
    generalize fs.firstFatSector + fi * fs.sectorsPerFat + c * 2 / ataSectorSize = s
      at place done sector last ⊢
    have low : u32 s = s := by
      unfold u32
      unfold ataSectorSize at place below
      omega
    rw [low] at done
    obtain ⟨sec, read, done⟩ := Option.bind_eq_some_iff.1 done
    obtain ⟨answers, rfl⟩ := fatReadSector_eq_some read
    rw [sector, last, place]
    exact ⟨(fatWriteSector_flat done).2.1, ⟨answers, answers⟩, flat_wr16 inside done⟩
  · simp only [type, FatType.offset, FatType.width] at exact_ place wraps below
    simp only [type, sound.sectorSize, exact_, wraps] at done
    simp only [Answers, type, FatType.width]
    have inside : c * 4 % ataSectorSize + 4 ≤ ataSectorSize := by
      unfold ataSectorSize
      omega
    obtain ⟨sector, last⟩ := place_eq place inside (by decide)
    generalize fs.firstFatSector + fi * fs.sectorsPerFat + c * 4 / ataSectorSize = s
      at place done sector last ⊢
    have low : u32 s = s := by
      unfold u32
      unfold ataSectorSize at place below
      omega
    rw [low] at done
    obtain ⟨sec, read, done⟩ := Option.bind_eq_some_iff.1 done
    obtain ⟨answers, rfl⟩ := fatReadSector_eq_some read
    rw [sector, last, place]
    refine ⟨(fatWriteSector_flat done).2.1, ⟨answers, answers⟩, ?_⟩
    rw [flat_wr32 inside done, entryPut, rd32_sector v inside]

/-! ## All copies -/

section Copies

variable {v v' : FatVolume} {value n : Nat}

/-- The copies before the `n`-th are written. -/
def fatWriteCopies (fs : FatFs) (v : FatVolume) (n cluster value : Nat) : Option FatVolume :=
  (List.range n).foldlM (fun v fi => fatWriteCopy fs v fi cluster value) v

theorem fatWriteCopies_succ (v : FatVolume) (n : Nat) :
    fatWriteCopies fs v (n + 1) c value =
      (fatWriteCopies fs v n c value).bind fun v => fatWriteCopy fs v n c value := by
  unfold fatWriteCopies
  rw [List.range_succ, List.foldlM_append]
  cases (List.range n).foldlM (fun v fi => fatWriteCopy fs v fi c value) v with
  | none => rfl
  | some w =>
      show (fatWriteCopy fs w n c value).bind some = fatWriteCopy fs w n c value
      cases fatWriteCopy fs w n c value with
      | none => rfl
      | some w' => rfl

/-- What has been stored when the first `n` copies are written. -/
structure CopiesStored (fs : FatFs) (v v' : FatVolume) (n c value : Nat) : Prop where
  responds : v'.responds = v.responds
  answers : 0 < n → Answers fs v 0 c
  frame : ∀ i, (∀ fi < n, i < fs.entryPos fi c ∨ fs.entryPos fi c + fs.type.width ≤ i) →
    v'.flat i = v.flat i
  stored : ∀ fi < n, entryAt fs.type v'.flat (fs.entryPos fi c) c = fs.type.masked value
  reserved : fs.type = .fat32 → ∀ fi < n,
    rd32 v'.flat (fs.entryPos fi c) / 268435456 = rd32 v.flat (fs.entryPos fi c) / 268435456
  others : ∀ d, d ≠ c → d < fatFatEntryCount fs →
    entryAt fs.type v'.flat (fs.entryPos 0 d) d = entryAt fs.type v.flat (fs.entryPos 0 d) d

theorem fatWriteCopies_stored (sound : fs.Sound) (inTable : c < fatFatEntryCount fs)
    (below : ∀ fi < n, Below fs fi c) (done : fatWriteCopies fs v n c value = some v') :
    CopiesStored fs v v' n c value := by
  induction n generalizing v' with
  | zero =>
      obtain rfl := Option.some.inj done
      exact ⟨rfl, fun pos => absurd pos (by simp), fun _ _ => rfl, fun _ lt => absurd lt (by simp),
        fun _ _ lt => absurd lt (by simp), fun _ _ _ => rfl⟩
  | succ n ih =>
      rw [fatWriteCopies_succ] at done
      obtain ⟨w, before, last⟩ := Option.bind_eq_some_iff.1 done
      have so := ih (fun fi lt => below fi (Nat.lt_succ_of_lt lt)) before
      obtain ⟨responds, answers, flat⟩ :=
        fatWriteCopy_eq sound inTable (below n (Nat.lt_succ_self n)) last
      -- the last copy is apart from the bytes of the ones before it
      have kept : ∀ fi < n, ∀ d, d < fatFatEntryCount fs → ∀ i < fs.type.width,
          v'.flat (fs.entryPos fi d + i) = w.flat (fs.entryPos fi d + i) := by
        intro fi lt d dIn i ltI
        have apart := copies_apart (c := c) sound dIn lt
        rw [flat]
        exact entryPut_apart (.inl (by omega))
      refine ⟨responds.trans so.responds, fun _ => ?_, fun i off => ?_, fun fi lt => ?_,
        fun fat32 fi lt => ?_, fun d ne dIn => ?_⟩
      · rcases Nat.eq_zero_or_pos n with rfl | pos
        · have same : w.responds = v.responds := so.responds
          unfold Answers at answers ⊢
          rwa [same] at answers
        · exact so.answers pos
      · rw [flat, entryPut_apart (off n (Nat.lt_succ_self n))]
        exact so.frame i fun fi lt => off fi (Nat.lt_succ_of_lt lt)
      · rcases Nat.lt_succ_iff_lt_or_eq.1 lt with earlier | rfl
        · rw [entryAt_congr fun i ltI => kept fi earlier c inTable i ltI]
          exact so.stored fi earlier
        · rw [flat]
          exact entryPut_self
      · rcases Nat.lt_succ_iff_lt_or_eq.1 lt with earlier | rfl
        · rw [← so.reserved fat32 fi earlier]
          refine congrArg (· / 268435456) (rd32_congr fun i ltI => kept fi earlier c inTable i ?_)
          rwa [fat32]
        · rw [flat, fat32, entryPut_reserved]
          -- so far nothing was stored in this copy
          refine congrArg (· / 268435456) (rd32_congr fun i ltI => so.frame _ fun fj ltJ => ?_)
          exact .inr (Nat.le_trans (copies_apart sound inTable ltJ) (Nat.le_add_right _ _))
      · rw [← so.others d ne dIn]
        rcases Nat.eq_zero_or_pos n with rfl | pos
        · rw [flat]
          exact entryPut_neighbour ne
        · exact entryAt_congr fun i ltI => kept 0 pos d dIn i ltI

/-- No sector from `2 ^ 32` on is written. -/
theorem fatWriteCopy_low (done : fatWriteCopy fs v fi c value = some v') :
    v'.responds = v.responds ∧ ∀ s, 4294967296 ≤ s → v'.sectors s = v.sectors s := by
  have ne : ∀ s k, 4294967296 ≤ s → s ≠ u32 k := by
    intro s k le
    unfold u32
    omega
  have write : ∀ {w w' : FatVolume} {k : Nat} {buf : Bytes},
      fatWriteSector w (u32 k) buf = some w' →
      w'.responds = w.responds ∧ ∀ s, 4294967296 ≤ s → w'.sectors s = w.sectors s := by
    intro w w' k buf done
    obtain ⟨-, responds, sectors, -⟩ := fatWriteSector_flat done
    exact ⟨responds, fun s le => by rw [sectors, Function.update_of_ne (ne s k le)]⟩
  unfold fatWriteCopy at done
  rcases fs.type.cases with type | type | type
  · simp only [type, fatWriteFat12Single] at done
    obtain ⟨s0, -, done⟩ := Option.bind_eq_some_iff.1 done
    split at done
    · obtain ⟨s1, -, done⟩ := Option.bind_eq_some_iff.1 done
      obtain ⟨mid, first, second⟩ := Option.bind_eq_some_iff.1 done
      obtain ⟨responds, same⟩ := write first
      obtain ⟨responds', same'⟩ := write second
      exact ⟨responds'.trans responds, fun s le => (same' s le).trans (same s le)⟩
    · exact write done
  · simp only [type] at done
    obtain ⟨sec, -, done⟩ := Option.bind_eq_some_iff.1 done
    exact write done
  · simp only [type] at done
    obtain ⟨sec, -, done⟩ := Option.bind_eq_some_iff.1 done
    exact write done

theorem fatWriteCopies_low (done : fatWriteCopies fs v n c value = some v') :
    v'.responds = v.responds ∧ ∀ s, 4294967296 ≤ s → v'.sectors s = v.sectors s := by
  induction n generalizing v' with
  | zero =>
      obtain rfl := Option.some.inj done
      exact ⟨rfl, fun _ _ => rfl⟩
  | succ n ih =>
      rw [fatWriteCopies_succ] at done
      obtain ⟨w, before, last⟩ := Option.bind_eq_some_iff.1 done
      obtain ⟨responds, same⟩ := ih before
      obtain ⟨responds', same'⟩ := fatWriteCopy_low last
      exact ⟨responds'.trans responds, fun s le => (same' s le).trans (same s le)⟩

/-- On a drive that transfers every sector a write succeeds. -/
theorem fatWriteCopy_total (fs : FatFs) (fi c value : Nat) (all : ∀ s, v.responds s = true) :
    ∃ v', fatWriteCopy fs v fi c value = some v' := by
  have write : ∀ {w : FatVolume} {s : Nat} {buf : Bytes}, (∀ s, w.responds s = true) →
      ∃ w', fatWriteSector w s buf = some w' ∧ ∀ s, w'.responds s = true := by
    intro w s buf allW
    exact ⟨_, if_pos (allW s), allW⟩
  have read : ∀ s, fatReadSector v s = some (v.sectors s) := fun s => if_pos (all s)
  unfold fatWriteCopy
  rcases fs.type.cases with type | type | type
  · simp only [type, fatWriteFat12Single, read, Option.bind_some]
    split
    · obtain ⟨mid, first, allMid⟩ := write all
      rw [first]
      obtain ⟨v', second, -⟩ := write allMid
      exact ⟨v', second⟩
    · obtain ⟨v', done, -⟩ := write all
      exact ⟨v', done⟩
  · simp only [type, read, Option.bind_some]
    obtain ⟨v', done, -⟩ := write all
    exact ⟨v', done⟩
  · simp only [type, read, Option.bind_some]
    obtain ⟨v', done, -⟩ := write all
    exact ⟨v', done⟩

theorem fatWriteCopies_total (fs : FatFs) (n c value : Nat) (all : ∀ s, v.responds s = true) :
    ∃ v', fatWriteCopies fs v n c value = some v' := by
  induction n with
  | zero => exact ⟨v, rfl⟩
  | succ n ih =>
      obtain ⟨w, before⟩ := ih
      have allW : ∀ s, w.responds s = true := fun s => by
        rw [(fatWriteCopies_low before).1]
        exact all s
      obtain ⟨v', last⟩ := fatWriteCopy_total fs n c value allW
      exact ⟨v', by rw [fatWriteCopies_succ, before, Option.bind_some, last]⟩

end Copies

/-! ## The store law -/

/-- The entry of a cluster has been stored: it reads back, all copies have it, the other
entries read as before, the top four bits of a FAT32 entry are kept, and outside the
table nothing has changed. -/
structure EntryStored (fs : FatFs) (v v' : FatVolume) (c value : Nat) : Prop where
  readsBack : fatReadFatEntry fs v' c = some (fs.type.masked value)
  others : ∀ d, d ≠ c → d < fatFatEntryCount fs →
    fatReadFatEntry fs v' d = fatReadFatEntry fs v d
  copies : ∀ fi < fs.fatCount,
    entryAt fs.type v'.flat (fs.entryPos fi c) c = fs.type.masked value
  reserved : fs.type = .fat32 → ∀ fi < fs.fatCount,
    rd32 v'.flat (fs.entryPos fi c) / 268435456 = rd32 v.flat (fs.entryPos fi c) / 268435456
  outside : ∀ s, s < fs.firstFatSector ∨ fs.firstFatSector + fs.fatCount * fs.sectorsPerFat ≤ s →
    ∀ o < ataSectorSize, v'.sectors s o = v.sectors s o

/-- Every write of the entry that succeeds stores it. -/
def StoresEntry (fs : FatFs) (c : Nat) : Prop :=
  ∀ v v' value, fatWriteFatEntry fs v c value = some v' → EntryStored fs v v' c value

/-- Every copy lies in the table, and the last one is the highest. -/
theorem copy_inside (sound : fs.Sound) (inTable : c < fatFatEntryCount fs) (lt : fi < fs.fatCount) :
    fs.firstFatSector * ataSectorSize ≤ fs.entryPos fi c ∧
      fs.entryPos fi c ≤ fs.entryPos (fs.fatCount - 1) c ∧
      fs.entryPos fi c + fs.type.width ≤
        (fs.firstFatSector + fs.fatCount * fs.sectorsPerFat) * ataSectorSize := by
  have bound := (offset_bound sound inTable).1
  have steps : (fi + 1) * fs.sectorsPerFat ≤ fs.fatCount * fs.sectorsPerFat :=
    Nat.mul_le_mul_right _ lt
  have last : fi * fs.sectorsPerFat ≤ (fs.fatCount - 1) * fs.sectorsPerFat :=
    Nat.mul_le_mul_right _ (Nat.le_sub_one_of_lt lt)
  rw [Nat.add_mul, Nat.one_mul] at steps
  unfold FatFs.entryPos
  generalize fi * fs.sectorsPerFat = a at steps last ⊢
  generalize fs.fatCount * fs.sectorsPerFat = b at steps ⊢
  generalize (fs.fatCount - 1) * fs.sectorsPerFat = e at last ⊢
  unfold ataSectorSize at bound ⊢
  omega

/-- Below sector `2 ^ 32` the entry is stored. -/
theorem storesEntry_of_below (sound : fs.Sound) (inTable : c < fatFatEntryCount fs)
    (below : Below fs (fs.fatCount - 1) c) : StoresEntry fs c := by
  intro v v' value done
  have belowAll : ∀ fi < fs.fatCount, Below fs fi c := fun fi lt =>
    Nat.le_trans (Nat.add_le_add_right (copy_inside sound inTable lt).2.1 _) below
  have so : CopiesStored fs v v' fs.fatCount c value :=
    fatWriteCopies_stored sound inTable belowAll done
  -- the drive transfers the same sectors as before
  have same : ∀ d, Answers fs v' 0 d ↔ Answers fs v 0 d := by
    intro d
    unfold Answers
    rw [so.responds]
  refine ⟨?_, fun d ne dIn => ?_, so.stored, so.reserved, fun s away o lt => ?_⟩
  · rw [fatReadFatEntry_eq sound inTable, if_pos ((same c).2 (so.answers sound.copies)),
      so.stored 0 sound.copies]
  · rw [fatReadFatEntry_eq sound dIn, fatReadFatEntry_eq sound dIn, so.others d ne dIn]
    simp only [same]
  · rw [← flat_sector v' lt, ← flat_sector v lt]
    refine so.frame _ fun fi ltFi => ?_
    obtain ⟨start, -, stop⟩ := copy_inside sound inTable ltFi
    unfold ataSectorSize at start stop lt ⊢
    generalize fs.fatCount * fs.sectorsPerFat = b at away stop
    omega

/-- An entry whose last byte is zero does not hold the largest value. -/
theorem entryAt_ne_largest {t : FatType} {p : Bytes} {pos : Nat}
    (zero : p (pos + t.width - 1) = 0) : entryAt t p pos c ≠ t.masked 4294967295 := by
  have low := (p pos).toNat_lt
  have second := (p (pos + 1)).toNat_lt
  have third := (p (pos + 2)).toNat_lt
  cases t with
  | fat12 =>
      have last : (p (pos + 1)).toNat = 0 := congrArg UInt8.toNat zero
      simp only [entryAt, rd16, half, FatType.masked, last]
      split <;> omega
  | fat16 =>
      have last : (p (pos + 1)).toNat = 0 := congrArg UInt8.toNat zero
      simp only [entryAt, rd16, FatType.masked, last]
      omega
  | fat32 =>
      have last : (p (pos + 3)).toNat = 0 := congrArg UInt8.toNat zero
      simp only [entryAt, rd32, FatType.masked, last]
      omega

/-- Behind sector `2 ^ 32` the last copy is missed. -/
theorem not_storesEntry_of_wraps (sound : fs.Sound) (wraps : ¬ Below fs (fs.fatCount - 1) c) :
    ¬ StoresEntry fs c := by
  intro stores
  let v : FatVolume := ⟨fun _ _ => 0, fun _ => true⟩
  obtain ⟨v', done⟩ := fatWriteCopies_total (v := v) fs fs.fatCount c 4294967295 fun _ => rfl
  have copies := (stores v v' 4294967295 done).copies (fs.fatCount - 1)
    (Nat.sub_one_lt_of_lt sound.copies)
  refine entryAt_ne_largest ?_ copies
  have kept := (fatWriteCopies_low done).2
  unfold Below at wraps
  have positive : 0 < fs.type.width := by cases fs.type <;> decide
  have high : 4294967296 ≤
      (fs.entryPos (fs.fatCount - 1) c + fs.type.width - 1) / ataSectorSize := by
    unfold ataSectorSize at wraps ⊢
    omega
  rw [FatVolume.flat, kept _ high]

end Geometry

/-- Writing an entry of a mounted volume stores it and changes nothing else, exactly if
its last copy lies below sector `2 ^ 32`. -/
theorem fat_entry_store_iff {v₀ : FatVolume} {fs : FatFs} {c : Nat}
    (mounted : fatFsMount v₀ = .ok fs) (inTable : c < fatFatEntryCount fs) :
    StoresEntry fs c ↔
      fs.entryPos (fs.fatCount - 1) c + fs.type.width ≤ 4294967296 * ataSectorSize := by
  have sound := fatFsMount_sound mounted
  refine ⟨fun stores => ?_, storesEntry_of_below sound inTable⟩
  by_contra wraps
  exact not_storesEntry_of_wraps sound wraps stores

/-- A volume with the given bytes in its boot sector. -/
def bootVolume (bytes : List (Nat × UInt8)) : FatVolume :=
  ⟨fun _ i => (bytes.lookup i).getD 0, fun _ => true⟩

/-- A FAT12 floppy: two copies of nine sectors. -/
def floppy : FatVolume :=
  bootVolume [(12, 2), (13, 1), (14, 1), (16, 2), (17, 224), (19, 64), (20, 11), (22, 9),
    (510, 0x55), (511, 0xAA)]

/-- The entry of cluster 341 lies in two sectors. -/
theorem floppy_stores : StoresEntry (fatGeometry (floppy.sectors 0)) 341 ↔
    (fatGeometry (floppy.sectors 0)).entryPos 1 341 + 2 ≤ 4294967296 * ataSectorSize := by
  have mounted : fatFsMount floppy = .ok (fatGeometry (floppy.sectors 0)) := rfl
  exact fat_entry_store_iff mounted (by decide)

/-- A FAT32 volume of 4294967295 sectors whose boot sector gives each of four copies
1431655932 sectors. -/
def wrappingVolume : FatVolume :=
  bootVolume [(12, 2), (13, 1), (14, 1), (16, 4), (32, 255), (33, 255), (34, 255), (35, 255),
    (36, 0xFC), (37, 0x55), (38, 0x55), (39, 0x55), (44, 2), (510, 0x55), (511, 0xAA)]

/-- It is mounted, and a write to its cluster 2 misses the last copy. -/
theorem wrapping_copy_missed :
    ¬ ∀ (v₀ : FatVolume) (fs : FatFs) (c : Nat), fatFsMount v₀ = .ok fs →
      c < fatFatEntryCount fs → StoresEntry fs c := by
  intro always
  have mounted : fatFsMount wrappingVolume = .ok (fatGeometry (wrappingVolume.sectors 0)) := rfl
  have sound := fatFsMount_sound mounted
  have wraps : ¬ Below (fatGeometry (wrappingVolume.sectors 0))
      ((fatGeometry (wrappingVolume.sectors 0)).fatCount - 1) 2 := by
    unfold Below
    decide
  exact not_storesEntry_of_wraps sound wraps (always wrappingVolume _ 2 mounted (by decide))

end NTux.Fat
