import NTux.Fat.Format

/-!
# Formatted FAT volumes

The mount reads back what the format has stored (`fatGeometry_mkfsBoot`).  Whether it
comes to the same number of clusters depends on the size of the table, and whether it
finds the root directory on the sector numbers (`mkfs_then_mount_iff`).
-/

namespace NTux.Fat

open NTux.Lib NTux.Lib.Bytes

variable {l : FatLayout} {lba total c : Nat} {d d' v : FatVolume}

/-! ## The layout -/

theorem rootSectors_of (t : FatType) :
    rootSectors (rootEntriesOf t) = if t = .fat32 then 0 else 32 := by
  cases t <;> decide

theorem reservedOf_bounds (t : FatType) : 0 < reservedOf t ∧ reservedOf t ≤ 32 := by
  cases t <;> decide

/-- The table of FAT12 and FAT16 is small. -/
theorem LayoutOk.spf_le_of_small (ok : LayoutOk total l) (small : l.type ≠ .fat32) :
    l.spf ≤ 2048 := by
  have few : l.clusters < 65525 := by
    have := ok.allows
    cases type : l.type with
    | fat12 =>
        simp only [type, typeAllows, decide_eq_true_eq] at this
        omega
    | fat16 =>
        simp only [type, typeAllows, Bool.and_eq_true, decide_eq_true_eq] at this
        omega
    | fat32 => exact absurd type small
  have grow := fsFatSpfFromClusters_add (t := l.type) 0 l.clusters 32768 (by omega)
  have base : fsFatSpfFromClusters 0 l.type = 1 := by cases l.type <;> decide
  have := ok.spf_le
  omega

/-- There is room for a cluster behind the root directory. -/
theorem LayoutOk.room (ok : LayoutOk total l) :
    firstRoot l + rootSectors l.rootEntries + l.spc ≤ total := by
  have pos := ok.clusters_pos
  have inside := ok.inside
  rw [ok.clusters_eq, clustersBeside, Nat.div_pos_iff] at pos
  unfold firstRoot
  omega

/-- The entries of the table as the mount counts them. -/
def tableEntries (l : FatLayout) : Nat :=
  match l.type with
  | .fat12 => l.spf * 512 * 2 / 3
  | .fat16 => l.spf * 512 / 2
  | .fat32 => l.spf * 512 / 4

/-- They are enough just when the search has come to rest. -/
theorem enough_entries_iff (ok : LayoutOk total l) :
    l.clusters + 2 ≤ tableEntries l ↔ l.spf = fsFatSpfFromClusters l.clusters l.type := by
  have le := ok.spf_le
  have pos := ok.spf_pos
  unfold tableEntries fsFatSpfFromClusters ataSectorSize at *
  cases type : l.type <;> simp only [type] at le ⊢ <;> split at le <;>
    split <;> omega

/-- What the mount makes of the boot sector. -/
def mountedFs (l : FatLayout) (sectors : Nat) : FatFs :=
  ⟨l.type, ataSectorSize, l.spc, l.reserved, 2, l.rootEntries, sectors, l.spf,
    rootSectors l.rootEntries, l.reserved, firstRoot l, firstRoot l + rootSectors l.rootEntries,
    min l.clusters (tableEntries l - 2), if l.type = .fat32 then 2 else 0⟩

/-! ## The boot sector -/

theorem splice_one (p : Bytes) (o : Nat) (v : UInt8) : splice p o 1 (fun _ => v) o = v :=
  splice_of_mem (o := o) (i := 0) Nat.one_pos

/-- The fields of the boot sector. -/
structure BootFields (l : FatLayout) (sectors : Nat) (bs : Bytes) : Prop where
  sectorSize : rd16 bs 11 = 512
  spc : bs 13 = UInt8.ofNat l.spc
  reserved : rd16 bs 14 = l.reserved
  copies : bs 16 = 2
  rootEntries : rd16 bs 17 = l.rootEntries
  total16 : rd16 bs 19 = if l.type ≠ .fat32 ∧ sectors < 65536 then sectors else 0
  spf16 : rd16 bs 22 = if l.type = .fat32 then 0 else l.spf
  total32 : rd32 bs 32 = if l.type = .fat32 ∨ 65536 ≤ sectors then sectors else 0
  spf32 : l.type = .fat32 → rd32 bs 36 = l.spf
  root : l.type = .fat32 → rd32 bs 44 = 2
  sign : bs 510 = 0x55 ∧ bs 511 = 0xAA

/-- The types differ behind the first 36 bytes. -/
theorem mkfsBoot_low {sectors i : Nat} (lt : i < 36) :
    mkfsBoot l lba sectors i = mkfsBootCommon l lba sectors i := by
  unfold mkfsBoot
  cases l.type <;>
    simp (disch := omega) only [mkfsBoot16, mkfsBoot32, putText, putByte, splice_of_apart,
      wr16_of_apart, wr32_of_apart]

theorem mkfsBoot_fields {sectors : Nat} (picked : Picked sectors l) (lt : sectors < 4294967296) :
    BootFields l sectors (mkfsBoot l lba sectors) := by
  obtain ⟨ok, -⟩ := id picked
  have spfLt := picked.spf_lt lt
  have reservedLt : l.reserved < 65536 := by
    have := reservedOf_bounds l.type
    rw [ok.reserved_eq]
    omega
  have rootLt : l.rootEntries < 65536 := by
    rw [ok.rootEntries_eq]
    cases l.type <;> decide
  have total16 : (if l.type ≠ .fat32 ∧ sectors < 65536 then sectors else 0) < 65536 := by
    split <;> omega
  have total32 : (if l.type = .fat32 ∨ 65536 ≤ sectors then sectors else 0) < 4294967296 := by
    split <;> omega
  have spf16 : (if l.type = .fat32 then 0 else l.spf) < 65536 := by
    split
    · omega
    next small =>
      have := ok.spf_le_of_small small
      omega
  have size : ataSectorSize = 512 := rfl
  have low16 : ∀ o, o + 2 ≤ 36 →
      rd16 (mkfsBoot l lba sectors) o = rd16 (mkfsBootCommon l lba sectors) o :=
    fun o le => rd16_congr fun i lt => mkfsBoot_low (by omega)
  have low32 : rd32 (mkfsBoot l lba sectors) 32 = rd32 (mkfsBootCommon l lba sectors) 32 :=
    rd32_congr fun i lt => mkfsBoot_low (by omega)
  constructor
  case sectorSize | reserved | rootEntries | total16 | spf16 =>
    rw [low16 _ (by omega)]
    simp (disch := omega) only [mkfsBootCommon, putByte, size, rd16_wr32_of_apart,
      rd16_wr16_of_apart, rd16_splice_of_apart, rd16_wr16]
  case spc | copies =>
    rw [mkfsBoot_low (by omega)]
    simp (disch := omega) only [mkfsBootCommon, putByte, splice_one, splice_of_apart,
      wr16_of_apart, wr32_of_apart]
  case total32 =>
    rw [low32, mkfsBootCommon, rd32_wr32 total32]
  case spf32 | root =>
    intro fat32
    simp (disch := omega) only [mkfsBoot, fat32, mkfsBoot32, putText, putByte,
      rd32_splice_of_apart, rd32_wr16_of_apart, rd32_wr32_of_apart, rd32_wr32]
  case sign =>
    constructor
    · rw [mkfsBoot, putByte, putByte, splice_of_apart (by omega), splice_one]
    · rw [mkfsBoot, putByte, splice_one]

theorem u32_of_lt {n : Nat} (lt : n < 4294967296) : u32 n = n := Nat.mod_eq_of_lt lt

theorem firstRoot_lt (picked : Picked total l) (lt : total < 4294967296) :
    firstRoot l + rootSectors l.rootEntries < 8388608 := by
  have spfLt := picked.spf_lt lt
  have root := rootSectors_of l.type
  have low := reservedOf_bounds l.type
  unfold firstRoot
  rw [picked.1.rootEntries_eq, picked.1.reserved_eq, root]
  split <;> omega

theorem LayoutOk.type_of_clusters (ok : LayoutOk total l) :
    (if l.clusters < 4085 then FatType.fat12 else if l.clusters < 65525 then .fat16 else .fat32) =
      l.type := by
  have allows := ok.allows
  cases type : l.type with
  | fat12 =>
      simp only [type, typeAllows, decide_eq_true_eq] at allows
      exact if_pos allows
  | fat16 =>
      simp only [type, typeAllows, Bool.and_eq_true, decide_eq_true_eq] at allows
      rw [if_neg (by omega), if_pos allows.2]
  | fat32 =>
      simp only [type, typeAllows, decide_eq_true_eq] at allows
      rw [if_neg (by omega), if_neg (by omega)]

theorem fatFatEntryCount_eq {fs : FatFs} (picked : Picked total l) (lt : total < 4294967296)
    (type : fs.type = l.type) (spf : fs.sectorsPerFat = l.spf) (size : fs.bytesPerSector = 512) :
    fatFatEntryCount fs = tableEntries l := by
  have spfLt := picked.spf_lt lt
  unfold fatFatEntryCount tableEntries
  rw [type, spf, size, u32_of_lt (by omega)]
  cases l.type with
  | fat12 =>
      dsimp only
      rw [u32_of_lt (by omega)]
  | fat16 => rfl
  | fat32 => rfl

/-- The mount computes the layout of the format. -/
theorem fatGeometry_mkfsBoot {sectors : Nat} {bs : Bytes} (picked : Picked sectors l)
    (lt : sectors < 4294967296) (fields : BootFields l sectors bs) :
    fatGeometry bs = mountedFs l sectors := by
  obtain ⟨ok, -⟩ := id picked
  obtain ⟨spcPos, spcLe, -⟩ := spc_bounds ok.spc_mem
  have spfLt := picked.spf_lt lt
  have spfPos := ok.spf_pos
  have low := firstRoot_lt picked lt
  have room := ok.room
  have spc : (bs 13).toNat = l.spc := by
    rw [fields.spc, toNat_ofNat_byte, Nat.mod_eq_of_lt (by omega)]
  have spf : (if rd16 bs 22 = 0 then rd32 bs 36 else rd16 bs 22) = l.spf := by
    rw [fields.spf16]
    by_cases fat32 : l.type = .fat32
    · rw [if_pos fat32, if_pos rfl, fields.spf32 fat32]
    · rw [if_neg fat32, if_neg (by omega)]
  have all : (if rd16 bs 19 = 0 then rd32 bs 32 else rd16 bs 19) = sectors := by
    rw [fields.total16, fields.total32]
    by_cases short : l.type ≠ .fat32 ∧ sectors < 65536
    · rw [if_pos short, if_neg (by omega)]
    · rw [if_neg short, if_pos rfl, if_pos]
      by_cases fat32 : l.type = .fat32
      · exact .inl fat32
      · exact .inr (Nat.not_lt.1 fun lt => short ⟨fat32, lt⟩)
  have copies : (bs 16).toNat = 2 := by
    rw [fields.copies]
    rfl
  have first : u32 (l.reserved + u32 (2 * l.spf)) = firstRoot l := by
    unfold firstRoot at low ⊢
    rw [u32_of_lt (n := 2 * l.spf) (by omega), u32_of_lt (by omega)]
  have data : u32 (firstRoot l + rootSectors l.rootEntries) =
      firstRoot l + rootSectors l.rootEntries := u32_of_lt (by omega)
  have clusters : (sectors - (firstRoot l + rootSectors l.rootEntries)) / l.spc = l.clusters := by
    rw [ok.clusters_eq, clustersBeside]
    unfold firstRoot
    congr 1
    omega
  have root : (rd16 bs 17 * 32 + (ataSectorSize - 1)) / ataSectorSize =
      rootSectors l.rootEntries := by
    rw [fields.rootEntries]
    rfl
  have rootCluster : (if l.type = .fat32 then rd32 bs 44 else 0) =
      if l.type = .fat32 then 2 else 0 := by
    split
    next fat32 => rw [fields.root fat32]
    · rfl
  unfold fatGeometry
  dsimp only
  rw [root, spc, spf, all, copies, fields.reserved, first, data, clusters,
    ok.type_of_clusters, fields.sectorSize, fields.rootEntries, rootCluster,
    fatFatEntryCount_eq picked lt rfl rfl rfl]
  rfl

/-! ## The image -/

/-- What a sector below the data holds after the format. -/
def imageAt (l : FatLayout) (boot : Bytes) (s : Nat) : Bytes :=
  if s = 0 then boot
  else if s < l.reserved then
    if l.type = .fat32 ∧ s = 1 then mkfsInfo
    else if l.type = .fat32 ∧ s = 6 then boot
    else zeroSector
  else if s = l.reserved ∨ s = l.reserved + l.spf then tableHead l.type
  else zeroSector

section Image

variable {x : Nat × Bytes} {boot : Bytes} {s lbaStart sectors : Nat}

theorem mkfsReserved_image (ok : LayoutOk total l) (mem : x ∈ mkfsReserved l boot) :
    0 < x.1 ∧ x.1 < l.reserved ∧ x.2 = imageAt l boot x.1 := by
  have reserved := ok.reserved_eq
  unfold mkfsReserved at mem
  unfold imageAt
  split at mem
  next fat32 =>
    have count : l.reserved = 32 := by rw [reserved, fat32]; rfl
    simp only [List.mem_cons, List.mem_map, List.mem_filter, List.mem_range'_1, decide_not,
      Bool.not_eq_true', decide_eq_false_iff_not] at mem
    rcases mem with rfl | rfl | ⟨s, ⟨range, not6⟩, rfl⟩
    · simp [fat32, count]
    · simp [fat32, count]
    · dsimp only
      rw [if_neg (by omega), if_pos (by omega), if_neg (by omega), if_neg (by omega)]
      exact ⟨by omega, by omega, rfl⟩
  next small =>
    have count : l.reserved = 1 := by rw [reserved, reservedOf, if_neg small]
    rw [count] at mem
    simp at mem

theorem reserved_pos (ok : LayoutOk total l) : 0 < l.reserved :=
  ok.reserved_eq ▸ (reservedOf_bounds l.type).1

theorem imageAt_of_le (ok : LayoutOk total l) (le : l.reserved ≤ s) :
    imageAt l boot s =
      if s = l.reserved ∨ s = l.reserved + l.spf then tableHead l.type else zeroSector := by
  have pos := reserved_pos ok
  unfold imageAt
  rw [if_neg (by omega), if_neg (by omega)]

theorem mkfsTable_image (ok : LayoutOk total l) {fi : Nat} (copy : fi < 2)
    (mem : x ∈ mkfsTable l fi) :
    l.reserved ≤ x.1 ∧ x.1 < firstRoot l ∧ x.2 = imageAt l boot x.1 := by
  obtain ⟨s, range, rfl⟩ := List.mem_map.1 mem
  have lt := List.mem_range.1 range
  have start : fi * l.spf = 0 ∨ fi * l.spf = l.spf := by
    obtain rfl | rfl : fi = 0 ∨ fi = 1 := by omega
    · exact .inl (Nat.zero_mul _)
    · exact .inr (Nat.one_mul _)
  refine ⟨by dsimp only; omega, by unfold firstRoot; dsimp only; omega, ?_⟩
  rw [imageAt_of_le ok (by dsimp only; omega)]
  dsimp only
  by_cases head : s = 0
  · rw [if_pos head, if_pos (by omega)]
  · rw [if_neg head, if_neg (by omega)]

theorem mkfsRoot_image (ok : LayoutOk total l) (mem : x ∈ mkfsRoot l) :
    firstRoot l ≤ x.1 ∧ x.1 < total ∧ x.2 = imageAt l boot x.1 := by
  have room := ok.room
  have spf := ok.spf_pos
  have spc := (spc_bounds ok.spc_mem).1
  have place : ∃ s, x = (s, zeroSector) ∧ firstRoot l ≤ s ∧ s < total := by
    unfold mkfsRoot at mem
    split at mem
    · obtain ⟨s, range, rfl⟩ := List.mem_map.1 mem
      have := List.mem_range.1 range
      exact ⟨_, rfl, by omega, by omega⟩
    · obtain ⟨s, range, rfl⟩ := List.mem_map.1 mem
      have := List.mem_range.1 range
      exact ⟨_, rfl, by omega, by omega⟩
  obtain ⟨s, rfl, from_, below⟩ := place
  refine ⟨from_, below, ?_⟩
  unfold firstRoot at from_
  rw [imageAt_of_le ok (by dsimp only; omega), if_neg (by dsimp only; omega)]

/-- Everything written agrees with the image. -/
theorem mkfsWrites_image (ok : LayoutOk total l) (mem : x ∈ mkfsWrites l lbaStart sectors) :
    x.1 < total ∧ x.2 = imageAt l (mkfsBoot l lbaStart sectors) x.1 := by
  have room := ok.room
  have spc := (spc_bounds ok.spc_mem).1
  have below : l.reserved ≤ firstRoot l := Nat.le_add_right ..
  unfold mkfsWrites at mem
  simp only [List.mem_append, List.cons_append, List.mem_cons] at mem
  rcases mem with rfl | (mem | mem | mem) | mem
  · exact ⟨by omega, rfl⟩
  · obtain ⟨-, lt, same⟩ := mkfsReserved_image ok mem
    exact ⟨by omega, same⟩
  · obtain ⟨-, lt, same⟩ := mkfsTable_image ok (by omega) mem
    exact ⟨by omega, same⟩
  · obtain ⟨-, lt, same⟩ := mkfsTable_image ok (by omega) mem
    exact ⟨by omega, same⟩
  · obtain ⟨-, lt, same⟩ := mkfsRoot_image ok mem
    exact ⟨lt, same⟩

/-- The sectors that matter are among those written. -/
theorem mkfsWrites_covers (ok : LayoutOk total l) (lbaStart sectors : Nat)
    (place : s = 0 ∨ l.reserved ≤ s ∧ s < l.reserved + l.spf ∨ s = firstRoot l) :
    ∃ x ∈ mkfsWrites l lbaStart sectors, x.1 = s := by
  have spc := (spc_bounds ok.spc_mem).1
  have root := rootSectors_of l.type
  unfold mkfsWrites
  simp only [List.mem_append, List.cons_append, List.mem_cons]
  rcases place with rfl | ⟨low, high⟩ | rfl
  · exact ⟨_, .inl rfl, rfl⟩
  · refine ⟨_, .inr (.inl (.inr (.inl (List.mem_map.2 ⟨s - l.reserved, ?_, rfl⟩)))), ?_⟩
    · exact List.mem_range.2 (by omega)
    · dsimp only
      omega
  · unfold mkfsRoot
    rw [ok.rootEntries_eq, root]
    split
    next small =>
      exact ⟨_, .inr (.inr (List.mem_map.2 ⟨0, List.mem_range.2 (by omega), rfl⟩)), rfl⟩
    next fat32 =>
      rw [if_pos (not_not.1 fat32)]
      exact ⟨_, .inr (.inr (List.mem_map.2 ⟨0, List.mem_range.2 spc, rfl⟩)), rfl⟩

/-- Below sector `2 ^ 32` of the drive the sectors are those of the image. -/
theorem formatted_sector (ok : LayoutOk total l) (lt : total < 4294967296)
    (done : writeSectors lba (mkfsWrites l lba total) d = some d') (below : lba + s < 4294967296)
    (place : s = 0 ∨ l.reserved ≤ s ∧ s < l.reserved + l.spf ∨ s = firstRoot l) :
    (partition d' lba).sectors s = imageAt l (mkfsBoot l lba total) s ∧
      (partition d' lba).responds s = true := by
  obtain ⟨x, mem, here⟩ := mkfsWrites_covers ok lba total place
  obtain ⟨responds, all⟩ := writeSectors_responds done
  have address : u32 (lba + x.1) = lba + s := by rw [here, u32_of_lt below]
  constructor
  · show d'.sectors (lba + s) = _
    refine writeSectors_self done ⟨x, mem, address⟩ fun y memY same => ?_
    obtain ⟨small, image⟩ := mkfsWrites_image ok memY
    have sector : y.1 = s := by
      unfold u32 at same
      omega
    rw [image, sector]
  · show d'.responds (lba + s) = true
    rw [responds, ← address]
    exact all x mem

/-- From sector `2 ^ 32` on nothing is written. -/
theorem formatted_high {a : Nat} {ws : List (Nat × Bytes)}
    (done : writeSectors lba ws d = some d') (high : 4294967296 ≤ a) :
    d'.sectors a = d.sectors a :=
  writeSectors_other done fun x _ same => by
    unfold u32 at same
    omega

end Image

/-! ## Mounting -/

/-- What is known of the partition after the format. -/
structure Stored (l : FatLayout) (total : Nat) (v : FatVolume) : Prop where
  boot : BootFields l total (v.sectors 0)
  responds : ∀ s, s = 0 ∨ l.reserved ≤ s ∧ s < l.reserved + l.spf ∨ s = firstRoot l →
    v.responds s = true
  head : v.sectors l.reserved = tableHead l.type
  table : ∀ s, l.reserved < s → s < l.reserved + l.spf → v.sectors s = zeroSector
  root : v.sectors (firstRoot l) = zeroSector

theorem stored_of_done (picked : Picked total l) (lt : total < 4294967296)
    (done : writeSectors lba (mkfsWrites l lba total) d = some d')
    (below : lba + firstRoot l < 4294967296) : Stored l total (partition d' lba) := by
  obtain ⟨ok, -⟩ := id picked
  have spf := ok.spf_pos
  have low := reserved_pos ok
  have sector : ∀ s, s = 0 ∨ l.reserved ≤ s ∧ s < l.reserved + l.spf ∨ s = firstRoot l →
      (partition d' lba).sectors s = imageAt l (mkfsBoot l lba total) s ∧
        (partition d' lba).responds s = true := by
    intro s place
    refine formatted_sector ok lt done ?_ place
    unfold firstRoot at place below
    omega
  refine ⟨?_, fun s place => (sector s place).2, ?_, fun s le lt => ?_, ?_⟩
  · rw [(sector 0 (.inl rfl)).1]
    exact mkfsBoot_fields picked lt
  · rw [(sector _ (.inr (.inl ⟨Nat.le_refl _, by omega⟩))).1, imageAt_of_le ok (Nat.le_refl _),
      if_pos (.inl rfl)]
  · rw [(sector s (.inr (.inl ⟨by omega, lt⟩))).1, imageAt_of_le ok (by omega),
      if_neg (by omega)]
  · rw [(sector _ (.inr (.inr rfl))).1]
    show imageAt l _ (l.reserved + 2 * l.spf) = zeroSector
    rw [imageAt_of_le ok (Nat.le_add_right ..), if_neg (by omega)]

theorem tableHead_zero (t : FatType) {o : Nat} (le : t.offset 2 ≤ o)
    (apart : t = .fat32 → 12 ≤ o) : tableHead t o = 0 := by
  cases t with
  | fat12 =>
      simp only [FatType.offset] at le
      simp (disch := omega) only [tableHead, putByte, splice_of_apart]
      rfl
  | fat16 =>
      simp only [FatType.offset] at le
      simp (disch := omega) only [tableHead, putByte, splice_of_apart]
      rfl
  | fat32 =>
      have far := apart rfl
      simp (disch := omega) only [tableHead, wr32_of_apart]
      rfl

/-- The bytes of the table behind its head. -/
theorem Stored.flat_zero (stored : Stored l total v) {o : Nat} (le : l.type.offset 2 ≤ o)
    (apart : l.type = .fat32 → 12 ≤ o) (inside : o < l.spf * ataSectorSize) :
    v.flat (l.reserved * ataSectorSize + o) = 0 := by
  have sector : (l.reserved * ataSectorSize + o) / ataSectorSize =
      l.reserved + o / ataSectorSize := by
    rw [Nat.add_comm, Nat.add_mul_div_right _ _ (by decide), Nat.add_comm]
  have off : (l.reserved * ataSectorSize + o) % ataSectorSize = o % ataSectorSize := by
    rw [Nat.add_comm, Nat.add_mul_mod_self_right]
  rw [FatVolume.flat, sector, off]
  unfold ataSectorSize at inside ⊢
  by_cases first : o / 512 = 0
  · rw [first, Nat.add_zero, stored.head]
    exact tableHead_zero _ (by omega) fun same => by
      have := apart same
      omega
  · rw [stored.table _ (by omega) (by omega)]
    rfl

/-- The entry of a cluster is 0. -/
theorem Stored.entry_free (stored : Stored l total v) (two : 2 ≤ c)
    (notRoot : ¬ (l.type = .fat32 ∧ c = 2))
    (inside : l.type.offset c + l.type.width ≤ l.spf * ataSectorSize) :
    entryAt l.type v.flat (l.reserved * ataSectorSize + l.type.offset c) c = 0 := by
  have zero : ∀ i < l.type.width,
      v.flat (l.reserved * ataSectorSize + l.type.offset c + i) = 0 := by
    intro i lt
    rw [Nat.add_assoc]
    refine stored.flat_zero ?_ (fun fat32 => ?_) (by omega)
    · cases l.type <;> simp only [FatType.offset] <;> omega
    · rw [fat32]
      simp only [FatType.offset]
      have : c ≠ 2 := fun same => notRoot ⟨fat32, same⟩
      omega
  generalize l.reserved * ataSectorSize + l.type.offset c = pos at zero ⊢
  cases type : l.type with
  | fat12 =>
      rw [type] at zero
      have low := zero 0 (by decide)
      have high := zero 1 (by decide)
      simp only [entryAt, rd16]
      rw [Nat.add_zero] at low
      rw [low, high]
      unfold half
      split <;> rfl
  | fat16 =>
      rw [type] at zero
      have low := zero 0 (by decide)
      have high := zero 1 (by decide)
      simp only [entryAt, rd16]
      rw [Nat.add_zero] at low
      rw [low, high]
      rfl
  | fat32 =>
      rw [type] at zero
      have b0 := zero 0 (by decide)
      have b1 := zero 1 (by decide)
      have b2 := zero 2 (by decide)
      have b3 := zero 3 (by decide)
      simp only [entryAt, rd32]
      rw [Nat.add_zero] at b0
      rw [b0, b1, b2, b3]
      rfl

/-- The root of FAT32 is a chain of one cluster. -/
theorem Stored.entry_root (stored : Stored l total v) (fat32 : l.type = .fat32) :
    entryAt l.type v.flat (l.reserved * ataSectorSize + l.type.offset 2) 2 = 0x0FFFFFFF := by
  rw [fat32]
  show rd32 v.flat (l.reserved * ataSectorSize + 8) % 268435456 = _
  rw [rd32_sector v (by decide), stored.head, fat32]
  simp (disch := omega) only [tableHead, rd32_wr32]

/-- A root whose first slot is unused is empty. -/
theorem entries_of_unused {rest : Dir} {sec : Bytes} (zero : sec 0 = 0) :
    entries (sectorSlots sec :: rest) = [] := by
  have slot : slotAt sec 0 = .unused := if_pos zero
  show scan lfnReset 0 (slotAt sec (0 * 32) :: _) = []
  rw [Nat.zero_mul, slot, scan]

section Mount

variable (picked : Picked total l) (lt : total < 4294967296) (stored : Stored l total v)

include picked lt

theorem rootCluster_sector (fat32 : l.type = .fat32) :
    fatClusterToSector (mountedFs l total) (mountedFs l total).rootCluster = firstRoot l := by
  have low := firstRoot_lt picked lt
  have root := rootSectors_of l.type
  rw [if_pos fat32, ← picked.1.rootEntries_eq] at root
  unfold fatClusterToSector mountedFs
  dsimp only
  rw [if_pos fat32, root]
  show u32 (firstRoot l + 0 + 0 * l.spc) = _
  rw [Nat.zero_mul, Nat.add_zero, u32_of_lt (by omega)]

/-- The first sector of the root. -/
theorem rootDir_mountedFs (v : FatVolume) :
    ∃ rest, rootDir (mountedFs l total) v = sectorSlots (v.sectors (firstRoot l)) :: rest := by
  have low := firstRoot_lt picked lt
  have root := rootSectors_of l.type
  rw [← picked.1.rootEntries_eq] at root
  unfold rootDir
  split
  next small =>
    have count : (mountedFs l total).rootDirSectors = 31 + 1 := by
      show rootSectors l.rootEntries = _
      rw [root]
      exact if_neg small
    rw [count, List.range_succ_eq_map, List.map_cons]
    have first : u32 ((mountedFs l total).firstRootDirSector + 0) = firstRoot l :=
      u32_of_lt (n := firstRoot l) (by omega)
    rw [first]
    exact ⟨_, rfl⟩
  next fat32 =>
    obtain ⟨n, count⟩ := Nat.exists_eq_succ_of_ne_zero
      (Nat.ne_of_gt (spc_bounds picked.1.spc_mem).1)
    have count' : (mountedFs l total).sectorsPerCluster = n + 1 := count
    rw [count', List.range_succ_eq_map, List.map_cons,
      rootCluster_sector picked lt (not_not.1 fat32), Nat.add_zero, u32_of_lt (by omega)]
    exact ⟨_, rfl⟩

include stored

theorem geometry_stored : fatGeometry (v.sectors 0) = mountedFs l total :=
  fatGeometry_mkfsBoot picked lt stored.boot

/-- With entries for every cluster the mount succeeds. -/
theorem fatFsMount_stored (enough : l.clusters + 2 ≤ tableEntries l) :
    fatFsMount v = .ok (mountedFs l total) := by
  obtain ⟨ok, -⟩ := id picked
  obtain ⟨spcPos, -, power⟩ := spc_bounds ok.spc_mem
  have spf := ok.spf_pos
  have reserved := reserved_pos ok
  have room := ok.room
  have low := firstRoot_lt picked lt
  have clustersPos := ok.clusters_pos
  have entries : fatFatEntryCount (mountedFs l total) = tableEntries l :=
    fatFatEntryCount_eq picked lt rfl rfl rfl
  have some : (total - (firstRoot l + rootSectors l.rootEntries)) / l.spc ≠ 0 := by
    rw [Nat.ne_zero_iff_zero_lt, Nat.div_pos_iff]
    omega
  have root := rootSectors_of l.type
  rw [← ok.rootEntries_eq] at root
  have count : (mountedFs l total).clusterCount = l.clusters := by
    show min l.clusters (tableEntries l - 2) = _
    omega
  have sector : (if (mountedFs l total).type = .fat32 then
      fatClusterToSector (mountedFs l total) (mountedFs l total).rootCluster
      else (mountedFs l total).firstRootDirSector) = firstRoot l := by
    split
    next fat32 => exact rootCluster_sector picked lt fat32
    · rfl
  -- the checks of the mount in order
  have sizes : ¬ (ataSectorSize ≠ ataSectorSize ∨ l.spc = 0 ∨ 2 = 0 ∨ l.spf = 0) := by
    omega
  have powers : ¬ ((!fatIsPowerOfTwo l.spc) = true ∨ l.reserved = 0 ∨ total = 0) := by
    rw [power]
    simp only [Bool.not_true, Bool.false_eq_true, false_or]
    omega
  have dataRoom : ¬ total ≤ firstRoot l + rootSectors l.rootEntries := by omega
  have many : ¬ tableEntries l ≤ 2 := by omega
  have root32 : ¬ (l.type = .fat32 ∧ ((if l.type = .fat32 then 2 else 0) < 2 ∨
      l.clusters + 1 < (if l.type = .fat32 then 2 else 0))) := by
    rintro ⟨fat32, wrong⟩
    rw [if_pos fat32] at wrong
    omega
  have root16 : ¬ (l.type ≠ .fat32 ∧ (rootSectors l.rootEntries = 0 ∨
      total < u32 (firstRoot l + rootSectors l.rootEntries))) := by
    rintro ⟨small, wrong⟩
    rw [if_neg small] at root
    rw [u32_of_lt (by omega)] at wrong
    omega
  unfold fatFsMount
  dsimp only
  rw [geometry_stored picked lt stored, stored.responds 0 (.inl rfl), stored.boot.sign.1,
    stored.boot.sign.2, sector, stored.responds _ (.inr (.inr rfl)), entries, count]
  rw [if_neg (by decide), if_neg (by decide)]
  refine (if_neg sizes).trans ((if_neg powers).trans ((if_neg dataRoom).trans ?_))
  refine (if_neg some).trans ((if_neg many).trans ((if_neg root32).trans ?_))
  exact (if_neg root16).trans (if_neg (by decide))

theorem Stored.mountsAs (enough : l.clusters + 2 ≤ tableEntries l) : MountsAs l v := by
  have mounted := fatFsMount_stored picked lt stored enough
  have sound := fatFsMount_sound mounted
  have count : fatFatEntryCount (mountedFs l total) = tableEntries l :=
    fatFatEntryCount_eq picked lt rfl rfl rfl
  refine ⟨_, mounted, rfl, rfl, rfl, rfl, ?_, ?_, fun c two le => ?_⟩
  · show min l.clusters (tableEntries l - 2) = _
    omega
  · obtain ⟨rest, root⟩ := rootDir_mountedFs picked lt v
    rw [root, stored.root]
    exact entries_of_unused rfl
  · have inTable : c < fatFatEntryCount (mountedFs l total) := by omega
    have bound : l.type.offset c + l.type.width ≤ l.spf * ataSectorSize :=
      (offset_bound sound inTable).1
    have width : 0 < l.type.width := by cases l.type <;> decide
    have place : (mountedFs l total).entryPos 0 c =
        l.reserved * ataSectorSize + l.type.offset c := by
      show (l.reserved + 0 * l.spf) * ataSectorSize + l.type.offset c = _
      rw [Nat.zero_mul, Nat.add_zero]
    have answers : Answers (mountedFs l total) v 0 c := by
      unfold Answers
      rw [place]
      show v.responds _ = true ∧ v.responds ((_ + l.type.width - 1) / _) = true
      unfold ataSectorSize at bound ⊢
      exact ⟨stored.responds _ (.inr (.inl (by omega))),
        stored.responds _ (.inr (.inl (by omega)))⟩
    rw [fatReadFatEntry_eq sound inTable v, if_pos answers, place]
    show some (entryAt l.type _ _ c) = some (if l.type = .fat32 ∧
      c = (if l.type = .fat32 then 2 else 0) then _ else _)
    by_cases root : l.type = .fat32 ∧ c = 2
    · obtain ⟨fat32, rfl⟩ := root
      rw [stored.entry_root fat32, if_pos fat32, if_pos ⟨fat32, rfl⟩]
    · rw [stored.entry_free two root bound, if_neg]
      rintro ⟨fat32, same⟩
      rw [if_pos fat32] at same
      exact root ⟨fat32, same⟩

end Mount

/-! ## Where it goes wrong -/

/-- Whatever has wrapped, the boot sector is there. -/
theorem fs_of_mountsAs {fs : FatFs} (picked : Picked total l) (lt : total < 4294967296)
    (ltLba : lba < 4294967296) (done : writeSectors lba (mkfsWrites l lba total) d = some d')
    (mounted : fatFsMount (partition d' lba) = .ok fs) : fs = mountedFs l total := by
  have boot := (formatted_sector (s := 0) picked.1 lt done ltLba (.inl rfl)).1
  rw [(fatFsMount_checks mounted).1, boot]
  exact fatGeometry_mkfsBoot picked lt (mkfsBoot_fields picked lt)

/-- With too small a table the mount has fewer clusters. -/
theorem not_mountsAs_of_few (picked : Picked total l) (lt : total < 4294967296)
    (ltLba : lba < 4294967296) (done : writeSectors lba (mkfsWrites l lba total) d = some d')
    (few : tableEntries l < l.clusters + 2) : ¬ MountsAs l (partition d' lba) := by
  rintro ⟨fs, mounted, -, -, -, -, count, -⟩
  rw [fs_of_mountsAs picked lt ltLba done mounted] at count
  have same : min l.clusters (tableEntries l - 2) = l.clusters := count
  have pos := picked.1.clusters_pos
  omega

/-- A drive full of `'A'`. -/
def usedDrive : FatVolume := ⟨fun _ _ => 65, fun _ => true⟩

theorem entries_usedDrive (rest : Dir) : entries (sectorSlots (fun _ => 65) :: rest) ≠ [] := by
  have slot : ∃ e, slotAt (fun _ => 65) 0 = .entry e ∧ e.attr = 65 := ⟨_, rfl, rfl⟩
  obtain ⟨e, slot, attr⟩ := slot
  show scan lfnReset 0 (slotAt (fun _ => 65) (0 * 32) :: _) ≠ []
  rw [Nat.zero_mul, slot, scan, attr, if_neg (by decide)]
  exact List.cons_ne_nil _ _

/-- Behind sector `2 ^ 32` the root directory is what has been there before. -/
theorem not_mountsAs_of_high (picked : Picked total l) (lt : total < 4294967296)
    (ltLba : lba < 4294967296)
    (done : writeSectors lba (mkfsWrites l lba total) usedDrive = some d')
    (high : 4294967296 ≤ lba + firstRoot l) : ¬ MountsAs l (partition d' lba) := by
  rintro ⟨fs, mounted, -, -, -, -, -, empty, -⟩
  rw [fs_of_mountsAs picked lt ltLba done mounted] at empty
  obtain ⟨rest, root⟩ := rootDir_mountedFs picked lt (partition d' lba)
  have old : (partition d' lba).sectors (firstRoot l) = fun _ => 65 := formatted_high done high
  rw [root, old] at empty
  exact entries_usedDrive rest empty

/-! ## Formatting and mounting -/

theorem fsMkfsFat_eq {lba sectors : UInt32} {fatType : UInt8}
    (inside : sectors ≠ 0 ∧ lba.toNat + sectors.toNat ≤ total)
    (pick : fsFatPickLayout sectors.toNat (wantedType fatType) = some l) (d : FatVolume) :
    fsMkfsFat (some total) true lba sectors fatType d =
      writeSectors lba.toNat (mkfsWrites l lba.toNat sectors.toNat) d := by
  have pos : sectors.toNat ≠ 0 := fun zero => inside.1 (UInt32.toNat_inj.1 zero)
  unfold fsMkfsFat
  dsimp only
  rw [if_neg (by omega), if_neg, if_neg (by decide), pick]
  rintro (zero | beyond)
  · exact inside.1 zero
  · omega

/-- A formatted partition mounts with the layout of the format, whatever the drive has held
before, just when some number of sectors for the table is its own need and the root
directory starts below sector `2 ^ 32` of the drive. -/
theorem mkfs_then_mount_iff {lba sectors : UInt32} {fatType : UInt8}
    (inside : sectors ≠ 0 ∧ lba.toNat + sectors.toNat ≤ total)
    (pick : fsFatPickLayout sectors.toNat (wantedType fatType) = some l) :
    (∀ d d', fsMkfsFat (some total) true lba sectors fatType d = some d' →
      MountsAs l (partition d' lba.toNat)) ↔
      ∃ s, needed sectors.toNat l.type l.spc (reservedOf l.type) (rootEntriesOf l.type) s = s ∧
        lba.toNat + reservedOf l.type + 2 * s < 4294967296 := by
  have picked := fsFatPickLayout_picked pick
  have lt : sectors.toNat < 4294967296 := sectors.toNat_lt
  have ltLba : lba.toNat < 4294967296 := lba.toNat_lt
  have reserved := picked.1.reserved_eq
  constructor
  · intro mounts
    have all := writeSectors_total lba.toNat (mkfsWrites l lba.toNat sectors.toNat) usedDrive
      fun _ => rfl
    have rests : l.spf = fsFatSpfFromClusters l.clusters l.type := by
      rw [← enough_entries_iff picked.1, ← Nat.not_lt]
      intro few
      obtain ⟨d', done⟩ := all
      exact not_mountsAs_of_few picked lt ltLba done few
        (mounts _ _ ((fsMkfsFat_eq inside pick _).trans done))
    refine ⟨l.spf, (picked.1.fixed_iff lt _).2 ⟨rfl, rests⟩, ?_⟩
    rw [← reserved, Nat.add_assoc, ← Nat.not_le]
    intro high
    obtain ⟨d', done⟩ := all
    exact not_mountsAs_of_high picked lt ltLba done high
      (mounts _ _ ((fsMkfsFat_eq inside pick _).trans done))
  · rintro ⟨s, fixed, below⟩ d d' done
    obtain ⟨rfl, rests⟩ := (picked.1.fixed_iff lt s).1 fixed
    rw [fsMkfsFat_eq inside pick] at done
    rw [← reserved, Nat.add_assoc] at below
    exact (stored_of_done picked lt done below).mountsAs picked lt
      ((enough_entries_iff picked.1).2 rests)

/-- 8200 sectors with FAT16 in the middle of a drive. -/
theorem mkfs_then_mount_iff_8200 : ∃ l, fsFatPickLayout 8200 (some .fat16) = some l ∧
    ((∀ d d', fsMkfsFat (some 20000) true 2048 8200 16 d = some d' →
      MountsAs l (partition d' 2048)) ↔
      ∃ s, needed 8200 l.type l.spc (reservedOf l.type) (rootEntriesOf l.type) s = s ∧
        2048 + reservedOf l.type + 2 * s < 4294967296) := by
  refine ⟨⟨.fat16, 1, 1, 512, 32, 8103⟩, by decide +kernel, ?_⟩
  exact @mkfs_then_mount_iff _ 20000 2048 8200 16 ⟨by decide, by decide⟩ (by decide +kernel)

/-- With 8030 sectors the search ends with 31 sectors, which hold an entry less than the 7935
clusters need. -/
theorem mkfs_then_mount_8030 :
    fsFatPickLayout 8030 (some .fat16) = some ⟨.fat16, 1, 1, 512, 31, 7935⟩ ∧
      ∃ d d', fsMkfsFat (some 8030) true 0 8030 16 d = some d' ∧
        ¬ MountsAs ⟨.fat16, 1, 1, 512, 31, 7935⟩ (partition d' 0) := by
  have pick : fsFatPickLayout 8030 (some .fat16) = some ⟨.fat16, 1, 1, 512, 31, 7935⟩ := by
    decide +kernel
  obtain ⟨d', done⟩ := writeSectors_total 0
    (mkfsWrites ⟨.fat16, 1, 1, 512, 31, 7935⟩ 0 8030) usedDrive fun _ => rfl
  have run := @fsMkfsFat_eq _ 8030 0 8030 16 ⟨by decide, by decide⟩ pick usedDrive
  exact ⟨pick, usedDrive, d', run.trans done, not_mountsAs_of_few (fsFatPickLayout_picked pick)
    (by decide) (by decide) done (by decide)⟩

end NTux.Fat
