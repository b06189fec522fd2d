import NTux.Fat.Corrupted
import NTux.Fat.Layout
import NTux.Lib.Regions

/-!
# The geometry a mount admits

A geometry is consistent when the reserved sectors, the copies of the table, the root directory
and the clusters lie one behind the other and inside the partition, and when every cluster has
its entry in every copy.  `fat_fs_mount` computes the start of the data in 32 bits and compares
it with the size, so that what it admits is consistent exactly if that sum does not wrap
(`mount_geometry_iff`).
-/

namespace NTux.Fat.Disk

open NTux.Lib NTux.Lib.Bytes

/-- The first `n` copies of the table, each from where the code has it. -/
def copies (fs : FatFs) (n : Nat) : List Region :=
  (List.range n).map fun fi =>
    let fatBase := u32 (fs.firstFatSector + u32 (fi * fs.sectorsPerFat))
    ⟨fatBase, fatBase + fs.sectorsPerFat⟩

/-- The parts of the partition, each from where the code has it. -/
def fatParts (fs : FatFs) : List Region :=
  [⟨0, fs.reservedSectors⟩] ++ copies fs fs.fatCount ++
    [⟨fs.firstRootDirSector, fs.firstRootDirSector + fs.rootDirSectors⟩,
      ⟨fs.firstDataSector, fs.firstDataSector + fs.clusterCount * fs.sectorsPerCluster⟩]

/-- The regions lie one behind the other from `start` to `stop`. -/
def Consecutive : Nat → List Region → Nat → Prop
  | start, [], stop => start = stop
  | start, r :: rest, stop => r.start = start ∧ r.start ≤ r.stop ∧ Consecutive r.stop rest stop

/-- A geometry as it has to be. -/
structure Consistent (fs : FatFs) : Prop where
  consecutive : Consecutive 0 (fatParts fs)
    (fs.firstDataSector + fs.clusterCount * fs.sectorsPerCluster)
  apart : (fatParts fs).Pairwise Region.Apart
  ends : ∀ r ∈ fatParts fs, r.stop ≤ fs.totalSectors
  clusters : ∀ c, 2 ≤ c → c ≤ fs.clusterCount + 1 → ∀ s ∈ clusterSectors fs c,
    fs.firstDataSector ≤ s ∧ s < fs.totalSectors
  entries : ∀ c, 2 ≤ c → c ≤ fs.clusterCount + 1 → ∀ fi < fs.fatCount,
    (fs.firstFatSector + fi * fs.sectorsPerFat) * ataSectorSize ≤ fs.entryPos fi c ∧
      fs.entryPos fi c + fs.type.width ≤
        (fs.firstFatSector + (fi + 1) * fs.sectorsPerFat) * ataSectorSize

/-- Where the data start, computed without wrapping. -/
def dataStart (fs : FatFs) : Nat :=
  fs.reservedSectors + fs.fatCount * fs.sectorsPerFat + Fat.rootSectors fs.rootEntryCount

variable {fs : FatFs} {v : FatVolume} {rs qs : List Region} {start middle stop c : Nat}

/-! ## Consecutive regions -/

theorem Consecutive.le (consecutive : Consecutive start rs stop) :
    start ≤ stop ∧ ∀ r ∈ rs, start ≤ r.start ∧ r.stop ≤ stop := by
  induction rs generalizing start with
  | nil =>
      obtain rfl : start = stop := consecutive
      exact ⟨Nat.le_refl _, by simp⟩
  | cons r rest ih =>
      obtain ⟨rfl, le, later⟩ := consecutive
      obtain ⟨rest_le, each⟩ := ih later
      exact ⟨Nat.le_trans le rest_le, List.forall_mem_cons.2
        ⟨⟨Nat.le_refl _, rest_le⟩, fun q mem => ⟨Nat.le_trans le (each q mem).1, (each q mem).2⟩⟩⟩

/-- Consecutive regions share no sector. -/
theorem Consecutive.pairwise (consecutive : Consecutive start rs stop) :
    rs.Pairwise Region.Apart := by
  induction rs generalizing start with
  | nil => exact List.Pairwise.nil
  | cons r rest ih =>
      obtain ⟨-, -, later⟩ := consecutive
      refine List.pairwise_cons.2 ⟨fun q mem => ?_, ih later⟩
      rw [Region.apart_iff]
      have := (later.le.2 q mem).1
      omega

theorem consecutive_append_iff :
    Consecutive start (rs ++ qs) stop ↔
      ∃ middle, Consecutive start rs middle ∧ Consecutive middle qs stop := by
  induction rs generalizing start with
  | nil => exact ⟨fun second => ⟨start, rfl, second⟩, fun ⟨_, first, second⟩ => first ▸ second⟩
  | cons r rest ih =>
      constructor
      · rintro ⟨eq, le, later⟩
        obtain ⟨middle, first, second⟩ := ih.1 later
        exact ⟨middle, ⟨eq, le, first⟩, second⟩
      · rintro ⟨middle, ⟨eq, le, first⟩, second⟩
        exact ⟨eq, le, ih.2 ⟨middle, first, second⟩⟩

theorem copies_succ (n : Nat) : copies fs (n + 1) = copies fs n ++
    [⟨u32 (fs.firstFatSector + u32 (n * fs.sectorsPerFat)),
      u32 (fs.firstFatSector + u32 (n * fs.sectorsPerFat)) + fs.sectorsPerFat⟩] := by
  unfold copies
  rw [List.range_succ, List.map_append]
  rfl

/-- Consecutive copies end behind the sectors of all of them. -/
theorem Consecutive.copies_end {n : Nat} (consecutive : Consecutive start (copies fs n) stop) :
    stop = start + n * fs.sectorsPerFat := by
  induction n generalizing stop with
  | zero =>
      obtain rfl : start = stop := consecutive
      rw [Nat.zero_mul, Nat.add_zero]
  | succ n ih =>
      rw [copies_succ, consecutive_append_iff] at consecutive
      obtain ⟨middle, before, eq, -, last⟩ := consecutive
      dsimp only at eq last
      rw [← last, eq, ih before, Nat.succ_mul, Nat.add_assoc]

theorem consecutive_copies {n : Nat}
    (lt : fs.firstFatSector + n * fs.sectorsPerFat < 4294967296) :
    Consecutive fs.firstFatSector (copies fs n)
      (fs.firstFatSector + n * fs.sectorsPerFat) := by
  induction n with
  | zero =>
      rw [Nat.zero_mul, Nat.add_zero]
      rfl
  | succ n ih =>
      rw [Nat.succ_mul, ← Nat.add_assoc] at lt ⊢
      have place : u32 (fs.firstFatSector + u32 (n * fs.sectorsPerFat)) =
          fs.firstFatSector + n * fs.sectorsPerFat := by
        unfold u32
        omega
      rw [copies_succ, place]
      exact consecutive_append_iff.2 ⟨_, ih (by omega), rfl, Nat.le_add_right _ _, rfl⟩

/-! ## What the mount has checked -/

/-- The fields that are computed, and the checks of the sizes. -/
theorem fatFsMount_fields (mounted : fatFsMount v = .ok fs) :
    fs.firstFatSector = fs.reservedSectors ∧
      fs.rootDirSectors = Fat.rootSectors fs.rootEntryCount ∧
      fs.firstRootDirSector = u32 (fs.firstFatSector + u32 (fs.fatCount * fs.sectorsPerFat)) ∧
      fs.firstDataSector = u32 (fs.firstRootDirSector + fs.rootDirSectors) ∧
      fs.clusterCount ≤ (fs.totalSectors - fs.firstDataSector) / fs.sectorsPerCluster ∧
      fs.clusterCount ≤ fatFatEntryCount fs - 2 ∧ fs.totalSectors < 4294967296 := by
  obtain ⟨geometry, -⟩ := fatFsMount_checks mounted
  subst geometry
  refine ⟨rfl, rfl, rfl, rfl, Nat.min_le_left _ _, Nat.min_le_right _ _, ?_⟩
  show (if rd16 (v.sectors 0) 19 = 0 then rd32 (v.sectors 0) 32 else rd16 (v.sectors 0) 19) < _
  split
  · exact rd32_lt
  · exact Nat.lt_trans rd16_lt (by decide)

theorem fatFsMount_room (mounted : fatFsMount v = .ok fs) :
    fs.firstDataSector < fs.totalSectors := by
  unfold fatFsMount at mounted
  dsimp only at mounted
  obtain ⟨-, mounted⟩ := of_ite_error mounted
  obtain ⟨-, mounted⟩ := of_ite_error mounted
  obtain ⟨-, mounted⟩ := of_ite_error mounted
  obtain ⟨-, mounted⟩ := of_ite_error mounted
  obtain ⟨room, mounted⟩ := of_ite_error mounted
  obtain ⟨-, mounted⟩ := of_ite_error mounted
  obtain ⟨-, mounted⟩ := of_ite_error mounted
  obtain ⟨-, mounted⟩ := of_ite_error mounted
  obtain ⟨-, mounted⟩ := of_ite_error mounted
  obtain ⟨-, mounted⟩ := of_ite_error mounted
  obtain rfl := Except.ok.inj mounted
  exact Nat.lt_of_not_le room

/-- The clusters fit behind the start of the data. -/
theorem clusters_fit (mounted : fatFsMount v = .ok fs) :
    fs.firstDataSector + fs.clusterCount * fs.sectorsPerCluster ≤ fs.totalSectors := by
  obtain ⟨-, -, -, -, few, -⟩ := fatFsMount_fields mounted
  have room := fatFsMount_room mounted
  have fit := Nat.mul_le_of_le_div _ _ _ few
  omega

/-- A cluster's sectors, which do not wrap. -/
theorem clusterSectors_eq (mounted : fatFsMount v = .ok fs) (low : 2 ≤ c)
    (high : c ≤ fs.clusterCount + 1) :
    clusterSectors fs c =
      List.range' (fs.firstDataSector + (c - 2) * fs.sectorsPerCluster) fs.sectorsPerCluster ∧
      fs.firstDataSector + (c - 2) * fs.sectorsPerCluster + fs.sectorsPerCluster ≤
        fs.totalSectors := by
  obtain ⟨-, -, -, -, -, -, ltTotal⟩ := fatFsMount_fields mounted
  have fit := clusters_fit mounted
  have steps : (c - 2 + 1) * fs.sectorsPerCluster ≤ fs.clusterCount * fs.sectorsPerCluster :=
    Nat.mul_le_mul_right _ (by omega)
  rw [Nat.add_mul, Nat.one_mul] at steps
  have last : fs.firstDataSector + (c - 2) * fs.sectorsPerCluster + fs.sectorsPerCluster ≤
      fs.totalSectors := by omega
  refine ⟨?_, last⟩
  unfold clusterSectors fatClusterToSector
  rw [List.range'_eq_map_range]
  refine List.map_congr_left fun s mem => ?_
  have lt := List.mem_range.1 mem
  generalize (c - 2) * fs.sectorsPerCluster = at_ at last ⊢
  unfold u32
  omega

theorem clusters_inside (mounted : fatFsMount v = .ok fs) (low : 2 ≤ c)
    (high : c ≤ fs.clusterCount + 1) : ∀ s ∈ clusterSectors fs c,
      fs.firstDataSector ≤ s ∧ s < fs.totalSectors := by
  obtain ⟨same, last⟩ := clusterSectors_eq mounted low high
  intro s mem
  rw [same, List.mem_range'_1] at mem
  omega

/-- An entry lies in its copy, however large the copies are. -/
theorem entries_inside (mounted : fatFsMount v = .ok fs) (high : c ≤ fs.clusterCount + 1)
    (fi : Nat) :
    (fs.firstFatSector + fi * fs.sectorsPerFat) * ataSectorSize ≤ fs.entryPos fi c ∧
      fs.entryPos fi c + fs.type.width ≤
        (fs.firstFatSector + (fi + 1) * fs.sectorsPerFat) * ataSectorSize := by
  obtain ⟨-, -, -, -, -, few, -⟩ := fatFsMount_fields mounted
  obtain ⟨-, -, -, -, some_⟩ := fatFsMount_checks mounted
  have bound := (offset_bound (c := c) (fatFsMount_sound mounted) (by omega)).1
  unfold FatFs.entryPos
  rw [Nat.succ_mul, ← Nat.add_assoc, Nat.add_mul _ fs.sectorsPerFat]
  omega

/-! ## The law -/

theorem fatParts_eq (fs : FatFs) :
    fatParts fs = [⟨0, fs.reservedSectors⟩] ++ (copies fs fs.fatCount ++
      [⟨fs.firstRootDirSector, fs.firstRootDirSector + fs.rootDirSectors⟩,
        ⟨fs.firstDataSector, fs.firstDataSector + fs.clusterCount * fs.sectorsPerCluster⟩]) :=
  List.append_assoc ..

/-- Consecutive parts leave no room for a sum that wraps. -/
theorem Consistent.dataStart_lt (mounted : fatFsMount v = .ok fs) (consistent : Consistent fs) :
    dataStart fs < 4294967296 := by
  obtain ⟨-, root, -, dataAt, -⟩ := fatFsMount_fields mounted
  have consecutive := consistent.consecutive
  rw [fatParts_eq, consecutive_append_iff] at consecutive
  obtain ⟨low, ⟨-, -, rfl⟩, consecutive⟩ := consecutive
  obtain ⟨high, tables, rootStart, -, dataStart_, -⟩ := consecutive_append_iff.1 consecutive
  have tablesEnd := tables.copies_end
  dsimp only at rootStart dataStart_ tablesEnd
  have eq : dataStart fs = fs.firstDataSector := by
    unfold dataStart
    rw [dataStart_, root, rootStart, tablesEnd]
  rw [eq, dataAt]
  exact Nat.mod_lt _ (by decide)

theorem consistent_of_dataStart (mounted : fatFsMount v = .ok fs)
    (lt : dataStart fs < 4294967296) : Consistent fs := by
  obtain ⟨first, root, rootAt, dataAt, -⟩ := fatFsMount_fields mounted
  unfold dataStart at lt
  rw [← root, ← first] at lt
  have rootPlace : fs.firstRootDirSector =
      fs.firstFatSector + fs.fatCount * fs.sectorsPerFat := by
    rw [rootAt]
    unfold u32
    omega
  have dataPlace : fs.firstDataSector = fs.firstRootDirSector + fs.rootDirSectors := by
    rw [dataAt, rootPlace]
    exact Nat.mod_eq_of_lt lt
  have consecutive : Consecutive 0 (fatParts fs)
      (fs.firstDataSector + fs.clusterCount * fs.sectorsPerCluster) := by
    rw [fatParts_eq, ← first]
    refine consecutive_append_iff.2 ⟨_, ⟨rfl, Nat.zero_le _, rfl⟩, ?_⟩
    refine consecutive_append_iff.2 ⟨_, consecutive_copies (by omega), ?_⟩
    exact ⟨rootPlace, Nat.le_add_right _ _, dataPlace, Nat.le_add_right _ _, rfl⟩
  exact ⟨consecutive, consecutive.pairwise,
    fun r mem => Nat.le_trans (consecutive.le.2 r mem).2 (clusters_fit mounted),
    fun c low high => clusters_inside mounted low high,
    fun c _ high fi _ => entries_inside mounted high fi⟩

/-- **What a mount admits is consistent exactly if the start of the data is below sector
`2 ^ 32`.** -/
theorem mount_geometry_iff (mounted : fatFsMount v = .ok fs) :
    Consistent fs ↔ dataStart fs < 4294967296 :=
  ⟨Consistent.dataStart_lt mounted, consistent_of_dataStart mounted⟩

/-- The floppy's data start at sector 33. -/
theorem mount_geometry_floppy : Consistent (fatGeometry (floppy.sectors 0)) := by
  have mounted : fatFsMount floppy = .ok (fatGeometry (floppy.sectors 0)) := rfl
  exact (mount_geometry_iff mounted).2 (by decide)

/-- Four copies of 1431655932 sectors each end behind the 4294967295 sectors of the partition. -/
theorem oversized_tables_mounted :
    ¬ ∀ (v : FatVolume) (fs : FatFs), fatFsMount v = .ok fs → Consistent fs := by
  intro all
  have mounted : fatFsMount wrappingVolume = .ok (fatGeometry (wrappingVolume.sectors 0)) := rfl
  exact absurd (Consistent.dataStart_lt mounted (all _ _ mounted)) (by decide)

end NTux.Fat.Disk
