import NTux.Fat.Walks

/-!
# The bytes of the clusters of a file

What the visits of `fat_read_file_data` and `fat_read_file_range_data` at one cluster come to,
in terms of the bytes of the cluster.
-/

namespace NTux.Fat.Disk

open NTux.Fs NTux.Lib NTux.Lib.Bytes NTux.Lib.ChainWalk

/-- The bytes of the sectors. -/
def bytesOf (v : FatVolume) (sectors : List Nat) : List UInt8 :=
  sectors.flatMap fun sector => sectorBytes (v.sectors sector)

/-- The bytes of a cluster. -/
def clusterBytes (fs : FatFs) (v : FatVolume) (c : Nat) : List UInt8 :=
  bytesOf v (clusterSectors fs c)

/-- `cluster_bytes`. -/
def perCluster (fs : FatFs) : Nat := fs.sectorsPerCluster * ataSectorSize

/-- The cluster is one of the volume, and its sectors are read. -/
def Readable (fs : FatFs) (v : FatVolume) (c : Nat) : Prop :=
  (2 ≤ c ∧ c ≤ fs.clusterCount + 1) ∧ ∀ sector ∈ clusterSectors fs c, v.responds sector = true

variable {fs : FatFs} {v : FatVolume} {c : Nat}

@[simp] theorem sectorBytes_length (buf : Bytes) : (sectorBytes buf).length = ataSectorSize := by
  simp [sectorBytes]

theorem bytesOf_cons (sector : Nat) (rest : List Nat) :
    bytesOf v (sector :: rest) = sectorBytes (v.sectors sector) ++ bytesOf v rest :=
  List.flatMap_cons ..

theorem bytesOf_length (sectors : List Nat) :
    (bytesOf v sectors).length = sectors.length * ataSectorSize := by
  induction sectors with
  | nil => simp [bytesOf]
  | cons sector rest ih =>
      rw [bytesOf_cons, List.length_append, sectorBytes_length, ih, List.length_cons, Nat.succ_mul,
        Nat.add_comm]

theorem clusterBytes_length (fs : FatFs) (v : FatVolume) (c : Nat) :
    (clusterBytes fs v c).length = perCluster fs := by
  unfold clusterBytes
  rw [bytesOf_length, clusterSectors, List.length_map, List.length_range, perCluster]

theorem take_append_take_eq {a b : List UInt8} {n : Nat} (le : a.length ≤ n) :
    a ++ b.take (n - a.length) = (a ++ b).take n := by
  rw [List.take_append, List.take_of_length_le le]

/-! ## Reading from the start -/

/-- The sectors are read up to what remains. -/
theorem visitSectors_fileSector {failed : FileReading → Int × List UInt8} {sectors : List Nat}
    (answers : ∀ sector ∈ sectors, v.responds sector = true) {r : FileReading}
    (some_ : 0 < r.remaining) :
    visitSectors v failed fileSector sectors r =
      if r.remaining ≤ sectors.length * ataSectorSize then
        .done (0, r.out ++ (bytesOf v sectors).take r.remaining)
      else .next ⟨r.remaining - sectors.length * ataSectorSize, r.out ++ bytesOf v sectors⟩ := by
  induction sectors generalizing r with
  | nil =>
      rw [visitSectors, List.length_nil, Nat.zero_mul, if_neg (by omega)]
      simp [bytesOf]
  | cons sector rest ih =>
      obtain ⟨here, later⟩ := List.forall_mem_cons.1 answers
      have whole := sectorBytes_length (v.sectors sector)
      have next := fun out => ih later (r := ⟨r.remaining - ataSectorSize, out⟩)
      unfold visitSectors
      rw [fatReadSector, if_pos here, bytesOf_cons, List.length_cons, Nat.succ_mul]
      dsimp only [fileSector]
      dsimp only at next
      generalize ataSectorSize = size at whole next ⊢
      rcases Nat.lt_or_ge size r.remaining with more | last
      · rw [Nat.min_eq_right (Nat.le_of_lt more), if_neg (by omega),
          List.take_of_length_le (Nat.le_of_eq whole)]
        dsimp only
        have cut := take_append_take_eq (a := sectorBytes (v.sectors sector)) (b := bytesOf v rest)
          (n := r.remaining) (by omega)
        rw [next _ (by omega), ← cut, whole, List.append_assoc, List.append_assoc]
        have less : r.remaining - size ≤ rest.length * size ↔
            r.remaining ≤ rest.length * size + size := by omega
        have left : r.remaining - size - rest.length * size =
            r.remaining - (rest.length * size + size) := by omega
        simp only [less, left]
      · rw [Nat.min_eq_left last, Nat.sub_self, if_pos rfl, if_pos (by omega),
          List.take_append_of_le_length (by omega)]

/-- A visit of a cluster reads its bytes up to what remains. -/
theorem fileWalker_visit (readable : Readable fs v c) {r : FileReading} (some_ : 0 < r.remaining) :
    (fileWalker fs v).visit c r =
      if r.remaining ≤ perCluster fs then
        .done (0, r.out ++ (clusterBytes fs v c).take r.remaining)
      else .next ⟨r.remaining - perCluster fs, r.out ++ clusterBytes fs v c⟩ := by
  have length : (clusterSectors fs c).length = fs.sectorsPerCluster := by
    simp [clusterSectors]
  show (if fs.clusterCount + 1 < c then Visit.done _ else visitSectors v _ fileSector _ r) = _
  rw [if_neg (Nat.not_lt.2 readable.1.2), visitSectors_fileSector readable.2 some_, length]
  rfl

end NTux.Fat.Disk
