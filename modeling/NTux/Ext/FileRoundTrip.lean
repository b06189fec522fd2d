import NTux.Ext.FileInode
import NTux.Ext.InodeTable

/-!
# Writing a file and reading it back

Where every block of a file holds its part of the data, `ext2_read_file_data` returns
the data (`extReadFileData_of_holds`).  Writing establishes that, so what is written is
read back, except that the size of a file has 32 bits: the round trip holds exactly for
the lengths below 2^32 (`file_data_round_trip_iff`).
-/

namespace NTux.Ext

open NTux.Lib NTux.Lib.Bytes

variable {fs : ExtFs} {d d' : Volume} {data : Bytes} {len N : Nat}

/-! ## Reading -/

/-- The first `m` blocks of the file have been read. -/
structure ReadTo (fs : ExtFs) (data : Bytes) (len m : Nat) (r : Reading) : Prop where
  remain : r.remain = len - min len (m * fs.blockSize)
  out : r.out = slice data 0 (min len (m * fs.blockSize))

/-- Behind the end of the file there is nothing to read. -/
theorem ReadTo.mono {m m' : Nat} {r : Reading} (read : ReadTo fs data len m r) (done : r.remain = 0)
    (le : m ≤ m') : ReadTo fs data len m' r := by
  have more := Nat.mul_le_mul_right fs.blockSize le
  have remain := read.remain
  have end' : min len (m * fs.blockSize) = len := by omega
  have end'' : min len (m' * fs.blockSize) = len := by omega
  refine ⟨by omega, ?_⟩
  rw [read.out, end', end'']

/-- The pointers lead to the blocks `a, a + 1, …` of the file. -/
def LeadTo (fs : ExtFs) (data : Bytes) (len : Nat) (d : Volume) (a : Nat) (p : Nat → Nat)
    (n : Nat) : Prop :=
  ∀ j, j < n → (a + j) * fs.blockSize < len → p j ≠ 0 ∧ Holds fs data len d (a + j) (p j)

theorem extReadBlocks_readTo {a : Nat} {p : Nat → Nat} (m n j : Nat) {r : Reading}
    (all : j + n = m) (lead : LeadTo fs data len d a p m)
    (read : ReadTo fs data len (a + j) r) :
    ReadTo fs data len (a + m) (extReadBlocks fs d p n j r) := by
  induction n generalizing j r with
  | zero =>
      obtain rfl : j = m := by omega
      exact read
  | succ n ih =>
      unfold extReadBlocks
      have remain := read.remain
      split
      next stop =>
        refine read.mono ?_ (by omega)
        rcases stop with done | null
        · exact done
        · by_contra more
          exact (lead j (by omega) (by omega)).1 null
      next go =>
        rw [not_or] at go
        have inside : (a + j) * fs.blockSize < len := by omega
        have start : min len ((a + j) * fs.blockSize) = (a + j) * fs.blockSize := by omega
        have next : (a + (j + 1)) * fs.blockSize = (a + j) * fs.blockSize + fs.blockSize := by
          rw [← Nat.add_assoc, Nat.succ_mul]
        refine ih (j + 1) (by omega) ⟨?_, ?_⟩
        · show r.remain - min r.remain fs.blockSize = _
          omega
        · show r.out ++ slice (d (p j)) 0 (min r.remain fs.blockSize) = _
          have size : min len ((a + (j + 1)) * fs.blockSize) =
              (a + j) * fs.blockSize + min r.remain fs.blockSize := by omega
          rw [size, slice_add, read.out, start, Nat.zero_add]
          congr 1
          refine slice_congr fun i lt => ?_
          rw [Nat.zero_add]
          exact (lead j (by omega) inside).2 i (by omega) (by omega)

theorem extReadIndirect_readTo {start : Nat} {p : Nat → Nat} (m n i : Nat) {r : Reading}
    (all : i + n = m)
    (lead : ∀ i, i < m → (start + i * fs.ptrs) * fs.blockSize < len → p i ≠ 0 ∧
      LeadTo fs data len d (start + i * fs.ptrs) (blockPtr (d (p i))) fs.ptrs)
    (read : ReadTo fs data len (start + i * fs.ptrs) r) :
    ReadTo fs data len (start + m * fs.ptrs) (extReadIndirect fs d p n i r) := by
  induction n generalizing i r with
  | zero =>
      obtain rfl : i = m := by omega
      exact read
  | succ n ih =>
      unfold extReadIndirect
      have remain := read.remain
      have le := Nat.mul_le_mul_right fs.ptrs (show i ≤ m by omega)
      split
      next stop =>
        refine read.mono ?_ (by omega)
        rcases stop with done | null
        · exact done
        · by_contra more
          exact (lead i (by omega) (by omega)).1 null
      next go =>
        rw [not_or] at go
        refine ih (i + 1) (by omega) ?_
        rw [Nat.succ_mul, ← Nat.add_assoc]
        exact extReadBlocks_readTo fs.ptrs fs.ptrs 0 (Nat.zero_add _)
          (lead i (by omega) (by omega)).2 read

/-- Every block of the file is there and holds its part of the data. -/
structure FileHolds (fs : ExtFs) (data : Bytes) (len N : Nat) (d : Volume) (inode : Bytes) :
    Prop where
  blocks : ∀ f, f < N → filePtr fs d inode f ≠ 0 ∧ Holds fs data len d f (filePtr fs d inode f)
  single : 12 < N → inodePtr inode 12 ≠ 0
  double : 12 + fs.ptrs < N → inodePtr inode 13 ≠ 0
  rows : 12 + fs.ptrs < N → ∀ i, i * fs.ptrs < N - (12 + fs.ptrs) →
    blockPtr (d (inodePtr inode 13)) i ≠ 0

/-- **A file whose blocks hold the data is read as the data.** -/
theorem extReadFileData_of_holds {inode : Bytes} {outCap : Nat}
    (reg : rd16 inode inMode &&& sIfReg ≠ 0) (size : rd32 inode inSize = len)
    (cap : len ≤ outCap) (enough : len ≤ N * fs.blockSize) (most : N ≤ fs.maxBlocks)
    (holds : FileHolds fs data len N d inode) :
    extReadFileData fs d inode outCap = some (slice data 0 len) := by
  have within : ∀ f, f * fs.blockSize < len → f < N := by
    intro f lt
    by_contra le
    have more := Nat.mul_le_mul_right fs.blockSize (Nat.le_of_not_lt le)
    omega
  unfold extReadFileData
  dsimp only
  rw [size, if_neg (by rw [not_or]; exact ⟨reg, by omega⟩)]
  have direct : ReadTo fs data len 12 (extReadBlocks fs d (inodePtr inode) 12 0 ⟨len, []⟩) := by
    refine extReadBlocks_readTo (a := 0) 12 12 0 rfl (fun j lt inside => ?_)
      ⟨by simp, by simp [slice]⟩
    have block := holds.blocks (0 + j) (within _ inside)
    rw [Nat.zero_add] at block ⊢
    unfold filePtr at block
    rw [if_pos lt] at block
    exact block
  generalize extReadBlocks fs d (inodePtr inode) 12 0 ⟨len, []⟩ = r₁ at direct ⊢
  have single : ReadTo fs data len (12 + fs.ptrs)
      (if r₁.remain ≠ 0 ∧ inodePtr inode 12 ≠ 0 then
        extReadBlocks fs d (fun j => rd32 (d (inodePtr inode 12)) (4 * j)) fs.ptrs 0 r₁
      else r₁) := by
    have remain := direct.remain
    split
    · refine extReadBlocks_readTo fs.ptrs fs.ptrs 0 (Nat.zero_add _) (fun j lt inside => ?_) direct
      have block := holds.blocks (12 + j) (within _ inside)
      unfold filePtr at block
      rw [if_neg (by omega), if_pos (by omega), Nat.add_sub_cancel_left] at block
      exact block
    next stop =>
      refine direct.mono ?_ (Nat.le_add_right _ _)
      by_contra more
      exact stop ⟨more, holds.single (within 12 (by omega))⟩
  generalize (if r₁.remain ≠ 0 ∧ inodePtr inode 12 ≠ 0 then
    extReadBlocks fs d (fun j => rd32 (d (inodePtr inode 12)) (4 * j)) fs.ptrs 0 r₁
    else r₁) = r₂ at single ⊢
  have double : ReadTo fs data len (12 + fs.ptrs + fs.ptrs * fs.ptrs)
      (if r₂.remain ≠ 0 ∧ inodePtr inode 13 ≠ 0 then
        extReadIndirect fs d (fun i => rd32 (d (inodePtr inode 13)) (4 * i)) fs.ptrs 0 r₂
      else r₂) := by
    have remain := single.remain
    split
    · refine extReadIndirect_readTo fs.ptrs fs.ptrs 0 (Nat.zero_add _)
        (fun i lt inside => ?_) (by rwa [Nat.zero_mul, Nat.add_zero])
      have row := within _ inside
      refine ⟨holds.rows (by omega) i (by omega), fun t ltT insideT => ?_⟩
      have block := holds.blocks _ (within _ insideT)
      unfold filePtr at block
      obtain ⟨div, mod⟩ := row_place i ltT
      rw [if_neg (by omega), if_neg (by omega), rowPtr,
        show 12 + fs.ptrs + i * fs.ptrs + t - (12 + fs.ptrs) = i * fs.ptrs + t by omega,
        div, mod] at block
      exact block
    next stop =>
      refine single.mono ?_ (Nat.le_add_right _ _)
      by_contra more
      exact stop ⟨more, holds.double (within (12 + fs.ptrs) (by omega))⟩
  generalize (if r₂.remain ≠ 0 ∧ inodePtr inode 13 ≠ 0 then
    extReadIndirect fs d (fun i => rd32 (d (inodePtr inode 13)) (4 * i)) fs.ptrs 0 r₂
    else r₂) = r₃ at double ⊢
  have all := Nat.mul_le_mul_right fs.blockSize most
  unfold ExtFs.maxBlocks at all
  have remain := double.remain
  have out := double.out
  rw [Nat.min_eq_left (by omega)] at remain out
  rw [if_pos (by omega), out]

/-! ## The size has 32 bits -/

theorem extReadBlocks_length (p : Nat → Nat) (n j : Nat) (r : Reading) :
    (extReadBlocks fs d p n j r).out.length + (extReadBlocks fs d p n j r).remain =
      r.out.length + r.remain := by
  induction n generalizing j r with
  | zero => rfl
  | succ n ih =>
      unfold extReadBlocks
      split
      · rfl
      · rw [ih, List.length_append, slice_length]
        dsimp only
        omega

theorem extReadIndirect_length (p : Nat → Nat) (n i : Nat) (r : Reading) :
    (extReadIndirect fs d p n i r).out.length + (extReadIndirect fs d p n i r).remain =
      r.out.length + r.remain := by
  induction n generalizing i r with
  | zero => rfl
  | succ n ih =>
      unfold extReadIndirect
      split
      · rfl
      · rw [ih, extReadBlocks_length]

/-- No more is read than the size says. -/
theorem extReadFileData_length {inode : Bytes} {outCap : Nat} {bytes : List UInt8}
    (eq : extReadFileData fs d inode outCap = some bytes) : bytes.length < 2 ^ 32 := by
  unfold extReadFileData at eq
  dsimp only at eq
  split at eq
  · exact absurd eq (by simp)
  · have size : rd32 inode inSize < 2 ^ 32 := rd32_lt
    have direct : (extReadBlocks fs d (inodePtr inode) 12 0 ⟨rd32 inode inSize, []⟩).out.length +
        (extReadBlocks fs d (inodePtr inode) 12 0 ⟨rd32 inode inSize, []⟩).remain =
          rd32 inode inSize :=
      (extReadBlocks_length _ 12 0 _).trans (Nat.zero_add _)
    generalize extReadBlocks fs d (inodePtr inode) 12 0 ⟨rd32 inode inSize, []⟩ = r₁ at direct eq
    have single : ∀ r, (if r₁.remain ≠ 0 ∧ inodePtr inode 12 ≠ 0 then
        extReadBlocks fs d (fun j => rd32 (d (inodePtr inode 12)) (4 * j)) fs.ptrs 0 r₁
        else r₁) = r → r.out.length + r.remain = r₁.out.length + r₁.remain := by
      rintro r rfl
      split
      · exact extReadBlocks_length _ _ _ _
      · rfl
    generalize eq₂ : (if r₁.remain ≠ 0 ∧ inodePtr inode 12 ≠ 0 then
      extReadBlocks fs d (fun j => rd32 (d (inodePtr inode 12)) (4 * j)) fs.ptrs 0 r₁
      else r₁) = r₂ at eq
    have single := single r₂ eq₂
    have double : ∀ r, (if r₂.remain ≠ 0 ∧ inodePtr inode 13 ≠ 0 then
        extReadIndirect fs d (fun i => rd32 (d (inodePtr inode 13)) (4 * i)) fs.ptrs 0 r₂
        else r₂) = r → r.out.length + r.remain = r₂.out.length + r₂.remain := by
      rintro r rfl
      split
      · exact extReadIndirect_length _ _ _ _
      · rfl
    generalize eq₃ : (if r₂.remain ≠ 0 ∧ inodePtr inode 13 ≠ 0 then
      extReadIndirect fs d (fun i => rd32 (d (inodePtr inode 13)) (4 * i)) fs.ptrs 0 r₂
      else r₂) = r₃ at eq
    have double := double r₃ eq₃
    split at eq
    · obtain rfl := Option.some.inj eq
      omega
    · exact absurd eq (by simp)

/-! ## The round trip -/

/-- The pointer to a block of the file depends on the blocks of pointers on the way. -/
theorem filePtr_congr {inode inode' : Bytes} {f : Nat}
    (ptrs : ∀ j, j < 14 → inodePtr inode' j = inodePtr inode j)
    (single : 12 ≤ f → d' (inodePtr inode 12) = d (inodePtr inode 12))
    (double : 12 + fs.ptrs ≤ f → d' (inodePtr inode 13) = d (inodePtr inode 13) ∧
      d' (blockPtr (d (inodePtr inode 13)) ((f - (12 + fs.ptrs)) / fs.ptrs)) =
        d (blockPtr (d (inodePtr inode 13)) ((f - (12 + fs.ptrs)) / fs.ptrs))) :
    filePtr fs d' inode' f = filePtr fs d inode f := by
  unfold filePtr
  split
  next lt => exact ptrs f (by omega)
  next ge =>
    rw [ptrs 12 (by decide), ptrs 13 (by decide)]
    split
    · rw [single (by omega)]
    next ge' =>
      obtain ⟨top, row⟩ := double (by omega)
      rw [rowPtr, rowPtr, top, row]

/-- The file has been written and is read back: the bytes are the same, the block count
is that of the blocks the inode refers to, which are those that were allocated, and no two
blocks of the file lie in one block of the disk. -/
structure RoundTrip (fs : ExtFs) (d d' : Volume) (data : Bytes) (len outCap : Nat)
    (inode : Bytes) : Prop where
  data : extReadFileData fs d' inode outCap = some (slice data 0 len)
  counted : ∃ blocks : List Nat, blocks.Nodup ∧ (∀ x, x ∈ blocks ↔ x ∈ fileRefs fs d' inode) ∧
    (∀ x ∈ blocks, fs.HasBlock x ∧ blockUsed fs d' x = true) ∧
    (∀ x, fs.HasBlock x → blockUsed fs d x = false → blockUsed fs d' x = true → x ∈ blocks) ∧
    rd32 inode inBlocks * 512 = blocks.length * fs.blockSize
  apart : ∀ f g, f * fs.blockSize < len → g * fs.blockSize < len →
    filePtr fs d' inode f = filePtr fs d' inode g → f = g

/-- The number of blocks of a file whose length has 32 bits. -/
theorem needed_spec (geo : Geometry fs) (lt : len < 2 ^ 32) :
    len ≤ fs.needed len * fs.blockSize ∧ ∀ f, f * fs.blockSize < len → f < fs.needed len := by
  have pos : 0 < fs.blockSize := by
    rcases geo.blockSize with eq | eq | eq <;> omega
  have size : fs.blockSize ≤ 4096 := by
    rcases geo.blockSize with eq | eq | eq <;> omega
  have quotient : (len + fs.blockSize - 1) / fs.blockSize < 2 ^ 32 := by
    rw [Nat.div_lt_iff_lt_mul pos]
    omega
  have eq : fs.needed len = (len + fs.blockSize - 1) / fs.blockSize := by
    unfold ExtFs.needed
    rw [Nat.mod_eq_of_lt (show len + fs.blockSize - 1 < 2 ^ 64 by omega),
      Nat.mod_eq_of_lt quotient]
  have covered := Nat.lt_div_mul_add pos (a := len + fs.blockSize - 1)
  rw [← eq] at covered
  have enough : len ≤ fs.needed len * fs.blockSize := by omega
  refine ⟨enough, fun f inside => ?_⟩
  by_contra le
  have more := Nat.mul_le_mul_right fs.blockSize (Nat.le_of_not_lt le)
  omega

/-- The inode on the disk refers to the blocks of the inode in memory. -/
theorem fileRefs_congr {inode inode' : Bytes}
    (ptrs : ∀ j, j < 14 → inodePtr inode' j = inodePtr inode j)
    (same : ∀ x ∈ fileRefs fs d inode, d' x = d x) :
    fileRefs fs d' inode' = fileRefs fs d inode := by
  unfold fileRefs at same ⊢
  have direct : livePtrs (inodePtr inode') 0 12 = livePtrs (inodePtr inode) 0 12 := by
    unfold livePtrs
    congr 1
    refine List.map_congr_left fun j mem => ptrs j ?_
    have lt := (List.mem_range'_1.1 mem).2
    omega
  rw [direct, singlePart_congr (ptrs 12 (by decide)) fun x mem =>
      same x (List.mem_append_right _ (List.mem_append_left _ mem)),
    doublePart_congr (ptrs 13 (by decide)) fun x mem =>
      same x (List.mem_append_right _ (List.mem_append_right _ mem))]

/-- What a successful write does: the old blocks are released, the inode is cleared and
filled again, and the inode is written to its table. -/
theorem extWriteFileReader_ok {reader : Reader} {ino : Nat} {inode : Bytes}
    (supplies : Supplies reader data len) (ok : Consistent fs d)
    (refs : ∀ x ∈ fileRefs fs d inode, DataBlock fs d x)
    (eq : extWriteFileReader fs d ino inode len reader = .ok d') :
    rd16 inode inMode &&& sIfReg ≠ 0 ∧ ∃ d₁ inode₁ d₂ inode₂ inds,
      Released fs d (fileRefs fs d inode) d₁ ∧ ClearedInode inode inode₁ ∧
        FilledInode fs data len (if len = 0 then 0 else fs.needed len) d₁ inode₁ inds d₂ inode₂ ∧
        (len = 0 ∨ fs.needed len ≤ fs.maxBlocks) ∧ extWriteInode fs d₂ ino inode₂ = some d' := by
  have pos : 0 < fs.ptrs := by
    unfold ExtFs.ptrs
    rcases ok.blockSize with eq | eq | eq <;> omega
  unfold extWriteFileReader at eq
  split at eq
  · exact absurd eq (by simp)
  next reg =>
    refine ⟨reg, ?_⟩
    obtain ⟨releases, cleared⟩ := extInodeClearData_releases ok refs
    obtain ⟨⟨d₂, inode₂⟩, write, eq⟩ := exists_of_bind_ok eq
    obtain ⟨⟨d₁, inode₁⟩, clear, write⟩ := exists_of_bind_ok write
    have released := releases.of_ok clear
    have clean := cleared d₁ inode₁ clear
    have table := eq_some_of_orFail eq
    dsimp only at write
    split at write
    next zero =>
      obtain ⟨rfl, rfl⟩ := Prod.mk.inj (Except.ok.inj write)
      refine ⟨d₁, inode₁, d₁, _, [], released, clean, ?_, .inl zero, table⟩
      rw [if_pos zero, zero]
      exact .zero released.consistent
    next some =>
      split at write
      · exact absurd write (by simp)
      next le =>
        have fills := extFillInode_fills supplies pos inode₁ released.consistent
        rw [write] at fills
        obtain ⟨inds, filled⟩ := fills
        refine ⟨d₁, inode₁, d₂, inode₂, inds, released, clean, ?_, .inr (by omega), table⟩
        rw [if_neg some]
        exact filled

section Written

variable {d₁ d₂ : Volume} {inode inode₁ inode₂ inode' : Bytes} {inds : List Nat} {ino : Nat}

/-- Writing the inode leaves the blocks of the file alone. -/
theorem FilledInode.kept_by_table (ok : Consistent fs d₁)
    (filled : FilledInode fs data len N d₁ inode₁ inds d₂ inode₂)
    (written : InodeWritten fs d₂ ino inode₂ d') {x : Nat}
    (mem : x ∈ (List.range' 0 N).map (filePtr fs d₂ inode₂) ++ inds) : d' x = d₂ x :=
  written.data x (filled.grown.places.dataBlock (filled.grown.dataBlock ok mem))

theorem filePtr_mem {f : Nat} (lt : f < N) :
    filePtr fs d₂ inode₂ f ∈ (List.range' 0 N).map (filePtr fs d₂ inode₂) ++ inds :=
  List.mem_append_left _ (List.mem_map.2 ⟨f, List.mem_range'_1.2 ⟨Nat.zero_le f, by omega⟩, rfl⟩)

/-- The blocks of the file are found from the inode on the disk. -/
theorem FilledInode.filePtr_eq (ok : Consistent fs d₁)
    (filled : FilledInode fs data len N d₁ inode₁ inds d₂ inode₂)
    (written : InodeWritten fs d₂ ino inode₂ d')
    (same : ∀ k, k < inodeRecordSize → inode' k = inode₂ k) {f : Nat} (lt : f < N) :
    filePtr fs d' inode' f = filePtr fs d₂ inode₂ f := by
  have ptrs : ∀ j, j < 14 → inodePtr inode' j = inodePtr inode₂ j := fun j lt =>
    rd32_congr fun i _ => same _ (by unfold inBlock inodeRecordSize; omega)
  refine filePtr_congr ptrs (fun ge => ?_) fun ge => ⟨?_, ?_⟩
  · exact filled.kept_by_table ok written (List.mem_append_right _ (filled.single (by omega)).1)
  · exact filled.kept_by_table ok written (List.mem_append_right _ (filled.double (by omega)))
  · refine filled.kept_by_table ok written (List.mem_append_right _
      (filled.rows (by omega) _ ?_))
    have le := Nat.div_mul_le_self (f - (12 + fs.ptrs)) fs.ptrs
    omega

/-- The blocks of the file hold the data, as the inode on the disk finds them. -/
theorem FilledInode.fileHolds (ok : Consistent fs d₁)
    (filled : FilledInode fs data len N d₁ inode₁ inds d₂ inode₂)
    (written : InodeWritten fs d₂ ino inode₂ d')
    (same : ∀ k, k < inodeRecordSize → inode' k = inode₂ k) :
    FileHolds fs data len N d' inode' := by
  have ptrs : ∀ j, j < 14 → inodePtr inode' j = inodePtr inode₂ j := fun j lt =>
    rd32_congr fun i _ => same _ (by unfold inBlock inodeRecordSize; omega)
  refine ⟨fun f ltF => ?_, fun more => ?_, fun more => ?_, fun more i inside => ?_⟩
  · rw [filled.filePtr_eq ok written same ltF]
    exact ⟨filled.grown.ne_zero ok (filePtr_mem ltF), (filled.holds f ltF).congr
      (filled.kept_by_table ok written (filePtr_mem ltF))⟩
  · rw [ptrs 12 (by decide)]
    exact filled.grown.ne_zero ok (List.mem_append_right _ (filled.single more).1)
  · rw [ptrs 13 (by decide)]
    exact filled.grown.ne_zero ok (List.mem_append_right _ (filled.double more))
  · rw [ptrs 13 (by decide), filled.kept_by_table ok written
      (List.mem_append_right _ (filled.double more))]
    exact filled.grown.ne_zero ok (List.mem_append_right _ (filled.rows more i inside))

/-- A block of the filled file is in use after the inode has been written. -/
theorem Grown.used_of_new {new : List Nat} {x : Nat} (grown : Grown fs d₁ new d₂)
    (written : InodeWritten fs d₂ ino inode₂ d') (mem : x ∈ new) :
    fs.HasBlock x ∧ blockUsed fs d' x = true := by
  have has := (grown.fresh x mem).1
  refine ⟨has, ?_⟩
  rw [written.used x has]
  exact (grown.used x has).2 (.inr mem)

/-- Only the blocks of the filled file have come into use. -/
theorem Grown.new_of_used {old new : List Nat} {x : Nat} (grown : Grown fs d₁ new d₂)
    (released : Released fs d old d₁) (written : InodeWritten fs d₂ ino inode₂ d')
    (has : fs.HasBlock x) (free : blockUsed fs d x = false) (used : blockUsed fs d' x = true) :
    x ∈ new := by
  rw [written.used x has] at used
  rcases (grown.used x has).1 used with before | mem
  · rw [((released.used x has).1 before).1] at free
    exact absurd free (by simp)
  · exact mem

/-- What has been filled and written to the table is read back. -/
theorem FilledInode.roundTrip {outCap : Nat} {old : List Nat}
    (released : Released fs d old d₁) (clean : ClearedInode inode inode₁)
    (filled : FilledInode fs data len N d₁ inode₁ inds d₂ inode₂)
    (written : InodeWritten fs d₂ ino inode₂ d')
    (reg : rd16 inode inMode &&& sIfReg ≠ 0) (lt : len < 2 ^ 32) (cap : len ≤ outCap)
    (enough : len ≤ N * fs.blockSize) (within : ∀ f, f * fs.blockSize < len → f < N)
    (most : N ≤ fs.maxBlocks)
    (same : ∀ k, k < inodeRecordSize → inode' k = inode₂ k) :
    RoundTrip fs d d' data len outCap inode' := by
  have ok₁ := released.consistent
  have pos : 0 < fs.ptrs := by
    unfold ExtFs.ptrs
    rcases ok₁.blockSize with eq | eq | eq <;> omega
  have ptrs : ∀ j, j < 14 → inodePtr inode' j = inodePtr inode₂ j := fun j lt =>
    rd32_congr fun i _ => same _ (by unfold inBlock inodeRecordSize; omega)
  have ptr : ∀ f, f < N → filePtr fs d' inode' f = filePtr fs d₂ inode₂ f := fun f ltF =>
    filled.filePtr_eq ok₁ written same ltF
  have mode : rd16 inode' inMode = rd16 inode inMode := by
    refine rd16_congr fun i ltI => ?_
    rw [same _ (by unfold inMode inodeRecordSize; omega), filled.kept _ (by unfold inMode; omega),
      clean.kept _ (by unfold inMode; omega)]
  have size : rd32 inode' inSize = len := by
    rw [← Nat.mod_eq_of_lt lt, ← filled.size]
    exact rd32_congr fun i ltI => same _ (by unfold inSize inodeRecordSize; omega)
  have refs : fileRefs fs d' inode' = fileRefs fs d₂ inode₂ := fileRefs_congr ptrs fun x mem =>
    filled.kept_by_table ok₁ written
      ((filled.mem_fileRefs ok₁ (fun j lt _ => clean.ptrs j lt) pos most).1 mem)
  refine ⟨?_, ⟨(List.range' 0 N).map (filePtr fs d₂ inode₂) ++ inds, filled.grown.nodup,
    fun x => ?_, fun x mem => filled.grown.used_of_new written mem,
    fun x has free used => filled.grown.new_of_used released written has free used, ?_⟩,
    fun f g inF inG eq => ?_⟩
  · exact extReadFileData_of_holds (by rwa [mode]) size cap enough most
      (filled.fileHolds ok₁ written same)
  · rw [refs]
    exact (filled.mem_fileRefs ok₁ (fun j lt _ => clean.ptrs j lt) pos most).symm
  · have few := filled.inds_length most
    have count : rd32 inode' inBlocks = rd32 inode₂ inBlocks :=
      rd32_congr fun i ltI => same _ (by unfold inBlocks inodeRecordSize; omega)
    rw [count, filled.blocks, List.length_append, List.length_map, List.length_range']
    unfold ExtFs.maxBlocks ExtFs.ptrs at most
    unfold ExtFs.ptrs at few
    rcases ok₁.blockSize with eq | eq | eq <;> rw [eq] at most few ⊢ <;>
      rw [Nat.mod_eq_of_lt (by omega)] <;> omega
  · rw [ptr f (within f inF), ptr g (within g inG)] at eq
    exact filled.filePtr_inj (within f inF) (within g inG) eq

end Written

/-- **A file that has been written is read back exactly if its length has 32 bits.** -/
theorem file_data_round_trip_iff (fs : ExtFs) (d d' : Volume) (ino : Nat) (inode data : Bytes)
    (len outCap : Nat) (reader : Reader) (ok : Consistent fs d) (has : fs.HasInode ino)
    (refs : ∀ x ∈ fileRefs fs d inode, DataBlock fs d x) (supplies : Supplies reader data len)
    (cap : len ≤ outCap) (accepted : extWriteFileReader fs d ino inode len reader = .ok d') :
    (∃ inode', extReadInode fs d' ino = some inode' ∧
      RoundTrip fs d d' data len outCap inode') ↔ len < 2 ^ 32 := by
  constructor
  · rintro ⟨inode', -, trip⟩
    have few := extReadFileData_length trip.data
    rwa [slice_length] at few
  · intro lt
    obtain ⟨reg, d₁, inode₁, d₂, inode₂, inds, released, clean, filled, most, table⟩ :=
      extWriteFileReader_ok supplies ok refs accepted
    have written := extWriteInode_ok filled.grown.consistent has table
    obtain ⟨inode', read, same⟩ := written.read
    refine ⟨inode', read, ?_⟩
    by_cases zero : len = 0
    · subst zero
      exact filled.roundTrip released clean written reg lt cap (Nat.zero_le _)
        (fun f inside => absurd inside (Nat.not_lt_zero _)) (Nat.zero_le _) same
    · obtain ⟨enough, within⟩ := needed_spec ok.toGeometry lt
      rw [if_neg zero] at filled
      exact filled.roundTrip released clean written reg lt cap enough within
        (most.resolve_left zero) same

/-! ## A small volume -/

/-- One group of 40 blocks and 16 inodes. -/
def smallFs (superSize : Nat) : ExtFs where
  superSize := superSize
  blockSize := 1024
  inodeSize := 128
  blocksPerGroup := 40
  inodesPerGroup := 16
  firstDataBlock := 1
  groupCount := 2
  blocksCount := 41
  inodesCount := 16
  rootInode := 2

/-- The file of inode 11 has three bytes in block 7; the blocks behind it are free. -/
def smallVolume : Volume := fun x i =>
  if x = 1 then
    if i = sbFreeBlocks then 33 else if i = sbFreeInodes then 5
    else if i = sbFirstIno then 11 else 0
  else if x = 2 then
    if i = bgBlockBitmap then 3 else if i = bgInodeBitmap then 4 else if i = bgInodeTable then 5
    else if i = bgFreeBlocks then 33 else if i = bgFreeInodes then 5 else 0
  else if x = 3 then (if i = 0 then 127 else 0)
  else if x = 4 then (if i = 0 then 255 else if i = 1 then 7 else 0)
  else if x = 6 then
    if i = 257 then 0x80 else if i = 260 then 3 else if i = 284 then 2 else if i = 296 then 7 else 0
  else 0

/-- The inode 11. -/
def smallInode : Bytes := fun i => smallVolume 6 (256 + i)

theorem small_reserved {superSize : Nat} (size : superSize = 204 ∨ superSize = 236) :
    firstInode (smallFs superSize) smallVolume = 11 ∧ ∀ ino, ino < 11 → 0 < ino →
      inodeUsed (smallFs superSize) smallVolume ino = true := by
  rcases size with rfl | rfl <;> decide

theorem small_consistent {superSize : Nat} (size : superSize = 204 ∨ superSize = 236) :
    Consistent (smallFs superSize) smallVolume := by
  obtain ⟨first, used⟩ := small_reserved size
  have reserved : ∀ ino, 0 < ino → ino < firstInode (smallFs superSize) smallVolume →
      ino ≤ (smallFs superSize).inodesCount →
      inodeUsed (smallFs superSize) smallVolume ino = true := by
    rw [first]
    exact fun ino pos lt _ => used ino lt pos
  rcases size with rfl | rfl <;>
    exact {
      superSize := by decide
      blockSize := .inl rfl
      inodeSize := by decide
      firstDataBlock := rfl
      blocksPerGroup := by decide
      inodesPerGroup := by decide
      blocksCount := by decide
      inodesCount := by decide
      groupCount := by decide
      distinct := by decide
      metaUsed := by
        unfold ExtFs.HasBlock
        decide
      reserved := reserved
      blocks := ⟨by decide, by decide⟩
      inodes := ⟨by decide, by decide⟩ }

theorem small_refs : ∀ x ∈ fileRefs (smallFs 204) smallVolume smallInode,
    DataBlock (smallFs 204) smallVolume x := by
  have refs : fileRefs (smallFs 204) smallVolume smallInode = [7] := by
    decide
  rw [refs]
  intro x mem
  obtain rfl := List.mem_singleton.1 mem
  exact ⟨⟨by decide, by decide⟩, by decide⟩

/-- The file is overwritten with 1500 bytes. -/
theorem file_data_round_trip_small :
    (∃ inode', extReadInode (smallFs 204) (volumeAfter (extWriteFile (smallFs 204) smallVolume 11 smallInode
        (fun i => UInt8.ofNat i) 1500)) 11 = some inode' ∧
      RoundTrip (smallFs 204) smallVolume (volumeAfter (extWriteFile (smallFs 204) smallVolume 11 smallInode
        (fun i => UInt8.ofNat i) 1500)) (fun i => UInt8.ofNat i) 1500 4096 inode') ↔
      1500 < 2 ^ 32 :=
  file_data_round_trip_iff (smallFs 204) smallVolume _ 11 smallInode (fun i => UInt8.ofNat i) 1500 4096
    (bufferReader fun i => UInt8.ofNat i) (small_consistent (.inl rfl)) (by unfold ExtFs.HasInode; decide)
    small_refs (bufferReader_supplies _ _) (by decide) (eq_ok_volumeAfter (by decide +kernel))

/-- The number of blocks of a file of 2^42 bytes is 0 in 32 bits, and so is its size. -/
theorem file_data_lost_past_32_bits :
    ¬ ∀ (fs : ExtFs) (d d' : Volume) (ino : Nat) (inode data : Bytes) (len outCap : Nat)
      (reader : Reader), Consistent fs d → fs.HasInode ino →
      (∀ x ∈ fileRefs fs d inode, DataBlock fs d x) → Supplies reader data len → len ≤ outCap →
      extWriteFileReader fs d ino inode len reader = .ok d' →
      ∃ inode', extReadInode fs d' ino = some inode' ∧ RoundTrip fs d d' data len outCap inode' := by
  intro always
  obtain ⟨inode', -, trip⟩ := always (smallFs 204) smallVolume _ 11 smallInode (fun _ => 0) (2 ^ 42)
    (2 ^ 42) (bufferReader fun _ => 0) (small_consistent (.inl rfl)) (by unfold ExtFs.HasInode; decide)
    small_refs (bufferReader_supplies _ _) (by decide) (eq_ok_volumeAfter (by decide))
  have few := extReadFileData_length trip.data
  rw [slice_length] at few
  exact absurd few (by decide)

end NTux.Ext
