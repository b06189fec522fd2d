import NTux.Lib.Bytes
import NTux.Lib.Gather

/-!
# Reading files of an ISO volume

`iso_op_read_file` reads a whole file and `iso_fs_read_file_range` a part of it: the rest of
a first sector, a batch of full ones, and the beginning of a last one.  On a CD drive a sector
is addressed by 32 bits, on a partition it is four sectors of the drive, addressed by 64; the
sector number of the volume has 32 bits in both.

* `isoReadSectorsBatch_eq` — a batch is its sectors one by one, as long as their numbers fit
  in 32 bits or the drive is a CD drive.
* `RangeIsSlice` — what the part should be.
* `iso_range_iff` — it is so, whatever is on the drive, exactly for the files whose full
  sectors have numbers of 32 bits.
-/

namespace NTux.Fs

open NTux.Lib NTux.Lib.Bytes

/-! ## Drives -/

/-- A drive: the sectors that it reads, of 2048 bytes if it is a CD drive and of 512 if not,
and how many it says it has, or zero.  No drive has more than the 2^48 that an address of
the ATA commands can name. -/
structure IsoDrive where
  total : Nat
  sector : Nat → Option Bytes
  addressable : total ≤ 2 ^ 48

/-- A sector of `size` bytes. -/
def IsoDrive.bytes (drive : IsoDrive) (size lba : Nat) : Option (List UInt8) :=
  (drive.sector lba).map fun b => slice b 0 size

/-- `ata_read_sectors`. -/
def ataReadSectors (drive : IsoDrive) (lba count : Nat) : Option (List UInt8) :=
  if count = 0 then none
  else if 0 < drive.total ∧ (drive.total ≤ lba ∨ drive.total < (lba + count) % 2 ^ 64) then none
  else gather (fun s => drive.bytes 512 ((lba + s) % 2 ^ 64)) 0 count

/-- `ata_read_cd_sectors`. -/
def ataReadCdSectors (drive : IsoDrive) (lba count : Nat) : Option (List UInt8) :=
  if count = 0 then none
  else gather (fun s => drive.bytes 2048 ((lba + s) % 2 ^ 32)) 0 count

/-! ## The volume -/

/-- `iso_fs_t`, as far as reading looks at it. -/
structure IsoFs where
  mounted : Bool
  isAtapi : Bool
  partitionLba : Nat

/-- `iso_node_t`. -/
structure IsoNode where
  lba : Nat
  size : Nat
  flags : Nat

/-- `ISO_SECTOR_SIZE` -/
def isoSectorSize : Nat := 2048

/-- `ISO_FLAG_DIRECTORY` is set. -/
def IsoNode.isDir (node : IsoNode) : Bool := node.flags &&& 0x02 ≠ 0

/-- The address on the drive of a sector of the volume. -/
def IsoFs.physLba (fs : IsoFs) (lba : Nat) : Nat := (fs.partitionLba + lba * 4) % 2 ^ 64

/-- `iso_read_sector`. -/
def isoReadSector (fs : IsoFs) (drive : IsoDrive) (lba : Nat) : Option (List UInt8) :=
  if fs.isAtapi then ataReadCdSectors drive lba 1
  else ataReadSectors drive (fs.physLba lba) 4

/-- The loop of `iso_read_sectors_batch`; each turn reads a sector at least. -/
def isoReadSectorsLoop (fs : IsoFs) (drive : IsoDrive) : Nat → Nat → Nat → Option (List UInt8)
  | 0, _, remaining => if remaining = 0 then some [] else none
  | fuel + 1, lba, remaining =>
      if remaining = 0 then some []
      else
        let step := min remaining (if fs.isAtapi then 255 else 63)
        let now := if fs.isAtapi then ataReadCdSectors drive lba step
          else ataReadSectors drive (fs.physLba lba) (step * 4 % 256)
        now.bind fun dst =>
          (isoReadSectorsLoop fs drive fuel ((lba + step) % 2 ^ 32) (remaining - step)).map (dst ++ ·)

/-- `iso_read_sectors_batch`. -/
def isoReadSectorsBatch (fs : IsoFs) (drive : IsoDrive) (lba count : Nat) :
    Option (List UInt8) := isoReadSectorsLoop fs drive count lba count

/-- What both functions end with: the full sectors in `remaining` bytes from `lba` on, then
the beginning of the next for the rest. -/
def isoReadSpan (fs : IsoFs) (drive : IsoDrive) (lba remaining : Nat) : Option (List UInt8) :=
  let full := remaining / isoSectorSize
  let batch := if 0 < full then isoReadSectorsBatch fs drive lba full else some []
  batch.bind fun dst =>
    let tail := remaining - full * isoSectorSize
    if 0 < tail then
      (isoReadSector fs drive ((lba + full) % 2 ^ 32)).map fun sec => dst ++ sec.take tail
    else some dst

/-- `iso_op_read_file`, with the node that the path leads to, into a buffer of `outCap` bytes
if there is one: the length reported, and the bytes stored. -/
def isoOpReadFile (fs : IsoFs) (drive : IsoDrive) (node : Option IsoNode) (outCap : Option Nat) :
    Except Int (Nat × List UInt8) :=
  if !fs.mounted then .error (-1)
  else match node with
    | none => .error (-1)
    | some node =>
        if node.isDir then .error (-2)
        else match outCap with
          | none => .ok (node.size, [])
          | some outCap =>
              if outCap < node.size then .error (-3)
              else match isoReadSpan fs drive node.lba node.size with
                | none => .error (-4)
                | some dst => .ok (node.size, dst)

/-- What `iso_fs_read_file_range` stores and reports. -/
structure RangeRead where
  out : List UInt8
  outRead : Nat
  outFileLen : Nat

/-- The rest of the first sector, from `secOff` on. -/
def isoReadHead (fs : IsoFs) (drive : IsoDrive) (lba secOff chunk : Nat) : Option (List UInt8) :=
  if secOff = 0 then some []
  else (isoReadSector fs drive lba).map fun sec => (sec.drop secOff).take chunk

/-- `iso_fs_read_file_range`. -/
def isoFsReadFileRange (fs : IsoFs) (drive : IsoDrive) (node : Option IsoNode)
    (offset len : Nat) : Except Int RangeRead :=
  match node with
  | none => .error (-1)
  | some node =>
      if node.isDir then .error (-2)
      else if node.size ≤ offset then .ok ⟨[], 0, node.size⟩
      else
        let toCopy := min len (node.size - offset)
        let lba := (node.lba + offset / isoSectorSize % 2 ^ 32) % 2 ^ 32
        let secOff := offset % isoSectorSize
        let copied := if secOff = 0 then 0 else min toCopy (isoSectorSize - secOff)
        match isoReadHead fs drive lba secOff copied with
        | none => .error (-4)
        | some head =>
            let lba := if secOff = 0 then lba else (lba + 1) % 2 ^ 32
            match isoReadSpan fs drive lba (toCopy - copied) with
            | none => .error (-4)
            | some rest => .ok ⟨head ++ rest, copied + rest.length, node.size⟩

/-! ## What is claimed -/

/-- The numbers fit in the fields of a record. -/
structure IsoNode.Fits (node : IsoNode) : Prop where
  lba : node.lba < 2 ^ 32
  size : node.size < 2 ^ 32

/-- Whatever is on the drive: a batch is its sectors one by one, and where the whole file can be
read, any range of it is the slice, with its length. -/
structure RangeIsSlice (fs : IsoFs) (node : IsoNode) : Prop where
  batch : ∀ drive l n, node.lba ≤ l → l + n ≤ node.lba + node.size / isoSectorSize →
    isoReadSectorsBatch fs drive (l % 2 ^ 32) n =
      gather (fun k => isoReadSector fs drive (k % 2 ^ 32)) l n
  range : ∀ drive cap whole, isoOpReadFile fs drive (some node) (some cap) = .ok (node.size, whole) →
    ∀ offset len, isoFsReadFileRange fs drive (some node) offset len =
      .ok ⟨(whole.drop offset).take len, min len (node.size - offset), node.size⟩

/-- The numbers of the full sectors of the file do not wrap, or the drive is a CD drive, whose
addresses wrap with them. -/
def SectorsFit (fs : IsoFs) (node : IsoNode) : Prop :=
  fs.isAtapi = true ∨ node.lba + node.size / isoSectorSize ≤ 2 ^ 32

/-! ## The batch -/

section Batch

variable {fs : IsoFs} {drive : IsoDrive}

/-- A sector of the volume by its number, which is cut to 32 bits. -/
def isoSector (fs : IsoFs) (drive : IsoDrive) (k : Nat) : Option (List UInt8) :=
  isoReadSector fs drive (k % 2 ^ 32)

theorem bytes_length {size lba : Nat} {b : List UInt8} (eq : drive.bytes size lba = some b) :
    b.length = size := by
  unfold IsoDrive.bytes at eq
  obtain ⟨c, -, rfl⟩ := Option.map_eq_some_iff.mp eq
  exact slice_length

theorem ataReadSectors_length {lba count : Nat} {b : List UInt8}
    (eq : ataReadSectors drive lba count = some b) : b.length = 512 * count := by
  unfold ataReadSectors at eq
  split at eq
  next => cases eq
  next =>
    split at eq
    next => cases eq
    next => exact gather_length (fun k a piece => bytes_length piece) eq

theorem ataReadCdSectors_length {lba count : Nat} {b : List UInt8}
    (eq : ataReadCdSectors drive lba count = some b) : b.length = 2048 * count := by
  unfold ataReadCdSectors at eq
  split at eq
  next => cases eq
  next => exact gather_length (fun k a piece => bytes_length piece) eq

theorem isoSector_length (k : Nat) (b : List UInt8) (eq : isoSector fs drive k = some b) :
    b.length = isoSectorSize := by
  unfold isoSector isoReadSector at eq
  split at eq
  next => simpa [isoSectorSize] using ataReadCdSectors_length eq
  next => simpa [isoSectorSize] using ataReadSectors_length eq

/-- A transfer from a CD drive is its sectors one by one. -/
theorem ataReadCdSectors_eq {l n : Nat} (pos : 0 < n) (atapi : fs.isAtapi = true) :
    ataReadCdSectors drive (l % 2 ^ 32) n = gather (isoSector fs drive) l n := by
  unfold ataReadCdSectors
  rw [if_neg (by omega)]
  apply gather_congr
  intro k _
  unfold isoSector isoReadSector
  rw [if_pos atapi, ataReadCdSectors, if_neg (by decide), gather_one]
  simp only [Nat.zero_add, Nat.add_zero, Nat.mod_add_mod, Nat.mod_mod]

/-- The check of the end of the drive passes for a run of sectors if it does for each four. -/
theorem ata_check_iff (drive : IsoDrive) {base n : Nat} (pos : 0 < n) (few : n ≤ 63) (fits : base < 2 ^ 64) :
    (¬ (0 < drive.total ∧ (drive.total ≤ base ∨ drive.total < (base + n * 4) % 2 ^ 64))) ↔
      ∀ k < n, ¬ (0 < drive.total ∧ (drive.total ≤ (base + 4 * k) % 2 ^ 64 ∨
        drive.total < ((base + 4 * k) % 2 ^ 64 + 4) % 2 ^ 64)) := by
  have most := drive.addressable
  constructor
  · intro whole k lt
    omega
  · intro parts
    have first := parts 0 pos
    have last := parts (n - 1) (by omega)
    omega

/-- A transfer from a partition is its sectors one by one, as long as their numbers fit. -/
theorem ataReadSectors_eq {l n : Nat} (pos : 0 < n) (few : n ≤ 63) (disk : fs.isAtapi = false)
    (fits : l + n ≤ 2 ^ 32) :
    ataReadSectors drive (fs.physLba (l % 2 ^ 32)) (n * 4 % 256) =
      gather (isoSector fs drive) l n := by
  have base_lt : fs.physLba l < 2 ^ 64 := Nat.mod_lt _ (by decide)
  rw [Nat.mod_eq_of_lt (show l < 2 ^ 32 by omega), Nat.mod_eq_of_lt (show n * 4 < 256 by omega)]
  -- the sector `l + k` is the four from `base + 4 * k` on
  have single : ∀ k < n, isoSector fs drive (l + k) =
      ataReadSectors drive ((fs.physLba l + 4 * k) % 2 ^ 64) 4 := by
    intro k lt
    have place : fs.physLba (l + k) = (fs.physLba l + 4 * k) % 2 ^ 64 := by
      unfold IsoFs.physLba
      rw [Nat.mod_add_mod]
      congr 1
      omega
    unfold isoSector isoReadSector
    rw [Nat.mod_eq_of_lt (by omega), if_neg (by simp [disk]), place]
  have four : ∀ k, gather (fun s => drive.bytes 512 ((fs.physLba l + s) % 2 ^ 64)) (0 + 4 * k) 4 =
      gather (fun s => drive.bytes 512 (((fs.physLba l + 4 * k) % 2 ^ 64 + s) % 2 ^ 64)) 0 4 := by
    intro k
    apply gather_congr
    intro s _
    congr 1
    rw [Nat.mod_add_mod]
    congr 1
    omega
  unfold ataReadSectors at single ⊢
  rw [if_neg (by omega)]
  by_cases whole : 0 < drive.total ∧
      (drive.total ≤ fs.physLba l ∨ drive.total < (fs.physLba l + n * 4) % 2 ^ 64)
  · -- some sector of the run is refused as well
    rw [if_pos whole]
    have parts := (not_congr (ata_check_iff drive pos few base_lt)).mp (not_not.mpr whole)
    simp only [not_forall, not_not] at parts
    obtain ⟨k, lt, refused⟩ := parts
    have none_here : isoSector fs drive (l + k) = none := by
      rw [single k lt, if_neg (by decide), if_pos refused]
    cases eq : gather (isoSector fs drive) l n with
    | none => rfl
    | some d =>
        obtain ⟨a, piece, -⟩ := getElem?_gather (fun k a => isoSector_length k a) eq (o := 0) lt
          (by decide)
        rw [none_here] at piece
        cases piece
  · rw [if_neg whole]
    have parts := (ata_check_iff drive pos few base_lt).mp whole
    rw [show n * 4 = 4 * n from by omega]
    have joined := gather_mul (f := fun s => drive.bytes 512 ((fs.physLba l + s) % 2 ^ 64)) (i := 0)
      (j := 0) (m := 4) (n := n)
    rw [Nat.mul_zero, Nat.add_zero] at joined
    rw [← joined]
    apply gather_congr
    intro k lt
    rw [single k lt, if_neg (by decide), if_neg (parts k lt), ← four k, Nat.zero_add k]

theorem isoReadSectorsLoop_eq {fuel l n : Nat} (enough : n ≤ fuel)
    (fits : fs.isAtapi = true ∨ l + n ≤ 2 ^ 32) :
    isoReadSectorsLoop fs drive fuel (l % 2 ^ 32) n = gather (isoSector fs drive) l n := by
  induction fuel generalizing l n with
  | zero =>
      obtain rfl : n = 0 := by omega
      rfl
  | succ fuel ih =>
      rw [isoReadSectorsLoop]
      by_cases done : n = 0
      · rw [if_pos done, done]
        rfl
      · rw [if_neg done]
        dsimp only
        -- how many sectors this turn reads
        generalize hstep : min n (if fs.isAtapi = true then 255 else 63) = step
        have bounds : 0 < step ∧ step ≤ n ∧ (fs.isAtapi = false → step ≤ 63) := by
          cases h : fs.isAtapi with
          | true =>
              rw [h, if_pos rfl] at hstep
              exact ⟨by omega, by omega, fun f => by cases f⟩
          | false =>
              rw [h, if_neg (by decide)] at hstep
              exact ⟨by omega, by omega, fun _ => by omega⟩
        have now : (if fs.isAtapi = true then ataReadCdSectors drive (l % 2 ^ 32) step
            else ataReadSectors drive (fs.physLba (l % 2 ^ 32)) (step * 4 % 256)) =
            gather (isoSector fs drive) l step := by
          cases h : fs.isAtapi with
          | true => exact ataReadCdSectors_eq bounds.1 h
          | false =>
              have room := fits.resolve_left (by simp [h])
              exact ataReadSectors_eq bounds.1 (bounds.2.2 h) h (by omega)
        have rest := ih (l := l + step) (n := n - step) (by omega) (fits.imp_right fun _ => by omega)
        rw [now, Nat.mod_add_mod, rest]
        have parts : n = step + (n - step) := by omega
        conv_rhs => rw [parts, gather_add]

/-- A batch is its sectors one by one. -/
theorem isoReadSectorsBatch_eq {l n : Nat} (fits : fs.isAtapi = true ∨ l + n ≤ 2 ^ 32) :
    isoReadSectorsBatch fs drive (l % 2 ^ 32) n = gather (isoSector fs drive) l n :=
  isoReadSectorsLoop_eq (le_refl n) fits

/-- Full sectors and a tail are the beginning of the sectors they come from. -/
theorem isoReadSpan_eq {l remaining : Nat}
    (fits : 0 < remaining / isoSectorSize →
      fs.isAtapi = true ∨ l + remaining / isoSectorSize ≤ 2 ^ 32) :
    isoReadSpan fs drive (l % 2 ^ 32) remaining =
      (gather (isoSector fs drive) l ((remaining + isoSectorSize - 1) / isoSectorSize)).map
        (List.take remaining) := by
  have batch : (if 0 < remaining / isoSectorSize then
      isoReadSectorsBatch fs drive (l % 2 ^ 32) (remaining / isoSectorSize) else some []) =
      gather (isoSector fs drive) l (remaining / isoSectorSize) := by
    split
    next full => exact isoReadSectorsBatch_eq (fits full)
    next none_full =>
      rw [Nat.eq_zero_of_not_pos none_full]
      rfl
  have size : isoSectorSize = 2048 := rfl
  unfold isoReadSpan
  dsimp only
  rw [batch]
  by_cases tail : 0 < remaining - remaining / isoSectorSize * isoSectorSize
  · have count : (remaining + isoSectorSize - 1) / isoSectorSize =
        remaining / isoSectorSize + 1 := by
      rw [size] at tail ⊢
      omega
    have last : isoReadSector fs drive ((l % 2 ^ 32 + remaining / isoSectorSize) % 2 ^ 32) =
        isoSector fs drive (l + remaining / isoSectorSize) := by
      rw [Nat.mod_add_mod]
      rfl
    rw [count, gather_add, gather_one]
    simp only [if_pos tail, last]
    cases full : gather (isoSector fs drive) l (remaining / isoSectorSize) with
    | none => rfl
    | some a =>
        have len := gather_length (fun k a => isoSector_length k a) full
        have whole : a.take remaining = a :=
          List.take_of_length_le (by rw [len]; exact Nat.mul_div_le _ _)
        cases isoSector fs drive (l + remaining / isoSectorSize) with
        | none => rfl
        | some b =>
            simp only [Option.bind_some, Option.map_some, List.take_append, whole, len]
            rw [Nat.mul_comm]
  · have count : (remaining + isoSectorSize - 1) / isoSectorSize = remaining / isoSectorSize := by
      rw [size] at tail ⊢
      omega
    rw [count]
    simp only [if_neg tail]
    cases full : gather (isoSector fs drive) l (remaining / isoSectorSize) with
    | none => rfl
    | some a =>
        have len := gather_length (fun k a => isoSector_length k a) full
        have whole : a.take remaining = a :=
          List.take_of_length_le (by rw [len]; exact Nat.mul_div_le _ _)
        rw [Option.bind_some, Option.map_some, whole]

end Batch

/-! ## The range -/

section Range

variable {fs : IsoFs} {drive : IsoDrive} {node : IsoNode}

/-- How many sectors the file has a byte in. -/
def IsoNode.sectors (node : IsoNode) : Nat := (node.size + isoSectorSize - 1) / isoSectorSize

/-- A whole file that is read is the beginning of its sectors. -/
theorem isoOpReadFile_ok {cap : Nat} {whole : List UInt8} (fields : node.Fits)
    (fit : SectorsFit fs node)
    (eq : isoOpReadFile fs drive (some node) (some cap) = .ok (node.size, whole)) :
    node.isDir = false ∧ ∃ d, gather (isoSector fs drive) node.lba node.sectors = some d ∧
      whole = d.take node.size := by
  unfold isoOpReadFile at eq
  split at eq
  next => cases eq
  next =>
    dsimp only at eq
    split at eq
    next => cases eq
    next file =>
      split at eq
      next => cases eq
      next =>
        have span := @isoReadSpan_eq fs drive node.lba node.size fun _ => fit
        rw [Nat.mod_eq_of_lt fields.lba] at span
        rw [span] at eq
        cases read : gather (isoSector fs drive) node.lba
            ((node.size + isoSectorSize - 1) / isoSectorSize) with
        | none =>
            rw [read] at eq
            cases eq
        | some d =>
            rw [read] at eq
            have same := Except.ok.inj eq
            exact ⟨by simpa using file, d, read, (Prod.mk.inj same).2.symm⟩

/-- The head of the range is the end of its first sector. -/
theorem isoReadHead_eq {i secOff chunk : Nat} (off : secOff ≠ 0) :
    isoReadHead fs drive (i % 2 ^ 32) secOff chunk =
      (isoSector fs drive i).map fun sec => (sec.drop secOff).take chunk := by
  unfold isoReadHead
  rw [if_neg off]
  rfl

/-- A range that begins with a sector. -/
theorem range_aligned {i t : Nat} {d : List UInt8} (fit : SectorsFit fs node)
    (read : gather (isoSector fs drive) node.lba node.sectors = some d)
    (inside : isoSectorSize * i + t ≤ node.size) :
    ∃ rest, isoReadSpan fs drive ((node.lba + i) % 2 ^ 32) t = some rest ∧
      rest = (d.drop (isoSectorSize * i)).take t ∧ rest.length = t := by
  have size : isoSectorSize = 2048 := rfl
  have count : node.sectors = i + ((t + isoSectorSize - 1) / isoSectorSize +
      (node.sectors - i - (t + isoSectorSize - 1) / isoSectorSize)) := by
    unfold IsoNode.sectors
    rw [size] at inside ⊢
    omega
  rw [count] at read
  obtain ⟨a, bc, before, after, rfl⟩ := gather_split read
  obtain ⟨b, c, here, -, rfl⟩ := gather_split after
  have len_a := gather_length (fun k a => isoSector_length k a) before
  have len_b := gather_length (fun k a => isoSector_length k a) here
  have enough : t ≤ b.length := by
    rw [len_b, size]
    omega
  have fits : 0 < t / isoSectorSize →
      fs.isAtapi = true ∨ node.lba + i + t / isoSectorSize ≤ 2 ^ 32 := by
    intro _
    refine fit.imp_right fun room => ?_
    rw [size] at inside room ⊢
    omega
  refine ⟨b.take t, ?_, ?_, ?_⟩
  · rw [isoReadSpan_eq fits, here, Option.map_some]
  · rw [← len_a, List.drop_left, List.take_append_of_le_length enough]
  · rw [List.length_take, Nat.min_eq_left enough]

/-- The range read is the slice of the sectors. -/
theorem isoFsReadFileRange_ok {offset len : Nat} {d : List UInt8} (fields : node.Fits)
    (file : node.isDir = false) (fit : SectorsFit fs node)
    (read : gather (isoSector fs drive) node.lba node.sectors = some d) (lt : offset < node.size) :
    isoFsReadFileRange fs drive (some node) offset len =
      .ok ⟨(d.drop offset).take (min len (node.size - offset)), min len (node.size - offset),
        node.size⟩ := by
  have size : isoSectorSize = 2048 := rfl
  have small := fields.size
  have le : min len (node.size - offset) ≤ node.size - offset := Nat.min_le_right _ _
  unfold isoFsReadFileRange
  dsimp only
  rw [if_neg (by simp [file]), if_neg (by omega)]
  generalize min len (node.size - offset) = t at le ⊢
  have index : offset / isoSectorSize % 2 ^ 32 = offset / isoSectorSize :=
    Nat.mod_eq_of_lt (by rw [size]; omega)
  have place := Nat.div_add_mod offset isoSectorSize
  rw [index]
  by_cases off : offset % isoSectorSize = 0
  · rw [if_pos off, if_pos off]
    have head : isoReadHead fs drive ((node.lba + offset / isoSectorSize) % 2 ^ 32)
        (offset % isoSectorSize) 0 = some [] := by
      unfold isoReadHead
      rw [if_pos off]
    obtain ⟨rest, eq, slice_eq, length⟩ :=
      range_aligned (t := t) (i := offset / isoSectorSize) fit read (by omega)
    rw [head]
    dsimp only
    rw [Nat.sub_zero, eq]
    dsimp only
    rw [List.nil_append, Nat.zero_add, length, slice_eq]
    rw [off, Nat.add_zero] at place
    rw [place]
  · rw [if_neg off, if_neg off]
    -- the first sector of the range, and what its end gives
    have count : node.sectors = offset / isoSectorSize +
        (1 + (node.sectors - offset / isoSectorSize - 1)) := by
      unfold IsoNode.sectors
      rw [size] at place ⊢
      omega
    have whole := read
    rw [count] at whole
    obtain ⟨a, bc, before, after, rfl⟩ := gather_split whole
    obtain ⟨b, c, first, -, rfl⟩ := gather_split after
    rw [gather_one] at first
    have len_a := gather_length (fun k a => isoSector_length k a) before
    have len_b := isoSector_length _ b first
    have short := Nat.mod_lt offset (show 0 < isoSectorSize by decide)
    rw [isoReadHead_eq off, first]
    dsimp only [Option.map_some]
    rw [Nat.mod_add_mod, Nat.add_assoc]
    have dropped : (a ++ (b ++ c)).drop offset = b.drop (offset % isoSectorSize) ++ c := by
      conv_lhs => rw [← place, ← List.drop_drop, ← len_a, List.drop_left]
      rw [List.drop_append_of_le_length (by omega)]
    have len_head : (b.drop (offset % isoSectorSize)).length =
        isoSectorSize - offset % isoSectorSize := by
      rw [List.length_drop, len_b]
    by_cases more : isoSectorSize - offset % isoSectorSize ≤ t
    · obtain ⟨rest, eq, slice_eq, length⟩ := range_aligned
        (t := t - (isoSectorSize - offset % isoSectorSize)) (i := offset / isoSectorSize + 1) fit read
        (by rw [Nat.mul_add, Nat.mul_one]; omega)
      rw [Nat.min_eq_right more, eq]
      dsimp only
      rw [length, dropped, List.take_append, len_head, slice_eq]
      have next : (a ++ (b ++ c)).drop (isoSectorSize * (offset / isoSectorSize + 1)) = c := by
        rw [Nat.mul_add, Nat.mul_one, ← List.drop_drop, ← len_a, List.drop_left, ← len_b,
          List.drop_left]
      rw [next, List.take_of_length_le (le_of_eq len_head), List.take_of_length_le
        (len_head.le.trans more), Nat.add_sub_of_le more]
    · have empty : isoReadSpan fs drive ((node.lba + (offset / isoSectorSize + 1)) % 2 ^ 32) 0 =
          some [] := by
        rw [isoReadSpan_eq (fun some_full => absurd some_full (by decide))]
        rfl
      have less : t ≤ isoSectorSize - offset % isoSectorSize := by omega
      rw [Nat.min_eq_left less, Nat.sub_self, empty]
      dsimp only
      rw [List.append_nil, List.length_nil, Nat.add_zero, dropped,
        List.take_append_of_le_length (by rw [len_head]; exact less)]

end Range

/-! ## The exact condition -/

/-- A drive that has other sectors beyond 2^34 sectors of the partition. -/
def farDrive (p : Nat) : IsoDrive where
  total := 0
  sector a := some fun _ => if 2 ^ 34 ≤ (a + (2 ^ 64 - p % 2 ^ 64)) % 2 ^ 64 then 1 else 0
  addressable := by omega

theorem farDrive_bytes (p x : Nat) (lt : x < 2 ^ 64) {size : Nat} :
    (farDrive p).bytes size ((p + x) % 2 ^ 64) =
      some (List.replicate size (if 2 ^ 34 ≤ x then 1 else 0)) := by
  have place : ((p + x) % 2 ^ 64 + (2 ^ 64 - p % 2 ^ 64)) % 2 ^ 64 = x := by omega
  unfold IsoDrive.bytes farDrive
  simp only [Option.map_some, place, slice]
  rw [List.map_const', List.length_range]

/-- A run of sectors of the far drive, by the place of each. -/
theorem farDrive_read (p x count : Nat) (pos : 0 < count) (lt : x + count ≤ 2 ^ 64) :
    ataReadSectors (farDrive p) ((p + x) % 2 ^ 64) count =
      gather (fun s => some (List.replicate 512 (if 2 ^ 34 ≤ x + s then 1 else 0))) 0 count := by
  unfold ataReadSectors
  rw [if_neg (by omega), if_neg (fun far => Nat.lt_irrefl 0 far.1)]
  apply gather_congr
  intro s less
  rw [Nat.mod_add_mod, Nat.add_assoc]
  exact farDrive_bytes p (x + (0 + s)) (by omega)

/-- The first byte of each sector of a run. -/
theorem farDrive_run (p x count : Nat) (pos : 0 < count) (lt : x + count ≤ 2 ^ 64) :
    ∃ d, ataReadSectors (farDrive p) ((p + x) % 2 ^ 64) count = some d ∧
      ∀ k < count, d[512 * k]? = some (if 2 ^ 34 ≤ x + k then 1 else 0) := by
  rw [farDrive_read p x count pos lt]
  generalize hf : (fun s => some (List.replicate 512 (if 2 ^ 34 ≤ x + s then (1 : UInt8) else 0))) = f
  have pieces : ∀ k a, f k = some a → a.length = 512 := by
    intro k a eq
    rw [← hf] at eq
    obtain rfl := Option.some.inj eq
    exact List.length_replicate
  have all : ∀ k < count, (f (0 + k)).isSome = true := by
    intro k _
    rw [← hf]
    rfl
  obtain ⟨d, found⟩ := Option.isSome_iff_exists.mp (gather_isSome all)
  refine ⟨d, found, ?_⟩
  intro k less
  obtain ⟨a, piece, here⟩ := getElem?_gather pieces found (o := 0) less (by decide)
  rw [← hf] at piece
  obtain rfl := Option.some.inj piece
  rw [Nat.add_zero, Nat.zero_add] at here
  exact here

section Far

variable {fs : IsoFs}

/-- The sector at address zero of the far drive. -/
theorem farDrive_first (disk : fs.isAtapi = false) {k : Nat} (wraps : k % 2 ^ 32 = 0) :
    ∃ b, isoSector fs (farDrive fs.partitionLba) k = some b ∧ b[0]? = some 0 := by
  obtain ⟨d, read, bytes⟩ := farDrive_run fs.partitionLba 0 4 (by decide) (by decide)
  refine ⟨d, ?_, bytes 0 (by decide)⟩
  unfold isoSector isoReadSector IsoFs.physLba
  rw [wraps, if_neg (by simp [disk]), Nat.zero_mul, read]

/-- In a batch of two the sector behind the last number is the one behind on the drive. -/
theorem farDrive_batch (disk : fs.isAtapi = false) :
    ∃ b, isoReadSectorsBatch fs (farDrive fs.partitionLba) ((2 ^ 32 - 1) % 2 ^ 32) 2 = some b ∧
      b[2048]? = some 1 := by
  obtain ⟨d, read, bytes⟩ :=
    farDrive_run fs.partitionLba ((2 ^ 32 - 1) * 4) 8 (by decide) (by decide)
  have now : ataReadSectors (farDrive fs.partitionLba) (fs.physLba ((2 ^ 32 - 1) % 2 ^ 32))
      (2 * 4 % 256) = some d := read
  refine ⟨d, ?_, bytes 4 (by decide)⟩
  unfold isoReadSectorsBatch isoReadSectorsLoop
  rw [if_neg (by decide)]
  simp only [disk, Bool.false_eq_true, ↓reduceIte]
  rw [show min 2 63 = 2 from rfl, now]
  exact congrArg some (List.append_nil d)

end Far

/-- For every volume and file record: a batch is its sectors, and any range the slice of the whole
file, whatever is on the drive, exactly if the numbers of the full sectors fit in 32 bits or
the drive is a CD drive. -/
theorem iso_range_iff (fs : IsoFs) (node : IsoNode) (fields : node.Fits) :
    RangeIsSlice fs node ↔ SectorsFit fs node := by
  constructor
  · intro slices
    by_contra wraps
    obtain ⟨disk, far⟩ : fs.isAtapi = false ∧ 2 ^ 32 < node.lba + node.size / isoSectorSize := by
      unfold SectorsFit at wraps
      push Not at wraps
      exact ⟨by simpa using wraps.1, wraps.2⟩
    have lba := fields.lba
    have same := slices.batch (farDrive fs.partitionLba) (2 ^ 32 - 1) 2 (by omega) (by omega)
    obtain ⟨b, batch, one⟩ := farDrive_batch disk
    obtain ⟨c, sector, zero⟩ := farDrive_first (k := 2 ^ 32 - 1 + 1) disk (by decide)
    rw [batch] at same
    obtain ⟨a, piece, here⟩ := getElem?_gather
      (@isoSector_length fs (farDrive fs.partitionLba))
      same.symm (k := 1) (o := 0) (by decide) (by decide)
    obtain rfl : c = a := Option.some.inj (sector.symm.trans piece)
    have clash : some (1 : UInt8) = some 0 := one.symm.trans (here.trans zero)
    exact absurd clash (by decide)
  · intro fit
    constructor
    case batch =>
      intro drive l n _ within
      exact isoReadSectorsBatch_eq (fit.imp_right fun room => by omega)
    case range =>
      intro drive cap whole eq offset len
      obtain ⟨file, d, read, rfl⟩ := isoOpReadFile_ok fields fit eq
      rcases Nat.lt_or_ge offset node.size with inside | behind
      · rw [isoFsReadFileRange_ok fields file fit read inside, List.drop_take, List.take_take]
      · have length : (d.take node.size).length ≤ offset :=
          le_trans (List.length_take_le _ _) behind
        unfold isoFsReadFileRange
        dsimp only
        rw [if_neg (by simp [file]), if_pos behind, List.drop_eq_nil_of_le length, List.take_nil,
          Nat.sub_eq_zero_of_le behind, Nat.min_zero]

/-- A record of two sectors, the first of them the last that 32 bits number. -/
def lastNode : IsoNode := ⟨2 ^ 32 - 1, 4096, 0⟩

/-- Its second sector, read alone, is the first of the partition. -/
theorem last_sector_wraps :
    ¬ ∀ fs node, node.Fits → RangeIsSlice fs node := by
  intro slices
  have fields : lastNode.Fits := ⟨by decide, by decide⟩
  have range := (slices ⟨true, false, 0⟩ lastNode fields).range (farDrive 0) 4096
  obtain ⟨b, batch, one⟩ := @farDrive_batch ⟨true, false, 0⟩ rfl
  obtain ⟨c, sector, zero⟩ := @farDrive_first ⟨true, false, 0⟩ rfl 0 rfl
  have whole : isoOpReadFile ⟨true, false, 0⟩ (farDrive 0) (some lastNode) (some 4096) =
      .ok (lastNode.size, b) := by
    have span : isoReadSpan ⟨true, false, 0⟩ (farDrive 0) lastNode.lba lastNode.size = some b := by
      unfold isoReadSpan
      dsimp only
      rw [if_pos (by decide), show lastNode.size / isoSectorSize = 2 from rfl,
        show lastNode.lba = (2 ^ 32 - 1) % 2 ^ 32 from rfl, batch, Option.bind_some,
        if_neg (by decide)]
    unfold isoOpReadFile
    rw [if_neg (by decide)]
    dsimp only
    rw [if_neg (by decide), if_neg (by decide), span]
  have alone : isoFsReadFileRange ⟨true, false, 0⟩ (farDrive 0) (some lastNode) 2048 1 =
      .ok ⟨c.take 1, (c.take 1).length, 4096⟩ := by
    have span : isoReadSpan ⟨true, false, 0⟩ (farDrive 0) 0 1 = some (c.take 1) := by
      have here : isoReadSector ⟨true, false, 0⟩ (farDrive 0) ((0 + 0) % 2 ^ 32) = some c := sector
      unfold isoReadSpan
      dsimp only
      rw [if_neg (by decide), Option.bind_some, if_pos (by decide),
        show 1 / isoSectorSize = 0 from rfl, here]
      rfl
    unfold isoFsReadFileRange isoReadHead
    dsimp only
    simp only [if_neg (show ¬ lastNode.isDir = true from by decide),
      if_neg (show ¬ lastNode.size ≤ 2048 from by decide),
      if_pos (show 2048 % isoSectorSize = 0 from rfl)]
    rw [show (lastNode.lba + 2048 / isoSectorSize % 2 ^ 32) % 2 ^ 32 = 0 from rfl,
      show min 1 (lastNode.size - 2048) - 0 = 1 from rfl, span]
    dsimp only
    rw [List.nil_append, Nat.zero_add]
    rfl
  have same := Except.ok.inj (alone.symm.trans (range b whole 2048 1))
  have bytes := congrArg (fun r => r.out[0]?) same
  have clash : some (0 : UInt8) = some 1 := by
    rw [← zero, ← one]
    simpa [List.getElem?_take, List.getElem?_drop] using bytes
  exact absurd clash (by decide)

/-- A file of five bytes. -/
theorem iso_range_small : RangeIsSlice ⟨true, false, 0⟩ ⟨20, 5, 0⟩ ↔
    SectorsFit ⟨true, false, 0⟩ ⟨20, 5, 0⟩ :=
  iso_range_iff _ _ ⟨by decide, by decide⟩

end NTux.Fs
