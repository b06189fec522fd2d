import Mathlib.Data.List.Basic
import NTux.Lib.Packed

/-!
# The partitions of a drive

`fs_list_partitions`, which reports the partitions of a drive, and `fs_probe_partitions`,
which tries to mount them: two walks over the same tables, of a GPT or of an MBR with its
chain of extended boot records.

`logicals` is that chain and `OnDisk` says which partitions the tables of the drive
describe, in numbers without a width.  The probe attempts exactly these.  The list
computes the start of a logical partition in 32 bits and the end of a GPT partition in 64,
and agrees with the probe, inside the drive, exactly if neither matters
(`partitions_agree_iff`).
-/

namespace NTux.Fs

open NTux.Lib NTux.Lib.Bytes

/-- `fs_block_dev_t`, and the sectors that can be read. -/
structure BlockDev where
  present : Bool
  isAtapi : Bool
  sectors : Nat
  read : Nat → Option Bytes
  inWidth : sectors < 18446744073709551616

/-- What a `uint32_t` holds of a number. -/
def wrap32 (n : Nat) : Nat := n % 4294967296

/-- What a `uint64_t` holds of it. -/
def wrap64 (n : Nat) : Nat := n % 18446744073709551616

/-- `fs_partition_info_t`. -/
structure PartitionInfo where
  index : Nat
  type : UInt8
  bootable : Nat
  lbaStart : Nat
  sectors : Nat
  deriving DecidableEq

/-- A call of `fs_try_mount_partition`. -/
structure MountAttempt where
  lba : Nat
  sectors : Nat
  type : UInt8
  partNo : Nat
  deriving DecidableEq

/-- Start, length and type of a partition. -/
structure Extent where
  start : Nat
  length : Nat
  type : UInt8
  deriving DecidableEq

/-- What the list reports of a partition. -/
def PartitionInfo.extent (p : PartitionInfo) : Extent := ⟨p.lbaStart, p.sectors, p.type⟩

/-- What the probe asks for. -/
def MountAttempt.extent (m : MountAttempt) : Extent := ⟨m.lba, m.sectors, m.type⟩

/-! ## The tables -/

/-- `fs_rd64_le`. -/
def rd64 (p : Bytes) (o : Nat) : Nat := rd32 p o + 4294967296 * rd32 p (o + 4)

/-- An entry of the table in an MBR or an extended boot record. -/
structure MbrPart where
  status : UInt8
  type : UInt8
  lbaFirst : Nat
  sectors : Nat
  deriving DecidableEq

/-- `part[i]` of an `mbr_sector_t`. -/
def mbrPart (sec : Bytes) (i : Nat) : MbrPart :=
  ⟨sec (446 + 16 * i), sec (446 + 16 * i + 4), rd32 sec (446 + 16 * i + 8),
    rd32 sec (446 + 16 * i + 12)⟩

/-- `sig == 0xAA55`. -/
def hasSignature (sec : Bytes) : Bool := rd16 sec 510 = 0xAA55

/-- `fs_is_extended_mbr_type`. -/
def fsIsExtendedMbrType (type : UInt8) : Bool := type = 0x05 || type = 0x0F || type = 0x85

/-- `fs_guid_is_zero`. -/
def fsGuidIsZero (ent : Bytes) : Bool := (List.range 16).all fun i => ent i = 0

/-- The kernel's `memcmp`, a `bool`: it holds of equal buffers. -/
def memcmp (s1 s2 : Bytes) (len : Nat) : Bool := (List.range len).all fun i => s1 i == s2 i

/-- `guid_efi_system`. -/
def guidEfiSystem : List UInt8 :=
  [0x28, 0x73, 0x2A, 0xC1, 0x1F, 0xF8, 0xD2, 0x11, 0xBA, 0x4B, 0x00, 0xA0, 0xC9, 0x3E, 0xC9, 0x3B]

/-- `guid_ms_basic`. -/
def guidMsBasic : List UInt8 :=
  [0xA2, 0xA0, 0xD0, 0xEB, 0xE5, 0xB9, 0x33, 0x44, 0x87, 0xC0, 0x68, 0xB6, 0xB7, 0x26, 0x99, 0xC7]

/-- `guid_linux_fs`. -/
def guidLinuxFs : List UInt8 :=
  [0xAF, 0x3D, 0xC6, 0x0F, 0x83, 0x84, 0x72, 0x47, 0x8E, 0x79, 0x3D, 0x69, 0xD8, 0x47, 0x7D, 0xE4]

theorem memcmp_ofList (p : Bytes) (s : List UInt8) :
    memcmp p (Packed.ofList s) s.length = true ↔ slice p 0 s.length = s := by
  unfold memcmp
  rw [List.all_eq_true]
  constructor
  · intro same
    refine slice_eq_list fun i lt => ?_
    rw [Nat.zero_add]
    exact beq_iff_eq.1 (same i (List.mem_range.2 lt))
  · intro same i mem
    have lt := List.mem_range.1 mem
    have at_ : (slice p 0 s.length)[i]? = s[i]? := by rw [same]
    rw [slice, List.getElem?_map, List.getElem?_range lt, Option.map_some, Nat.zero_add] at at_
    rw [beq_iff_eq, Packed.ofList, List.getD_eq_getElem?_getD, ← at_, Option.getD_some]

/-- The comparison with 0 holds of buffers that differ. -/
theorem memcmp_false {p : Bytes} {s : List UInt8} :
    memcmp p (Packed.ofList s) s.length = false ↔ slice p 0 s.length ≠ s := by
  rw [← Bool.not_eq_true]
  exact not_congr (memcmp_ofList p s)

/-- `fs_gpt_type_to_mbr_compat`.  The comparisons are with 0, which here says that the GUIDs
differ. -/
def fsGptTypeToMbrCompat (ent : Bytes) : UInt8 :=
  if memcmp ent (Packed.ofList guidEfiSystem) 16 = false then 0xEF
  else if memcmp ent (Packed.ofList guidMsBasic) 16 = false then 0x0C
  else if memcmp ent (Packed.ofList guidLinuxFs) 16 = false then 0x83
  else 0

/-- The type depends on the GUID only. -/
theorem fsGptTypeToMbrCompat_eq (ent : Bytes) :
    fsGptTypeToMbrCompat ent = if slice ent 0 16 = guidEfiSystem then 0x0C else 0xEF := by
  have efi : memcmp ent (Packed.ofList guidEfiSystem) 16 = false ↔
    slice ent 0 16 ≠ guidEfiSystem := memcmp_false
  have basic : memcmp ent (Packed.ofList guidMsBasic) 16 = false ↔
    slice ent 0 16 ≠ guidMsBasic := memcmp_false
  unfold fsGptTypeToMbrCompat
  by_cases same : slice ent 0 16 = guidEfiSystem
  · rw [if_neg fun differ => efi.1 differ same, if_pos same, if_pos (basic.2 (by
      rw [same]
      decide))]
  · rw [if_pos (efi.2 same), if_neg same]

/-- `"EFI PART"`. -/
def gptSignature : List UInt8 := [0x45, 0x46, 0x49, 0x20, 0x50, 0x41, 0x52, 0x54]

/-- The test for a GPT that both functions make of the second sector, its signature compared
with 0 in the same way. -/
def isGptHeader (hdr : Bytes) : Bool :=
  memcmp hdr (Packed.ofList gptSignature) 8 = false &&
    92 ≤ rd32 hdr 12 && rd32 hdr 12 ≤ 512 && 128 ≤ rd32 hdr 84 && rd32 hdr 84 ≤ 512 &&
    0 < rd32 hdr 80 && rd64 hdr 72 != 0

/-- The header of the GPT, if there is one. -/
def gptHeader (dev : BlockDev) : Option Bytes := (dev.read 1).filter isGptHeader

/-- `fs_read_gpt_entry`. -/
def fsReadGptEntry (dev : BlockDev) (hdr : Bytes) (index : Nat) : Option Bytes :=
  let entrySize := rd32 hdr 84
  let off := wrap64 (index * entrySize)
  let lba := wrap64 (rd64 hdr 72 + off / 512)
  let secOff := off % 512
  if entrySize = 0 ∨ 512 < entrySize then none
  else (dev.read lba).bind fun sec0 =>
    if secOff + entrySize ≤ 512 then
      some (splice (fun _ => 0) 0 entrySize fun i => sec0 (secOff + i))
    else (dev.read (wrap64 (lba + 1))).map fun sec1 =>
      let first := 512 - secOff
      splice (splice (fun _ => 0) 0 first fun i => sec0 (secOff + i)) first (entrySize - first) sec1

/-! ## `fs_list_partitions` -/

/-- The loop over the GPT entries from `i` on, of which `n` are left. -/
def listGpt (dev : BlockDev) (hdr : Bytes) (total : Nat) : Nat → Nat → List PartitionInfo
  | 0, _ => []
  | n + 1, i =>
      match fsReadGptEntry dev hdr i with
      | none => []
      | some ent =>
          let firstLba := rd64 ent 32
          let lastLba := rd64 ent 40
          let pSecs := wrap64 (lastLba - firstLba + 1)
          if fsGuidIsZero ent ∨ firstLba = 0 ∨ lastLba < firstLba ∨
              total < wrap64 (firstLba + pSecs) then listGpt dev hdr total n (i + 1)
          else
            ⟨if i < 250 then i + 1 else 255, fsGptTypeToMbrCompat ent, 0, firstLba, pSecs⟩ ::
              listGpt dev hdr total n (i + 1)

/-- A primary partition. -/
def listPrimary (mbr : Bytes) (total i : Nat) : Option PartitionInfo :=
  let p := mbrPart mbr i
  if p.type = 0 ∨ p.lbaFirst = 0 ∨ p.sectors = 0 ∨ total < p.lbaFirst + p.sectors ∨
      fsIsExtendedMbrType p.type then none
  else some ⟨i + 1, p.type, if p.status = 0x80 then 1 else 0, p.lbaFirst, p.sectors⟩

/-- The three tests both functions make of an entry before they use it. -/
def MbrPart.Named (p : MbrPart) : Prop := p.type ≠ 0 ∧ p.lbaFirst ≠ 0 ∧ p.sectors ≠ 0

instance (p : MbrPart) : Decidable p.Named := inferInstanceAs (Decidable (_ ∧ _ ∧ _))

/-- What is listed for an extended boot record: here the start has 32 bits. -/
def listLogical (total ebrLba logicalIdx : Nat) (p : MbrPart) : List PartitionInfo :=
  let pLba := wrap32 (ebrLba + p.lbaFirst)
  if p.Named ∧ pLba + p.sectors ≤ total then
    [⟨if logicalIdx < 250 then 5 + logicalIdx else 255, p.type,
      if p.status = 0x80 then 1 else 0, pLba, p.sectors⟩]
  else []

/-- The loop along a chain of extended boot records. -/
def listEbr (dev : BlockDev) (total extBase : Nat) : Nat → Nat → Nat → List PartitionInfo
  | 0, _, _ => []
  | depth + 1, ebrLba, logicalIdx =>
      match dev.read ebrLba with
      | none => []
      | some ebr =>
          if !hasSignature ebr then []
          else
            let p := mbrPart ebr 0
            let listed := listLogical total ebrLba logicalIdx p
            let logicalIdx := if p.Named then logicalIdx + 1 else logicalIdx
            let next := mbrPart ebr 1
            let nextEbr := wrap32 (extBase + next.lbaFirst)
            if !fsIsExtendedMbrType next.type ∨ next.lbaFirst = 0 ∨ nextEbr = ebrLba ∨
                total ≤ nextEbr then listed
            else listed ++ listEbr dev total extBase depth nextEbr logicalIdx

/-- The partitions `fs_list_partitions` counts, in order. -/
def listedPartitions (dev : BlockDev) : List PartitionInfo :=
  if !dev.present ∨ dev.isAtapi then []
  else match dev.read 0 with
  | none => []
  | some mbr =>
      if dev.sectors = 0 then []
      else match gptHeader dev with
      | some hdr => listGpt dev hdr dev.sectors (min (rd32 hdr 80) 256) 0
      | none =>
          if !hasSignature mbr then []
          else
            (List.range 4).filterMap (listPrimary mbr dev.sectors) ++
              (List.range 4).flatMap fun i =>
                let p := mbrPart mbr i
                if !fsIsExtendedMbrType p.type ∨ p.lbaFirst = 0 then []
                else listEbr dev dev.sectors p.lbaFirst 32 p.lbaFirst 0

/-- `fs_list_partitions`: the count, and what is stored in the buffer. -/
def fsListPartitions (dev : BlockDev) (maxEntries : Nat) : Nat × List PartitionInfo :=
  ((listedPartitions dev).length, (listedPartitions dev).take maxEntries)

/-! ## `fs_probe_partitions` -/

/-- The loop of `fs_probe_gpt_partitions`. -/
def probeGpt (dev : BlockDev) (hdr : Bytes) (total : Nat) : Nat → Nat → List MountAttempt
  | 0, _ => []
  | n + 1, i =>
      match fsReadGptEntry dev hdr i with
      | none => []
      | some ent =>
          let firstLba := rd64 ent 32
          let lastLba := rd64 ent 40
          let sectors := wrap64 (lastLba - firstLba + 1)
          if fsGuidIsZero ent ∨ firstLba = 0 ∨ lastLba < firstLba ∨
              total < wrap64 (firstLba + sectors) then probeGpt dev hdr total n (i + 1)
          else
            ⟨firstLba, sectors, fsGptTypeToMbrCompat ent, if i < 250 then i + 1 else 255⟩ ::
              probeGpt dev hdr total n (i + 1)

/-- A primary partition. -/
def probePrimary (mbr : Bytes) (total i : Nat) : Option MountAttempt :=
  let p := mbrPart mbr i
  if p.type = 0 ∨ p.lbaFirst = 0 ∨ p.sectors = 0 ∨ total < p.lbaFirst + p.sectors ∨
      fsIsExtendedMbrType p.type then none
  else some ⟨p.lbaFirst, p.sectors, p.type, i + 1⟩

/-- What is tried for an extended boot record: here the start has 64 bits. -/
def tryLogical (total ebrLba logicalIdx : Nat) (p0 : MbrPart) : List MountAttempt :=
  let lba := ebrLba + p0.lbaFirst
  if p0.Named ∧ lba + p0.sectors ≤ total then
    [⟨lba, p0.sectors, p0.type, if logicalIdx < 250 then 5 + logicalIdx else 255⟩]
  else []

/-- The loop along a chain of extended boot records. -/
def probeEbr (dev : BlockDev) (total extBase : Nat) : Nat → Nat → Nat → List MountAttempt
  | 0, _, _ => []
  | depth + 1, ebrLba, logicalIdx =>
      match dev.read ebrLba with
      | none => []
      | some ebr =>
          if !hasSignature ebr then []
          else
            let p0 := mbrPart ebr 0
            let tried := tryLogical total ebrLba logicalIdx p0
            let logicalIdx := if p0.Named then logicalIdx + 1 else logicalIdx
            let p1 := mbrPart ebr 1
            let nextEbr := wrap32 (extBase + p1.lbaFirst)
            if !fsIsExtendedMbrType p1.type ∨ p1.lbaFirst = 0 ∨ nextEbr = ebrLba ∨
                total ≤ nextEbr then tried
            else tried ++ probeEbr dev total extBase depth nextEbr logicalIdx

/-- The partitions that `fs_probe_partitions` tries to mount, in order.  Where none of
them can be mounted it tries the drive as a whole, and so it does for an ATAPI drive. -/
def fsProbePartitions (dev : BlockDev) : List MountAttempt :=
  if !dev.present ∨ dev.isAtapi then []
  else match dev.read 0 with
  | none => []
  | some mbr =>
      if dev.sectors = 0 then []
      else match gptHeader dev with
      | some hdr => probeGpt dev hdr dev.sectors (min (rd32 hdr 80) 256) 0
      | none =>
          if !hasSignature mbr then []
          else
            (List.range 4).filterMap (probePrimary mbr dev.sectors) ++
              (List.range 4).flatMap fun i =>
                let p := mbrPart mbr i
                if !fsIsExtendedMbrType p.type ∨ p.lbaFirst = 0 then []
                else probeEbr dev dev.sectors p.lbaFirst 32 p.lbaFirst 0

/-! ## What the tables describe -/

/-- The tables of a drive: a GPT, an MBR, or nothing that is read. -/
inductive Tables
  | none
  | gpt (hdr : Bytes)
  | mbr (sec : Bytes)

/-- The tables that both functions walk over. -/
def tables (dev : BlockDev) : Tables :=
  if !dev.present ∨ dev.isAtapi then .none
  else match dev.read 0 with
  | none => .none
  | some mbr =>
      if dev.sectors = 0 then .none
      else match gptHeader dev with
      | some hdr => .gpt hdr
      | none => if hasSignature mbr then .mbr mbr else .none

/-- What `fs_list_partitions` counts for the tables. -/
def listTables (dev : BlockDev) : Tables → List PartitionInfo
  | .none => []
  | .gpt hdr => listGpt dev hdr dev.sectors (min (rd32 hdr 80) 256) 0
  | .mbr sec =>
      (List.range 4).filterMap (listPrimary sec dev.sectors) ++
        (List.range 4).flatMap fun i =>
          let p := mbrPart sec i
          if !fsIsExtendedMbrType p.type ∨ p.lbaFirst = 0 then []
          else listEbr dev dev.sectors p.lbaFirst 32 p.lbaFirst 0

/-- What `fs_probe_partitions` attempts for them. -/
def probeTables (dev : BlockDev) : Tables → List MountAttempt
  | .none => []
  | .gpt hdr => probeGpt dev hdr dev.sectors (min (rd32 hdr 80) 256) 0
  | .mbr sec =>
      (List.range 4).filterMap (probePrimary sec dev.sectors) ++
        (List.range 4).flatMap fun i =>
          let p := mbrPart sec i
          if !fsIsExtendedMbrType p.type ∨ p.lbaFirst = 0 then []
          else probeEbr dev dev.sectors p.lbaFirst 32 p.lbaFirst 0

/-- The partitions that the entries of a GPT describe, from `i` on. -/
def gptExtents (dev : BlockDev) (hdr : Bytes) : Nat → Nat → List Extent
  | 0, _ => []
  | n + 1, i =>
      match fsReadGptEntry dev hdr i with
      | none => []
      | some ent =>
          if fsGuidIsZero ent ∨ rd64 ent 32 = 0 ∨ rd64 ent 40 < rd64 ent 32 then
            gptExtents dev hdr n (i + 1)
          else
            ⟨rd64 ent 32, rd64 ent 40 - rd64 ent 32 + 1, fsGptTypeToMbrCompat ent⟩ ::
              gptExtents dev hdr n (i + 1)

/-- The partition that an extended boot record describes. -/
def MbrPart.logical (p : MbrPart) (ebrLba : Nat) : List Extent :=
  if p.Named then [⟨ebrLba + p.lbaFirst, p.sectors, p.type⟩] else []

/-- The partitions that a chain of extended boot records describes. -/
def ebrExtents (dev : BlockDev) (extBase : Nat) : Nat → Nat → List Extent
  | 0, _ => []
  | depth + 1, ebrLba =>
      match dev.read ebrLba with
      | none => []
      | some ebr =>
          if !hasSignature ebr then []
          else
            let here := (mbrPart ebr 0).logical ebrLba
            let next := mbrPart ebr 1
            let nextEbr := wrap32 (extBase + next.lbaFirst)
            if !fsIsExtendedMbrType next.type ∨ next.lbaFirst = 0 ∨ nextEbr = ebrLba ∨
                dev.sectors ≤ nextEbr then here
            else here ++ ebrExtents dev extBase depth nextEbr

/-- The logical partitions that an MBR leads to. -/
def logicals (dev : BlockDev) (mbr : Bytes) : List Extent :=
  (List.range 4).flatMap fun i =>
    let p := mbrPart mbr i
    if !fsIsExtendedMbrType p.type ∨ p.lbaFirst = 0 then []
    else ebrExtents dev p.lbaFirst 32 p.lbaFirst

/-- The primary partitions of an MBR inside the drive. -/
def primaries (dev : BlockDev) (mbr : Bytes) : List Extent :=
  ((List.range 4).filterMap (probePrimary mbr dev.sectors)).map MountAttempt.extent

/-- The extent ends inside the drive. -/
def Extent.Fits (e : Extent) (dev : BlockDev) : Prop := e.start + e.length ≤ dev.sectors

instance (e : Extent) (dev : BlockDev) : Decidable (e.Fits dev) :=
  inferInstanceAs (Decidable (_ ≤ _))

/-- The extent as `fs_list_partitions` computes it for a logical partition. -/
def Extent.wrapped (e : Extent) : Extent := { e with start := wrap32 e.start }

/-- The partitions inside the drive that an MBR leads to. -/
def mbrExtents (dev : BlockDev) (mbr : Bytes) : List Extent :=
  primaries dev mbr ++ (logicals dev mbr).filter fun e => e.Fits dev

/-! ## The list and the probe agree -/

/-- With room for all of them the list stores the partitions that the probe attempts, and
all of them lie inside the drive. -/
def PartitionsAgree (dev : BlockDev) : Prop :=
  ∀ maxEntries, (fsListPartitions dev maxEntries).1 ≤ maxEntries →
    (∀ e, e ∈ (fsListPartitions dev maxEntries).2.map PartitionInfo.extent ↔
      e ∈ (fsProbePartitions dev).map MountAttempt.extent) ∧
    ∀ p ∈ (fsListPartitions dev maxEntries).2, p.extent.Fits dev

/-- No GPT entry reaches to the last sector a 64-bit number can name; and every logical
partition that starts at sector `2 ^ 32` or behind reaches over the end of the drive, and
would do so with its start cut to 32 bits, or then be another partition of the drive. -/
def WidthsSuffice (dev : BlockDev) : Prop :=
  match tables dev with
  | .none => True
  | .gpt hdr => ∀ e ∈ gptExtents dev hdr (min (rd32 hdr 80) 256) 0,
      e.start + e.length ≠ 18446744073709551616
  | .mbr sec => ∀ e ∈ logicals dev sec, 4294967296 ≤ e.start →
      ¬ e.Fits dev ∧ (e.wrapped.Fits dev → e.wrapped ∈ mbrExtents dev sec)

section Walks

variable {dev : BlockDev} {hdr mbr : Bytes}

theorem rd64_lt (p : Bytes) (o : Nat) : rd64 p o < 18446744073709551616 := by
  have low : rd32 p o < 4294967296 := rd32_lt
  have high : rd32 p (o + 4) < 4294967296 := rd32_lt
  unfold rd64
  omega

theorem gptExtents_bound {n i : Nat} {e : Extent} (mem : e ∈ gptExtents dev hdr n i) :
    0 < e.start ∧ e.start + e.length ≤ 18446744073709551616 := by
  induction n generalizing i with
  | zero => exact absurd mem (by simp [gptExtents])
  | succ n ih =>
      rw [gptExtents] at mem
      split at mem
      · exact absurd mem (by simp)
      next ent _ =>
        split at mem
        · exact ih mem
        next here =>
          rcases List.mem_cons.1 mem with rfl | mem
          · have lt := rd64_lt ent 40
            simp only [not_or] at here
            dsimp only
            omega
          · exact ih mem

/-- Neither subtracting the ends of a GPT entry nor adding one wraps. -/
theorem gptLength_exact (p : Bytes) (some_ : rd64 p 32 ≠ 0) :
    wrap64 (rd64 p 40 - rd64 p 32 + 1) = rd64 p 40 - rd64 p 32 + 1 := by
  have lt := rd64_lt p 40
  exact Nat.mod_eq_of_lt (by omega)

/-- Both loops over a GPT pass over an entry whose end, in 64 bits, is not inside the drive. -/
theorem gptEntry_extents {α : Type} (extent : α → Extent) {ent : Bytes} {item : α} {rest : List α}
    {more : List Extent}
    (here : extent item =
      ⟨rd64 ent 32, wrap64 (rd64 ent 40 - rd64 ent 32 + 1), fsGptTypeToMbrCompat ent⟩)
    (ih : rest.map extent = more.filter fun e => wrap64 (e.start + e.length) ≤ dev.sectors) :
    (if fsGuidIsZero ent ∨ rd64 ent 32 = 0 ∨ rd64 ent 40 < rd64 ent 32 ∨
        dev.sectors < wrap64 (rd64 ent 32 + wrap64 (rd64 ent 40 - rd64 ent 32 + 1)) then rest
      else item :: rest).map extent =
      (if fsGuidIsZero ent ∨ rd64 ent 32 = 0 ∨ rd64 ent 40 < rd64 ent 32 then more
        else ⟨rd64 ent 32, rd64 ent 40 - rd64 ent 32 + 1, fsGptTypeToMbrCompat ent⟩ ::
          more).filter fun e => wrap64 (e.start + e.length) ≤ dev.sectors := by
  by_cases skip : fsGuidIsZero ent ∨ rd64 ent 32 = 0 ∨ rd64 ent 40 < rd64 ent 32
  · have skip' : fsGuidIsZero ent ∨ rd64 ent 32 = 0 ∨ rd64 ent 40 < rd64 ent 32 ∨
        dev.sectors < wrap64 (rd64 ent 32 + wrap64 (rd64 ent 40 - rd64 ent 32 + 1)) := by
      tauto
    rw [if_pos skip, if_pos skip']
    exact ih
  · rw [gptLength_exact ent fun zero => skip (.inr (.inl zero))] at here ⊢
    rw [if_neg skip]
    by_cases out : dev.sectors < wrap64 (rd64 ent 32 + (rd64 ent 40 - rd64 ent 32 + 1))
    · rw [if_pos (by tauto), List.filter_cons_of_neg (by simpa using out)]
      exact ih
    · rw [if_neg (by tauto), List.filter_cons_of_pos (by simpa using out), List.map_cons, here, ih]

theorem listGpt_extents (n i : Nat) :
    (listGpt dev hdr dev.sectors n i).map PartitionInfo.extent =
      (gptExtents dev hdr n i).filter fun e => wrap64 (e.start + e.length) ≤ dev.sectors := by
  induction n generalizing i with
  | zero => rfl
  | succ n ih =>
      rw [listGpt, gptExtents]
      cases fsReadGptEntry dev hdr i with
      | none => rfl
      | some ent => exact gptEntry_extents PartitionInfo.extent rfl (ih (i + 1))

theorem probeGpt_extents (n i : Nat) :
    (probeGpt dev hdr dev.sectors n i).map MountAttempt.extent =
      (gptExtents dev hdr n i).filter fun e => wrap64 (e.start + e.length) ≤ dev.sectors := by
  induction n generalizing i with
  | zero => rfl
  | succ n ih =>
      rw [probeGpt, gptExtents]
      cases fsReadGptEntry dev hdr i with
      | none => rfl
      | some ent => exact gptEntry_extents MountAttempt.extent rfl (ih (i + 1))

theorem filter_fits (e : Extent) :
    ([e].filter fun e => e.Fits dev) = if e.Fits dev then [e] else [] := by
  by_cases fits : e.Fits dev
  · rw [if_pos fits, List.filter_cons_of_pos (by simpa using fits), List.filter_nil]
  · rw [if_neg fits, List.filter_cons_of_neg (by simpa using fits), List.filter_nil]

theorem listLogical_extents (ebrLba logicalIdx : Nat) (p : MbrPart) :
    (listLogical dev.sectors ebrLba logicalIdx p).map PartitionInfo.extent =
      ((p.logical ebrLba).map Extent.wrapped).filter fun e => e.Fits dev := by
  unfold listLogical MbrPart.logical
  by_cases named : p.Named
  · rw [if_pos named]
    rw [List.map_singleton, filter_fits]
    by_cases fits : wrap32 (ebrLba + p.lbaFirst) + p.sectors ≤ dev.sectors
    · rw [if_pos ⟨named, fits⟩]
      exact (if_pos fits).symm
    · rw [if_neg fun both => fits both.2]
      exact (if_neg fits).symm
  · rw [if_neg named, if_neg fun both => named both.1]
    rfl

theorem tryLogical_extents (ebrLba logicalIdx : Nat) (p : MbrPart) :
    (tryLogical dev.sectors ebrLba logicalIdx p).map MountAttempt.extent =
      (p.logical ebrLba).filter fun e => e.Fits dev := by
  unfold tryLogical MbrPart.logical
  by_cases named : p.Named
  · rw [if_pos named]
    rw [filter_fits]
    by_cases fits : ebrLba + p.lbaFirst + p.sectors ≤ dev.sectors
    · rw [if_pos ⟨named, fits⟩]
      exact (if_pos fits).symm
    · rw [if_neg fun both => fits both.2]
      exact (if_neg fits).symm
  · rw [if_neg named, if_neg fun both => named both.1]
    rfl

/-- The list keeps the logical partitions whose end, with the start cut to 32 bits, is
inside the drive. -/
theorem listEbr_extents (extBase depth ebrLba logicalIdx : Nat) :
    (listEbr dev dev.sectors extBase depth ebrLba logicalIdx).map PartitionInfo.extent =
      ((ebrExtents dev extBase depth ebrLba).map Extent.wrapped).filter fun e => e.Fits dev := by
  induction depth generalizing ebrLba logicalIdx with
  | zero => rfl
  | succ depth ih =>
      rw [listEbr, ebrExtents]
      cases dev.read ebrLba with
      | none => rfl
      | some ebr =>
          dsimp only
          split
          · rfl
          · split
            · exact listLogical_extents _ _ _
            · rw [List.map_append, List.map_append, List.filter_append, listLogical_extents, ih]

/-- The probe keeps those whose end is inside the drive. -/
theorem probeEbr_extents (extBase depth ebrLba logicalIdx : Nat) :
    (probeEbr dev dev.sectors extBase depth ebrLba logicalIdx).map MountAttempt.extent =
      (ebrExtents dev extBase depth ebrLba).filter fun e => e.Fits dev := by
  induction depth generalizing ebrLba logicalIdx with
  | zero => rfl
  | succ depth ih =>
      rw [probeEbr, ebrExtents]
      cases dev.read ebrLba with
      | none => rfl
      | some ebr =>
          dsimp only
          split
          · rfl
          · split
            · exact tryLogical_extents _ _ _
            · rw [List.map_append, List.filter_append, tryLogical_extents, ih]

/-- The primary partitions are walked over in the same way. -/
theorem listPrimary_extents (mbr : Bytes) :
    ((List.range 4).filterMap (listPrimary mbr dev.sectors)).map PartitionInfo.extent =
      primaries dev mbr := by
  have same : ∀ i, (listPrimary mbr dev.sectors i).map PartitionInfo.extent =
      (probePrimary mbr dev.sectors i).map MountAttempt.extent := by
    intro i
    unfold listPrimary probePrimary
    dsimp only
    split <;> rfl
  rw [primaries, List.map_filterMap, List.map_filterMap]
  exact List.filterMap_congr fun i _ => same i

/-- What is listed depends on the device by its tables. -/
theorem listedPartitions_tables (dev : BlockDev) :
    listedPartitions dev = listTables dev (tables dev) := by
  unfold listedPartitions tables
  split
  · rfl
  cases dev.read 0 with
  | none => rfl
  | some mbr =>
      dsimp only
      split
      · rfl
      cases gptHeader dev with
      | some hdr => rfl
      | none =>
          cases hasSignature mbr with
          | false => rfl
          | true => rfl

/-- So does what is attempted. -/
theorem fsProbePartitions_tables (dev : BlockDev) :
    fsProbePartitions dev = probeTables dev (tables dev) := by
  unfold fsProbePartitions tables
  split
  · rfl
  cases dev.read 0 with
  | none => rfl
  | some mbr =>
      dsimp only
      split
      · rfl
      cases gptHeader dev with
      | some hdr => rfl
      | none =>
          cases hasSignature mbr with
          | false => rfl
          | true => rfl

/-- What is listed, in the terms of the tables. -/
theorem listed_extents (dev : BlockDev) :
    (listedPartitions dev).map PartitionInfo.extent =
      match tables dev with
      | .none => []
      | .gpt hdr => (gptExtents dev hdr (min (rd32 hdr 80) 256) 0).filter fun e =>
          wrap64 (e.start + e.length) ≤ dev.sectors
      | .mbr sec => primaries dev sec ++
          ((logicals dev sec).map Extent.wrapped).filter fun e => e.Fits dev := by
  rw [listedPartitions_tables]
  cases tables dev with
  | none => rfl
  | gpt hdr => exact listGpt_extents _ _
  | mbr sec =>
      unfold listTables
      dsimp only
      rw [List.map_append, listPrimary_extents, logicals, List.map_flatMap,
        List.map_flatMap, List.filter_flatMap]
      refine congrArg (primaries dev sec ++ List.flatMap · (List.range 4)) ?_
      funext i
      dsimp only
      split
      · rfl
      · exact listEbr_extents _ _ _ _

/-- What is attempted. -/
theorem probe_extents (dev : BlockDev) :
    (fsProbePartitions dev).map MountAttempt.extent =
      match tables dev with
      | .none => []
      | .gpt hdr => (gptExtents dev hdr (min (rd32 hdr 80) 256) 0).filter fun e =>
          wrap64 (e.start + e.length) ≤ dev.sectors
      | .mbr sec => mbrExtents dev sec := by
  rw [fsProbePartitions_tables]
  cases tables dev with
  | none => rfl
  | gpt hdr => exact probeGpt_extents _ _
  | mbr sec =>
      unfold probeTables
      dsimp only
      rw [List.map_append, mbrExtents, logicals, List.map_flatMap, List.filter_flatMap]
      refine congrArg (primaries dev sec ++ List.flatMap · (List.range 4)) ?_
      funext i
      dsimp only
      split
      · rfl
      · exact probeEbr_extents _ _ _ _

end Walks

section Agreement

variable {dev : BlockDev}

/-- Whatever the buffer, all partitions are stored if there is room. -/
theorem partitionsAgree_iff_sets (dev : BlockDev) :
    PartitionsAgree dev ↔
      (∀ e, e ∈ (listedPartitions dev).map PartitionInfo.extent ↔
        e ∈ (fsProbePartitions dev).map MountAttempt.extent) ∧
      ∀ e ∈ (listedPartitions dev).map PartitionInfo.extent, e.Fits dev := by
  unfold PartitionsAgree fsListPartitions
  constructor
  · intro agree
    have all := agree (listedPartitions dev).length (Nat.le_refl _)
    rw [List.take_length] at all
    exact ⟨all.1, fun e mem => by
      obtain ⟨p, memP, rfl⟩ := List.mem_map.1 mem
      exact all.2 p memP⟩
  · rintro ⟨same, inside⟩ maxEntries room
    rw [List.take_of_length_le room]
    exact ⟨same, fun p mem => inside _ (List.mem_map_of_mem mem)⟩

/-- Over a GPT both walks keep the same extents, which are inside the drive exactly if no
end wraps to zero. -/
theorem gpt_agree_iff {es : List Extent} (bound : ∀ e ∈ es,
      e.start + e.length ≤ 18446744073709551616) :
    (∀ e ∈ es.filter fun e => wrap64 (e.start + e.length) ≤ dev.sectors, e.Fits dev) ↔
      ∀ e ∈ es, e.start + e.length ≠ 18446744073709551616 := by
  have width := dev.inWidth
  constructor
  · intro inside e mem whole
    have kept : wrap64 (e.start + e.length) ≤ dev.sectors := by
      rw [whole]
      exact Nat.zero_le _
    have fits := inside e (List.mem_filter.2 ⟨mem, decide_eq_true kept⟩)
    unfold Extent.Fits at fits
    omega
  · intro proper e mem
    obtain ⟨memE, kept⟩ := List.mem_filter.1 mem
    have le := bound e memE
    have ne := proper e memE
    have fits := of_decide_eq_true kept
    unfold wrap64 at fits
    unfold Extent.Fits
    omega

/-- Along an MBR the walks differ in the start of a logical partition only. -/
theorem mbr_agree_iff (sec : Bytes) :
    ((∀ e, e ∈ primaries dev sec ++
          ((logicals dev sec).map Extent.wrapped).filter (fun e => e.Fits dev) ↔
        e ∈ mbrExtents dev sec) ∧
      ∀ e ∈ primaries dev sec ++
          ((logicals dev sec).map Extent.wrapped).filter (fun e => e.Fits dev), e.Fits dev) ↔
      ∀ e ∈ logicals dev sec, 4294967296 ≤ e.start →
        ¬ e.Fits dev ∧ (e.wrapped.Fits dev → e.wrapped ∈ mbrExtents dev sec) := by
  have primaryFits : ∀ e ∈ primaries dev sec, e.Fits dev ∧ e.start < 4294967296 := by
    intro e mem
    obtain ⟨a, memA, rfl⟩ := List.mem_map.1 mem
    obtain ⟨i, -, tried⟩ := List.mem_filterMap.1 memA
    unfold probePrimary at tried
    dsimp only at tried
    split at tried
    · exact absurd tried (by simp)
    next usable =>
      obtain rfl := Option.some.inj tried
      simp only [not_or, not_lt] at usable
      exact ⟨usable.2.2.2.1, rd32_lt⟩
  have wrappedLow : ∀ e : Extent, e.wrapped.start < 4294967296 := fun e =>
    Nat.mod_lt _ (by decide)
  have wrappedSelf : ∀ e : Extent, e.start < 4294967296 → e.wrapped = e := by
    intro e low
    rw [Extent.wrapped, wrap32, Nat.mod_eq_of_lt low]
  simp only [mbrExtents, List.mem_append, List.mem_filter, List.mem_map, decide_eq_true_eq]
  constructor
  · rintro ⟨same, -⟩ e mem high
    refine ⟨fun fits => ?_, fun fits => (same e.wrapped).1 (.inr ⟨⟨e, mem, rfl⟩, fits⟩)⟩
    -- the probe attempts it, and the list has no start of that size
    rcases (same e).2 (.inr ⟨mem, fits⟩) with primary | ⟨⟨d, -, eq⟩, -⟩
    · exact absurd (primaryFits e primary).2 (Nat.not_lt.2 high)
    · exact absurd (eq ▸ wrappedLow d) (Nat.not_lt.2 high)
  · intro suffice
    refine ⟨fun e => ⟨?_, ?_⟩, ?_⟩
    · rintro (primary | ⟨⟨d, mem, rfl⟩, fits⟩)
      · exact .inl primary
      · rcases Nat.lt_or_ge d.start 4294967296 with low | high
        · rw [wrappedSelf d low] at fits ⊢
          exact .inr ⟨mem, fits⟩
        · exact (suffice d mem high).2 fits
    · rintro (primary | ⟨mem, fits⟩)
      · exact .inl primary
      · rcases Nat.lt_or_ge e.start 4294967296 with low | high
        · exact .inr ⟨⟨e, mem, wrappedSelf e low⟩, fits⟩
        · exact absurd fits (suffice e mem high).1
    · rintro e (primary | ⟨-, fits⟩)
      · exact (primaryFits e primary).1
      · exact fits

end Agreement

/-- For every drive, the partitions listed are the ones the probe tries to mount, and lie
inside the drive, exactly if the widths of the two computations suffice. -/
theorem partitions_agree_iff (dev : BlockDev) : PartitionsAgree dev ↔ WidthsSuffice dev := by
  rw [partitionsAgree_iff_sets, listed_extents, probe_extents, WidthsSuffice]
  cases tables dev with
  | none => simp
  | gpt hdr =>
      simp only [implies_true, true_and]
      exact gpt_agree_iff fun e mem => (gptExtents_bound mem).2
  | mbr sec => exact mbr_agree_iff sec

/-- A buffer with the given bytes. -/
def sectorOf (bytes : List (Nat × UInt8)) : Bytes := fun i => (bytes.lookup i).getD 0

/-- A drive of `2 ^ 33` sectors with an extended partition from sector `2 ^ 31` on, whose
record describes a logical partition `2 ^ 31 + 100` sectors behind it. -/
def largeDrive : BlockDev where
  present := true
  isAtapi := false
  sectors := 8589934592
  read lba :=
    if lba = 0 then some (sectorOf [(450, 5), (457, 0x80), (461, 0x80), (510, 0x55), (511, 0xAA)])
    else if lba = 2147483648 then
      some (sectorOf [(450, 0x83), (454, 100), (457, 0x80), (458, 10), (510, 0x55), (511, 0xAA)])
    else none
  inWidth := by decide

/-- The list reports the logical partition at sector 100. -/
theorem logical_start_cut : ¬ ∀ dev : BlockDev, PartitionsAgree dev := by
  intro always
  have listed : (listedPartitions largeDrive).map PartitionInfo.extent = [⟨100, 10, 0x83⟩] := rfl
  have probed : (fsProbePartitions largeDrive).map MountAttempt.extent =
      [⟨4294967396, 10, 0x83⟩] := rfl
  have same := ((partitionsAgree_iff_sets largeDrive).1 (always largeDrive)).1 ⟨100, 10, 0x83⟩
  rw [listed, probed] at same
  exact absurd (same.1 (by simp)) (by simp)

end NTux.Fs
