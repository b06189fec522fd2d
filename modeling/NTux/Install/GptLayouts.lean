import NTux.Install.GptReadBack

/-!
# The two layouts

Both layouts are right in their places, headers and checksums for every size of the disk
(`ReadBack`).  The type of each partition is the constant of the kernel in the single layout
only (`TypesRight`, `gpt_tables_right_iff`).
-/

namespace NTux.Install

open NTux.Lib NTux.Lib.Packed NTux.Fs
open NTux.Lib.Bytes hiding rd64

/-- The constant of `fs_gpt_type_to_mbr_compat` for a kind. -/
def Kind.guid : Kind → List UInt8
  | .basicData => guidMsBasic
  | .efiSystem => guidEfiSystem
  | .linux => guidLinuxFs

/-- The sectors that hold the tables: the MBR, the headers and both copies of the array. -/
def IsTable (total s : Nat) : Prop :=
  s = 0 ∨ s = 1 ∨ (2 ≤ s ∧ s < 34) ∨ (total - 33 ≤ s ∧ s < total - 1) ∨ s = total - 1

/-- The array in the sectors from `lba` on. -/
def arrayOnDisk (d : Disk) (lba : Nat) : List UInt8 :=
  slice (fun i => d.sectors (lba + i / 512) (i % 512)) 0 (512 * 32)

/-- A header is where it says, names the other one and its array, and carries the checksums of
its bytes and of that array. -/
structure HeaderRight (d : Disk) (current backup array : Nat) : Prop where
  place : rd64 (d.sectors current) 24 = current
  other : rd64 (d.sectors current) 32 = backup
  entries : rd64 (d.sectors current) 72 = array
  headerCrc : rd32 (d.sectors current) 16 =
    (crc32Update 0 (slice (withoutCrc (d.sectors current)) 0 92)).toNat
  arrayCrc : rd32 (d.sectors current) 88 = (crc32Update 0 (arrayOnDisk d array)).toNat

/-- The partitions reported lie in the usable sectors, apart from each other and from the
tables, and are what the loop of the kernel extracts; the headers are right. -/
structure ReadBack (d : Disk) (total : Nat) (width : total < 18446744073709551616)
    (parts : List Reported) : Prop where
  inside : ∀ p ∈ parts, 0 < p.sectors ∧ rd64 (d.sectors 1) 40 ≤ p.lba ∧
    p.lba + p.sectors ≤ rd64 (d.sectors 1) 48 + 1
  disjoint : parts.Pairwise fun p q => p.lba + p.sectors ≤ q.lba
  apart : ∀ p ∈ parts, ∀ s, IsTable total s → ¬ (p.lba ≤ s ∧ s < p.lba + p.sectors)
  extracted : (probeGpt (d.drive total width) (d.sectors 1) total
      (min (rd32 (d.sectors 1) 80) 256) 0).map (fun m => (m.lba, m.sectors)) =
    parts.map fun p => (p.lba, p.sectors)
  primary : HeaderRight d 1 (total - 1) 2
  backup : HeaderRight d (total - 1) 1 (total - 33)

/-- The type stored for each partition is the constant of its kind. -/
def TypesRight (d : Disk) (parts : List Reported) : Prop :=
  ∀ i p, parts[i]? = some p → slice (d.sectors (2 + i / 4)) (128 * (i % 4)) 16 = p.kind.guid

variable {d d' : Disk} {total : Nat} {width : total < 18446744073709551616}

/-! ## The headers -/

theorem arrayOnDisk_tables {lba : Nat} {entries : List GptEntry}
    (array : ∀ k < 32, d.sectors (lba + k) = fun i => partArray entries (512 * k + i)) :
    arrayOnDisk d lba = slice (partArray entries) 0 (512 * 32) := by
  refine slice_congr fun i lt => ?_
  rw [Nat.zero_add, array (i / 512) (by omega)]
  dsimp only
  rw [Nat.div_add_mod]

theorem headers_right {diskGuid : List UInt8} {entries : List GptEntry} (large : 2082 ≤ total)
    (width : total < 18446744073709551616)
    (read : TablesRead d total (primaryHeader total diskGuid entries).summed entries) :
    HeaderRight d 1 (total - 1) 2 ∧ HeaderRight d (total - 1) 1 (total - 33) ∧
      rd64 (d.sectors 1) 40 = 34 ∧ rd64 (d.sectors 1) 48 = total - 34 := by
  have small : ∀ n ≤ total, n % 2 ^ 64 = n := fun n le => Nat.mod_eq_of_lt (by omega)
  have crc : ∀ entries : List GptEntry,
      (crc32Update 0 (slice (partArray entries) 0 (512 * 32))).toNat % 4294967296 =
        (crc32Update 0 (slice (partArray entries) 0 (512 * 32))).toNat := fun entries =>
    Nat.mod_eq_of_lt (UInt32.toNat_lt _)
  refine ⟨⟨?_, ?_, ?_, ?_, ?_⟩, ⟨?_, ?_, ?_, ?_, ?_⟩, ?_, ?_⟩
  · rw [read.primary, sector_currentLba]
    rfl
  · rw [read.primary, sector_backupLba]
    exact small (total - 1) (by omega)
  · rw [read.primary, sector_entryLba]
    rfl
  · rw [read.primary]
    exact summed_crc rfl
  · rw [arrayOnDisk_tables read.array, read.primary, sector_arrayCrc]
    exact crc entries
  · rw [read.backup, sector_currentLba]
    exact small (total - 1) (by omega)
  · rw [read.backup, sector_backupLba]
    rfl
  · rw [read.backup, sector_entryLba]
    exact small (total - 33) (by omega)
  · rw [read.backup]
    exact summed_crc rfl
  · rw [arrayOnDisk_tables read.copy, read.backup, sector_arrayCrc]
    exact crc entries
  · rw [read.primary, sector_firstUsable]
    rfl
  · rw [read.primary, sector_lastUsable]
    exact small (total - 34) (by omega)

/-! ## The types -/

/-- The type of an entry on the disk. -/
theorem slice_typeGuid {hdr : GptHeader} {entries : List GptEntry}
    (read : TablesRead d total hdr entries) {i : Nat} (lt : i < 128) {e : GptEntry}
    (at_ : entries[i]? = some e) (length : e.typeGuid.length = 16) :
    slice (d.sectors (2 + i / 4)) (128 * (i % 4)) 16 = e.typeGuid := by
  rw [read.array (i / 4) (by omega)]
  have bytes : slice (fun j => partArray entries (512 * (i / 4) + j)) (128 * (i % 4)) 16 =
      slice (pack e.fields) 0 16 := by
    refine slice_congr fun j ltj => ?_
    rw [show 512 * (i / 4) + (128 * (i % 4) + j) = 128 * i + j by omega,
      partArray_entry entries i (by omega), at_, Nat.zero_add]
  have guid : slice (pack e.fields) 0 e.typeGuid.length = e.typeGuid :=
    slice_pack e.fields 0 (by rw [length]; rfl)
  rw [bytes, ← length, guid]

/-! ## The layouts -/

theorem startLba_eq (large : 2082 ≤ total) : startLba total = 2048 := by
  unfold startLba
  dsimp only
  rw [if_neg (by decide : ¬ 2048 < 34), if_neg (by omega)]

/-- The GUIDs that end up on the disk. -/
theorem stored_guids : gptWriteLeGuid basicDataGuid = Kind.basicData.guid ∧
    gptWriteLeGuid guidEsp ≠ Kind.efiSystem.guid ∧ gptWriteLeGuid guidLinux ≠ Kind.linux.guid := by
  decide

theorem stored_known : fsGuidIsZero (ofList (gptWriteLeGuid basicDataGuid)) = false ∧
    fsGuidIsZero (ofList (gptWriteLeGuid guidEsp)) = false ∧
      fsGuidIsZero (ofList (gptWriteLeGuid guidLinux)) = false := by
  decide

theorem single_right (width : total < 18446744073709551616) {parts : List Reported}
    (done : writeGptSingle d total = some (d', parts)) :
    ReadBack d' total width parts ∧ TypesRight d' parts := by
  unfold writeGptSingle at done
  split at done
  · cases done
  next large =>
    have enough : 2082 ≤ total := Nat.le_of_not_lt large
    rw [startLba_eq enough] at done
    dsimp only at done
    split at done
    · cases done
    next more =>
      obtain ⟨d₁, written, pair⟩ := Option.map_eq_some_iff.1 done
      obtain ⟨rfl, rfl⟩ := Prod.mk.inj pair
      have read := writeTables_read enough written
      obtain ⟨primary, backup, firstUsable, lastUsable⟩ := headers_right enough width read
      have probe := probeGpt_tables width enough read rfl rfl rfl
        (fun e mem => by
          obtain rfl := List.mem_singleton.1 mem
          exact ⟨rfl, stored_known.1, by dsimp only; decide, by dsimp only; omega,
            by dsimp only; omega⟩) (by show 1 ≤ 128; decide)
      refine ⟨⟨?_, List.pairwise_singleton _ _, ?_, ?_, primary, backup⟩, ?_⟩
      · rw [firstUsable, lastUsable]
        refine List.forall_mem_singleton.2 ?_
        dsimp only
        omega
      · refine List.forall_mem_singleton.2 fun s table within => ?_
        unfold IsTable at table
        dsimp only at within
        omega
      · rw [probe]
        rfl
      · intro i p at_
        cases i with
        | zero =>
            obtain rfl := Option.some.inj at_
            exact (slice_typeGuid read (by decide) rfl rfl).trans stored_guids.1
        | succ i => cases at_

theorem dual_right (width : total < 18446744073709551616) {parts : List Reported}
    (done : writeGptDual d total = some (d', parts)) :
    ReadBack d' total width parts ∧ ¬ TypesRight d' parts := by
  unfold writeGptDual at done
  split at done
  · cases done
  next large =>
    have enough : 2082 ≤ total := by omega
    rw [startLba_eq enough] at done
    dsimp only at done
    split at done
    · cases done
    next more =>
      -- a quarter of a small disk
      generalize size : (if total - 34 < 65536 + 2048 then (total - 34 - 2048) / 4 else 65536) =
        espSecs at done
      have fits : 2048 + espSecs ≤ total - 34 := by
        rw [← size]
        split <;> omega
      split at done
      · cases done
      next some_ =>
        rw [show 2048 + espSecs - 1 + 1 = 2048 + espSecs by omega,
          if_neg (by omega : ¬ 2048 + espSecs < 2048)] at done
        rw [if_neg (by omega)] at done
        obtain ⟨d₁, written, pair⟩ := Option.map_eq_some_iff.1 done
        obtain ⟨rfl, rfl⟩ := Prod.mk.inj pair
        have read := writeTables_read enough written
        obtain ⟨primary, backup, firstUsable, lastUsable⟩ := headers_right enough width read
        have probe := probeGpt_tables width enough read rfl rfl rfl
          (List.forall_mem_cons.2 ⟨⟨rfl, stored_known.2.1, by dsimp only; decide, by dsimp only; omega,
              by dsimp only; omega⟩,
            List.forall_mem_singleton.2 ⟨rfl, stored_known.2.2, by dsimp only; omega,
              by dsimp only; omega, by dsimp only; omega⟩⟩) (by show 2 ≤ 128; decide)
        refine ⟨⟨?_, ?_, ?_, ?_, primary, backup⟩, fun types => ?_⟩
        · rw [firstUsable, lastUsable]
          refine List.forall_mem_cons.2 ⟨?_, List.forall_mem_singleton.2 ?_⟩
          · dsimp only
            omega
          · dsimp only
            omega
        · refine List.pairwise_pair.2 ?_
          dsimp only
          omega
        · refine List.forall_mem_cons.2 ⟨fun s table within => ?_,
            List.forall_mem_singleton.2 fun s table within => ?_⟩
          · unfold IsTable at table
            dsimp only at within
            omega
          · unfold IsTable at table
            dsimp only at within
            omega
        · rw [probe]
          rfl
        · have first := types 0 _ rfl
          rw [slice_typeGuid read (by decide) rfl rfl] at first
          exact stored_guids.2.1 first

/-- **The tables of both layouts read back as written; the types are the kernel's exactly in the
single layout.** -/
theorem gpt_tables_right_iff (layout : Layout) (d : Disk) {total : Nat}
    (width : total < 18446744073709551616) {d' : Disk} {parts : List Reported}
    (done : writeGpt layout d total = some (d', parts)) :
    ReadBack d' total width parts ∧ (TypesRight d' parts ↔ layout = .single) := by
  cases layout with
  | single =>
      obtain ⟨back, types⟩ := single_right width done
      exact ⟨back, iff_of_true types rfl⟩
  | dual =>
      obtain ⟨back, types⟩ := dual_right width done
      exact ⟨back, iff_of_false types (by decide)⟩

/-! ## An empty disk -/

theorem sysBlockWrite_total (lba : Nat) (bufs : List Bytes) (all : ∀ a, d.accepts a = true) :
    ∃ d', sysBlockWrite d lba bufs = some d' ∧ ∀ a, d'.accepts a = true := by
  induction bufs generalizing d lba with
  | nil => exact ⟨d, rfl, all⟩
  | cons buf rest ih =>
      unfold sysBlockWrite
      rw [if_pos (all lba)]
      exact ih (lba + 1) all

/-- Where every write succeeds the tables are written. -/
theorem writeTables_total (total : Nat) (diskGuid : List UInt8) (entries : List GptEntry)
    (all : ∀ a, d.accepts a = true) : ∃ d', writeTables d total diskGuid entries = some d' := by
  unfold writeTables
  dsimp only
  obtain ⟨d₁, mbr, all₁⟩ := sysBlockWrite_total 0 [protectiveMbr total] all
  rw [mbr, Option.bind_some]
  obtain ⟨d₂, primary, all₂⟩ := sysBlockWrite_total 1
    [(primaryHeader total diskGuid entries).summed.sector] all₁
  rw [primary, Option.bind_some]
  obtain ⟨d₃, array, all₃⟩ := sysBlockWrite_total 2 (arraySectors entries) all₂
  rw [array, Option.bind_some]
  obtain ⟨d₄, copy, all₄⟩ := sysBlockWrite_total (total - 33) (arraySectors entries) all₃
  rw [copy, Option.bind_some]
  obtain ⟨d₅, backup, -⟩ := sysBlockWrite_total (total - 1)
    [(backupHeader total (primaryHeader total diskGuid entries).summed).summed.sector] all₄
  exact ⟨d₅, backup⟩

/-- A disk of zeroes. -/
def emptyDisk : Disk := ⟨fun _ _ => 0, fun _ => true⟩

/-- With 65536 sectors it takes either layout; the system partition of the dual one gets what a
quarter for the other leaves. -/
theorem emptyDisk_written (layout : Layout) :
    ∃ d' parts, writeGpt layout emptyDisk 65536 = some (d', parts) := by
  have all : ∀ a, emptyDisk.accepts a = true := fun _ => rfl
  cases layout with
  | single =>
      obtain ⟨d', written⟩ := writeTables_total 65536
        [0xA1, 0xB2, 0xC3, 0xD4, 0xE5, 0xF6, 0x10, 0x20, 0x30, 0x40, 0x50, 0x60, 0x70, 0x80, 0x90,
          0xA0]
        [⟨gptWriteLeGuid basicDataGuid, gptWriteLeGuid [0x12, 0x34, 0x56, 0x78, 0x9A, 0xBC, 0xDE,
          0xF0, 0x12, 0x34, 0x56, 0x78, 0x9A, 0xBC, 0xDE, 0xF0], 2048, 65502, systemName⟩] all
      exact ⟨d', _, by
        show writeGptSingle emptyDisk 65536 = _
        unfold writeGptSingle
        rw [if_neg (by decide), startLba_eq (by decide)]
        dsimp only
        rw [if_neg (by decide), written]
        rfl⟩
  | dual =>
      obtain ⟨d', written⟩ := writeTables_total 65536
        [0xB1, 0xC2, 0xD3, 0xE4, 0xF5, 0x06, 0x17, 0x28, 0x39, 0x4A, 0x5B, 0x6C, 0x7D, 0x8E,
          0x9F, 0xA0]
        [⟨gptWriteLeGuid guidEsp, gptWriteLeGuid [0x10, 0x32, 0x54, 0x76, 0x98, 0xBA, 0xDC,
            0xFE, 0x10, 0x32, 0x54, 0x76, 0x98, 0xBA, 0xDC, 0xFE], 2048, 17910, espName⟩,
          ⟨gptWriteLeGuid guidLinux, gptWriteLeGuid [0x21, 0x43, 0x65, 0x87, 0xA9, 0xCB, 0xED,
            0x0F, 0x21, 0x43, 0x65, 0x87, 0xA9, 0xCB, 0xED, 0x0F], 17911, 65502, systemName⟩] all
      exact ⟨d', _, by
        show writeGptDual emptyDisk 65536 = _
        unfold writeGptDual
        rw [if_neg (by decide), startLba_eq (by decide)]
        dsimp only
        rw [show (if 65536 - 34 < 65536 + 2048 then (65536 - 34 - 2048) / 4 else 65536) = 15863 by
          decide, show (if 2048 + 15863 - 1 + 1 < 2048 then 2048 else 2048 + 15863 - 1 + 1) = 17911 by
          decide, if_neg (by decide), if_neg (by decide), if_neg (by decide)]
        rw [written]
        rfl⟩

/-- The single layout is right on it. -/
theorem emptyDisk_single : ∃ d' parts,
    writeGpt .single emptyDisk 65536 = some (d', parts) ∧
      ReadBack d' 65536 (by decide) parts ∧ TypesRight d' parts := by
  obtain ⟨d', parts, done⟩ := emptyDisk_written .single
  have right := gpt_tables_right_iff .single emptyDisk (by decide) done
  exact ⟨d', parts, done, right.1, right.2.2 rfl⟩

/-- The types of the dual layout are not those of the kernel. -/
theorem dual_types_unknown : ¬ ∀ (layout : Layout) (d : Disk) (total : Nat)
    (width : total < 18446744073709551616) (d' : Disk) (parts : List Reported),
      writeGpt layout d total = some (d', parts) →
        ReadBack d' total width parts ∧ TypesRight d' parts := by
  intro all
  obtain ⟨d', parts, done⟩ := emptyDisk_written .dual
  have width : 65536 < 18446744073709551616 := by decide
  exact (dual_right width done).2 (all .dual emptyDisk 65536 width d' parts done).2

end NTux.Install
