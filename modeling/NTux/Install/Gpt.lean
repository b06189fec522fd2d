import NTux.Fs.Partitions
import NTux.Lib.Packed

/-!
# The partition tables of the installer

`write_gpt_single` and `write_gpt_dual` of `installer_term.c`: a protective MBR, the array of
128 entries behind the header in the second sector, and copies of both at the end of the disk.
The two differ in their partitions and in their GUIDs.
-/

namespace NTux.Install

open NTux.Lib NTux.Lib.Bytes NTux.Lib.Packed

/-- The sectors of a disk, and at which of them a write succeeds. -/
structure Disk where
  sectors : Nat → Bytes
  accepts : Nat → Bool

/-- `sys_block_write` of as many sectors as there are buffers. -/
def sysBlockWrite (d : Disk) (lba : Nat) : List Bytes → Option Disk
  | [] => some d
  | buf :: rest =>
      if d.accepts lba then
        sysBlockWrite { d with sectors := Function.update d.sectors lba buf } (lba + 1) rest
      else none

/-! ## The checksum -/

/-- A round of the inner loop of `crc32_update`. -/
def crc32Bit (c : UInt32) : UInt32 := (c >>> 1) ^^^ (if c &&& 1 = 1 then 0xEDB88320 else 0)

/-- A round of its outer loop. -/
def crc32Byte (c : UInt32) (b : UInt8) : UInt32 := crc32Bit^[8] (c ^^^ b.toUInt32)

/-- `crc32_update`. -/
def crc32Update (crc : UInt32) (data : List UInt8) : UInt32 := ~~~data.foldl crc32Byte (~~~crc)

/-- The check value of this checksum. -/
example : crc32Update 0 [0x31, 0x32, 0x33, 0x34, 0x35, 0x36, 0x37, 0x38, 0x39] = 0xCBF43926 := by
  decide +kernel

/-! ## The tables -/

/-- `gpt_write_le_guid`. -/
def gptWriteLeGuid (guid : List UInt8) : List UInt8 :=
  [guid.getD 3 0, guid.getD 2 0, guid.getD 1 0, guid.getD 0 0, guid.getD 5 0, guid.getD 4 0,
    guid.getD 7 0, guid.getD 6 0] ++ (List.range 8).map fun i => guid.getD (8 + i) 0

/-- The name of a partition, two bytes for each of at most 36 characters. -/
def gptName (name : List UInt8) : List UInt8 := (name.take 36).flatMap fun c => [c, 0]

/-- An entry of the array. -/
structure GptEntry where
  typeGuid : List UInt8
  uniqueGuid : List UInt8
  startLba : Nat
  endLba : Nat
  name : List UInt8

/-- Its fields; the attributes stay zero. -/
def GptEntry.fields (e : GptEntry) : List (Nat × Bytes) :=
  [(16, ofList e.typeGuid), (16, ofList e.uniqueGuid), (8, le e.startLba), (8, le e.endLba),
    (8, le 0), (72, ofList (gptName e.name))]

/-- `part_array`. -/
def partArray (entries : List GptEntry) : Bytes := fun i =>
  match entries[i / 128]? with
  | some e => pack e.fields (i % 128)
  | none => 0

/-- The sectors of the array. -/
def arraySectors (entries : List GptEntry) : List Bytes :=
  (List.range 32).map fun k i => partArray entries (512 * k + i)

/-- `gpt_header_t`. -/
structure GptHeader where
  signature : List UInt8
  revision : Nat
  headerSize : Nat
  headerCrc32 : Nat
  reserved : Nat
  currentLba : Nat
  backupLba : Nat
  firstUsableLba : Nat
  lastUsableLba : Nat
  diskGuid : List UInt8
  partitionEntryLba : Nat
  numberOfPartitionEntries : Nat
  sizeOfPartitionEntry : Nat
  partitionEntryArrayCrc32 : Nat

/-- Its fields. -/
def GptHeader.fields (h : GptHeader) : List (Nat × Bytes) :=
  [(8, ofList h.signature), (4, le h.revision), (4, le h.headerSize), (4, le h.headerCrc32),
    (4, le h.reserved), (8, le h.currentLba), (8, le h.backupLba), (8, le h.firstUsableLba),
    (8, le h.lastUsableLba), (16, ofList h.diskGuid), (8, le h.partitionEntryLba),
    (4, le h.numberOfPartitionEntries), (4, le h.sizeOfPartitionEntry),
    (4, le h.partitionEntryArrayCrc32)]

/-- The header in its sector. -/
def GptHeader.sector (h : GptHeader) : Bytes := pack h.fields

/-- The header with the checksum of its bytes, taken while the field is zero. -/
def GptHeader.summed (h : GptHeader) : GptHeader :=
  { h with
    headerCrc32 := (crc32Update 0 (slice { h with headerCrc32 := 0 }.sector 0 h.headerSize)).toNat }

/-- The protective MBR. -/
def protectiveMbr (total : Nat) : Bytes :=
  pack [(446, fun _ => 0), (1, le 0), (3, le 0), (1, le 0xEE), (3, le 0), (4, le 1),
    (4, le (if 0xFFFFFFFF < total - 1 then 0xFFFFFFFF else total - 1)), (48, fun _ => 0),
    (2, le 0xAA55)]

/-- `EFI PART`. -/
def efiPart : List UInt8 := [0x45, 0x46, 0x49, 0x20, 0x50, 0x41, 0x52, 0x54]

/-- The primary header. -/
def primaryHeader (total : Nat) (diskGuid : List UInt8) (entries : List GptEntry) : GptHeader where
  signature := efiPart
  revision := 0x00010000
  headerSize := 92
  headerCrc32 := 0
  reserved := 0
  currentLba := 1
  backupLba := total - 1
  firstUsableLba := 34
  lastUsableLba := total - 34
  diskGuid := gptWriteLeGuid diskGuid
  partitionEntryLba := 2
  numberOfPartitionEntries := 128
  sizeOfPartitionEntry := 128
  partitionEntryArrayCrc32 := (crc32Update 0 (slice (partArray entries) 0 (512 * 32))).toNat

/-- The backup header, a copy of the primary one but for what is set anew. -/
def backupHeader (total : Nat) (hdr : GptHeader) : GptHeader :=
  { hdr with currentLba := total - 1, backupLba := 1, partitionEntryLba := total - 33 }

/-- The writes of both functions, in order. -/
def writeTables (d : Disk) (total : Nat) (diskGuid : List UInt8) (entries : List GptEntry) :
    Option Disk :=
  let hdr := (primaryHeader total diskGuid entries).summed
  (sysBlockWrite d 0 [protectiveMbr total]).bind fun d =>
    (sysBlockWrite d 1 [hdr.sector]).bind fun d =>
      (sysBlockWrite d 2 (arraySectors entries)).bind fun d =>
        (sysBlockWrite d (total - 33) (arraySectors entries)).bind fun d =>
          sysBlockWrite d (total - 1) [(backupHeader total hdr).summed.sector]

/-- The kinds of partitions. -/
inductive Kind
  | basicData
  | efiSystem
  | linux

/-- A partition that is reported back. -/
structure Reported where
  lba : Nat
  sectors : Nat
  kind : Kind

/-- The start both functions come to. -/
def startLba (total : Nat) : Nat :=
  let start := if 2048 < 34 then 34 else 2048
  if total - 34 < start then 34 else start

/-- `basic_data_guid`. -/
def basicDataGuid : List UInt8 :=
  [0xEB, 0xD0, 0xA0, 0xA2, 0xB9, 0xE5, 0x44, 0x33, 0x87, 0xC0, 0x68, 0xB6, 0xB7, 0x26, 0x99, 0xC7]

/-- `NTux System`. -/
def systemName : List UInt8 := [78, 84, 117, 120, 32, 83, 121, 115, 116, 101, 109]

/-- `write_gpt_single`. -/
def writeGptSingle (d : Disk) (total : Nat) : Option (Disk × List Reported) :=
  if total < 2048 + 34 then none
  else
    let start := startLba total
    let last := total - 34
    if last ≤ start then none
    else
      (writeTables d total
        [0xA1, 0xB2, 0xC3, 0xD4, 0xE5, 0xF6, 0x10, 0x20, 0x30, 0x40, 0x50, 0x60, 0x70, 0x80, 0x90,
          0xA0]
        [⟨gptWriteLeGuid basicDataGuid, gptWriteLeGuid [0x12, 0x34, 0x56, 0x78, 0x9A, 0xBC, 0xDE,
          0xF0, 0x12, 0x34, 0x56, 0x78, 0x9A, 0xBC, 0xDE, 0xF0], start, last, systemName⟩]).map
        fun d => (d, [⟨start, last - start + 1, .basicData⟩])

/-- `guid_esp`. -/
def guidEsp : List UInt8 :=
  [0x28, 0x73, 0x2A, 0xC1, 0x1F, 0xF8, 0xD2, 0x11, 0xBA, 0x4B, 0x00, 0xA0, 0xC9, 0x3E, 0xC9, 0x3B]

/-- `guid_linux`. -/
def guidLinux : List UInt8 :=
  [0xAF, 0x3D, 0xC6, 0x0F, 0x83, 0x84, 0x72, 0x47, 0x8E, 0x79, 0x3D, 0x69, 0xD8, 0x47, 0x7D, 0xE4]

/-- `NTux ESP`. -/
def espName : List UInt8 := [78, 84, 117, 120, 32, 69, 83, 80]

/-- `write_gpt_dual`. -/
def writeGptDual (d : Disk) (total : Nat) : Option (Disk × List Reported) :=
  if total < 2048 + 34 + 2048 then none
  else
    let start := startLba total
    let last := total - 34
    if last ≤ start + 2048 then none
    else
      let espSecs := if last < 65536 + start then (last - start) / 4 else 65536
      if espSecs < 8192 then none
      else
        let espEnd := start + espSecs - 1
        let sysStart := if espEnd + 1 < start then start else espEnd + 1
        if last < sysStart then none
        else
          (writeTables d total
            [0xB1, 0xC2, 0xD3, 0xE4, 0xF5, 0x06, 0x17, 0x28, 0x39, 0x4A, 0x5B, 0x6C, 0x7D, 0x8E,
              0x9F, 0xA0]
            [⟨gptWriteLeGuid guidEsp, gptWriteLeGuid [0x10, 0x32, 0x54, 0x76, 0x98, 0xBA, 0xDC,
                0xFE, 0x10, 0x32, 0x54, 0x76, 0x98, 0xBA, 0xDC, 0xFE], start, espEnd, espName⟩,
              ⟨gptWriteLeGuid guidLinux, gptWriteLeGuid [0x21, 0x43, 0x65, 0x87, 0xA9, 0xCB, 0xED,
                0x0F, 0x21, 0x43, 0x65, 0x87, 0xA9, 0xCB, 0xED, 0x0F], sysStart, last,
                systemName⟩]).map
            fun d => (d, [⟨start, espEnd - start + 1, .efiSystem⟩,
              ⟨sysStart, last - sysStart + 1, .linux⟩])

/-- The two layouts. -/
inductive Layout
  | single
  | dual
  deriving DecidableEq

/-- The function of a layout. -/
def writeGpt : Layout → Disk → Nat → Option (Disk × List Reported)
  | .single => writeGptSingle
  | .dual => writeGptDual

end NTux.Install
