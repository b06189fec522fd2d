import NTux.Fs.Partitions
import Mathlib.Algebra.Group.Nat.Defs

/-!
# Which tables the kernel takes a drive to have

Both walks decide between a GPT and an MBR by one test of sector 1, and give every GPT entry
the type of an MBR.  Both compare with the kernel's `memcmp`, which holds of equal buffers, as
if it were the one of the C library, which is 0 for them.

So the test accepts exactly the headers that do not say `EFI PART` (`takesGpt_iff`), and is
right exactly where no header in the accepted ranges is read; the type is right for no GUID
(`partition_scheme_iff`).
-/

namespace NTux.Fs

open NTux.Lib NTux.Lib.Bytes

/-- The walks come to the test: there is a drive, not an ATAPI one, its first sector is read
and its size is known. -/
def Probed (dev : BlockDev) : Prop :=
  dev.present = true ∧ dev.isAtapi = false ∧ (dev.read 0).isSome = true ∧ dev.sectors ≠ 0

/-- The fields of the header are in the accepted ranges. -/
structure RangesAccepted (hdr : Bytes) : Prop where
  headerSize : 92 ≤ rd32 hdr 12 ∧ rd32 hdr 12 ≤ 512
  entrySize : 128 ≤ rd32 hdr 84 ∧ rd32 hdr 84 ≤ 512
  entries : 0 < rd32 hdr 80
  entryLba : rd64 hdr 72 ≠ 0

/-- A drive with a GPT: the second sector begins with `EFI PART` and its fields are in the
accepted ranges. -/
def HasGpt (dev : BlockDev) : Prop :=
  Probed dev ∧ ∃ hdr, dev.read 1 = some hdr ∧ slice hdr 0 8 = gptSignature ∧ RangesAccepted hdr

/-- The walks take the path of a GPT. -/
def TakesGpt (dev : BlockDev) : Prop := ∃ hdr, tables dev = .gpt hdr

/-- The compatibility type names the GUID: 0xEF, 0x0C and 0x83 are for the three known ones,
and 0 is for all others. -/
structure TypeNamed (ent : Bytes) : Prop where
  efi : fsGptTypeToMbrCompat ent = 0xEF ↔ slice ent 0 16 = guidEfiSystem
  basic : fsGptTypeToMbrCompat ent = 0x0C ↔ slice ent 0 16 = guidMsBasic
  linux : fsGptTypeToMbrCompat ent = 0x83 ↔ slice ent 0 16 = guidLinuxFs
  other : fsGptTypeToMbrCompat ent = 0 ↔ slice ent 0 16 ≠ guidEfiSystem ∧
    slice ent 0 16 ≠ guidMsBasic ∧ slice ent 0 16 ≠ guidLinuxFs

section Detection

variable {dev : BlockDev}

/-- The test of the header: the ranges, and another signature. -/
theorem isGptHeader_iff (hdr : Bytes) :
    isGptHeader hdr = true ↔ slice hdr 0 8 ≠ gptSignature ∧ RangesAccepted hdr := by
  have signature : memcmp hdr (Packed.ofList gptSignature) 8 = false ↔
    slice hdr 0 8 ≠ gptSignature := memcmp_false
  unfold isGptHeader
  simp only [Bool.and_eq_true, decide_eq_true_eq, bne_iff_ne, signature]
  constructor
  · rintro ⟨⟨⟨⟨⟨⟨differ, low⟩, high⟩, entryLow⟩, entryHigh⟩, some_⟩, lba⟩
    exact ⟨differ, ⟨low, high⟩, ⟨entryLow, entryHigh⟩, some_, lba⟩
  · rintro ⟨differ, ⟨low, high⟩, ⟨entryLow, entryHigh⟩, some_, lba⟩
    exact ⟨⟨⟨⟨⟨⟨differ, low⟩, high⟩, entryLow⟩, entryHigh⟩, some_⟩, lba⟩

theorem tables_gpt_iff (hdr : Bytes) :
    tables dev = .gpt hdr ↔ Probed dev ∧ gptHeader dev = some hdr := by
  unfold tables Probed
  by_cases skip : !dev.present ∨ dev.isAtapi
  · rw [if_pos skip]
    refine iff_of_false (by intro eq; cases eq) ?_
    rintro ⟨⟨present, atapi, -⟩, -⟩
    rw [present, atapi] at skip
    rcases skip with skip | skip <;> cases skip
  · rw [if_neg skip]
    have here : dev.present = true ∧ dev.isAtapi = false := by
      rw [not_or, Bool.not_eq_true, Bool.not_eq_true, Bool.not_eq_false'] at skip
      exact skip
    cases dev.read 0 with
    | none => exact iff_of_false (by intro eq; cases eq) fun both => by cases both.1.2.2.1
    | some mbr =>
        dsimp only
        by_cases empty : dev.sectors = 0
        · rw [if_pos empty]
          exact iff_of_false (by intro eq; cases eq) fun both => both.1.2.2.2 empty
        · rw [if_neg empty]
          cases gptHeader dev with
          | some found =>
              dsimp only
              constructor
              · intro eq
                exact ⟨⟨here.1, here.2, rfl, empty⟩, congrArg some (Tables.gpt.inj eq)⟩
              · rintro ⟨-, eq⟩
                rw [Option.some.inj eq]
          | none =>
              refine iff_of_false ?_ fun both => by cases both.2
              intro eq
              dsimp only at eq
              split at eq <;> cases eq

/-- **The path of a GPT is taken exactly for headers that do not say so.** -/
theorem takesGpt_iff (dev : BlockDev) : TakesGpt dev ↔ Probed dev ∧
    ∃ hdr, dev.read 1 = some hdr ∧ slice hdr 0 8 ≠ gptSignature ∧ RangesAccepted hdr := by
  unfold TakesGpt
  simp only [tables_gpt_iff, gptHeader, Option.filter_eq_some_iff, isGptHeader_iff, exists_and_left]

/-- The decision is right exactly where no accepted header is read. -/
theorem takesGpt_right_iff (dev : BlockDev) : (TakesGpt dev ↔ HasGpt dev) ↔
    ¬ (Probed dev ∧ ∃ hdr, dev.read 1 = some hdr ∧ RangesAccepted hdr) := by
  rw [takesGpt_iff]
  unfold HasGpt
  constructor
  · rintro same ⟨probed, hdr, read, ranges⟩
    by_cases begins : slice hdr 0 8 = gptSignature
    · obtain ⟨-, other, read', differ, -⟩ := same.2 ⟨probed, hdr, read, begins, ranges⟩
      obtain rfl := Option.some.inj (read.symm.trans read')
      exact differ begins
    · obtain ⟨-, other, read', begins', -⟩ := same.1 ⟨probed, hdr, read, begins, ranges⟩
      obtain rfl := Option.some.inj (read.symm.trans read')
      exact begins begins'
  · intro none
    refine iff_of_false ?_ ?_
    · rintro ⟨probed, hdr, read, -, ranges⟩
      exact none ⟨probed, hdr, read, ranges⟩
    · rintro ⟨probed, hdr, read, -, ranges⟩
      exact none ⟨probed, hdr, read, ranges⟩

/-- The type is 0x0C for the EFI system GUID and 0xEF for every other one. -/
theorem not_typeNamed (ent : Bytes) : ¬ TypeNamed ent := by
  intro named
  have eq := fsGptTypeToMbrCompat_eq ent
  by_cases efi : slice ent 0 16 = guidEfiSystem
  · rw [if_pos efi] at eq
    have named_ := named.efi.2 efi
    rw [eq] at named_
    exact absurd named_ (by decide)
  · rw [if_neg efi] at eq
    exact efi (named.efi.1 eq)

end Detection

/-- **Both functions walk over the same tables.  These are a GPT rightly or are rightly none
exactly if no header in the accepted ranges is read, and no entry gets the type of its GUID.** -/
theorem partition_scheme_iff (dev : BlockDev) :
    (fsProbePartitions dev = probeTables dev (tables dev) ∧
      listedPartitions dev = listTables dev (tables dev)) ∧
    ((TakesGpt dev ↔ HasGpt dev) ↔
      ¬ (Probed dev ∧ ∃ hdr, dev.read 1 = some hdr ∧ RangesAccepted hdr)) ∧
    ∀ ent, ¬ TypeNamed ent :=
  ⟨⟨fsProbePartitions_tables dev, listedPartitions_tables dev⟩, takesGpt_right_iff dev,
    not_typeNamed⟩

theorem gptDrive_inWidth : 100 < 18446744073709551616 := by decide

/-- A drive of 100 sectors whose second sector is the header of a GPT. -/
def gptDrive : BlockDev where
  present := true
  isAtapi := false
  sectors := 100
  read lba := if lba = 1 then some (sectorOf ((List.range 8).zip gptSignature ++
    [(12, 92), (72, 2), (80, 128), (84, 128)])) else some (sectorOf [])
  inWidth := gptDrive_inWidth

/-- No GPT is seen on it, and the type of its EFI system partition would be 0x0C. -/
theorem gpt_not_detected : ¬ ∀ dev : BlockDev, (TakesGpt dev ↔ HasGpt dev) ∧
    ∀ ent, TypeNamed ent := by
  intro always
  refine (takesGpt_right_iff gptDrive).1 (always gptDrive).1 ⟨?_, _, rfl, ?_⟩
  · exact ⟨rfl, rfl, rfl, by decide⟩
  · exact ⟨by decide, by decide, by decide, by decide⟩

end NTux.Fs
