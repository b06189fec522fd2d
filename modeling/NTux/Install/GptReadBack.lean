import NTux.Install.Gpt

/-!
# The tables as the kernel reads them

What the installer has written, read back: the sectors by themselves (`writeTables_read`), the
entries by the loop of `fs_probe_gpt_partitions` (`probeGpt_entries`).  The constants of
`write_gpt_dual` are already in the order of the disk and are swapped once more.

The kernel itself does not come to that loop: its test of the signature passes over these
headers (`gptHeader_tables`).
-/

namespace NTux.Install

open NTux.Lib NTux.Lib.Packed NTux.Fs
open NTux.Lib.Bytes hiding rd64

variable {d d' : Disk} {total : Nat} {entries : List GptEntry}

/-! ## Sectors -/

theorem sysBlockWrite_sectors {lba : Nat} {bufs : List Bytes}
    (done : sysBlockWrite d lba bufs = some d') (a : Nat) :
    d'.sectors a = if lba ≤ a then bufs.getD (a - lba) (d.sectors a) else d.sectors a := by
  induction bufs generalizing d lba with
  | nil =>
      obtain rfl := Option.some.inj done
      rw [List.getD_nil, ite_self]
  | cons buf rest ih =>
      unfold sysBlockWrite at done
      split at done
      · rw [ih done]
        dsimp only
        rcases Nat.lt_trichotomy a lba with before | rfl | behind
        · rw [if_neg (by omega), if_neg (by omega), Function.update_of_ne (by omega)]
        · rw [if_neg (by omega), if_pos (Nat.le_refl _), Function.update_self, Nat.sub_self]
          rfl
        · rw [if_pos (Nat.succ_le_of_lt behind), if_pos (by omega), Function.update_of_ne (by omega),
            show a - lba = (a - (lba + 1)) + 1 by omega, List.getD_cons_succ]
      · cases done

theorem arraySectors_getD (entries : List GptEntry) {k : Nat} (lt : k < 32) (other : Bytes) :
    (arraySectors entries).getD k other = fun i => partArray entries (512 * k + i) := by
  unfold arraySectors
  rw [List.getD_eq_getElem?_getD, List.getElem?_map, List.getElem?_range lt]
  rfl

theorem arraySectors_length (entries : List GptEntry) : (arraySectors entries).length = 32 := by
  unfold arraySectors
  rw [List.length_map, List.length_range]

/-- The sectors of the tables. -/
structure TablesRead (d : Disk) (total : Nat) (hdr : GptHeader) (entries : List GptEntry) :
    Prop where
  primary : d.sectors 1 = hdr.sector
  backup : d.sectors (total - 1) = (backupHeader total hdr).summed.sector
  array : ∀ k < 32, d.sectors (2 + k) = fun i => partArray entries (512 * k + i)
  copy : ∀ k < 32, d.sectors (total - 33 + k) = fun i => partArray entries (512 * k + i)

theorem writeTables_read {diskGuid : List UInt8} (large : 2082 ≤ total)
    (done : writeTables d total diskGuid entries = some d') :
    TablesRead d' total (primaryHeader total diskGuid entries).summed entries := by
  unfold writeTables at done
  dsimp only at done
  obtain ⟨d₁, mbr, done⟩ := Option.bind_eq_some_iff.1 done
  obtain ⟨d₂, primary, done⟩ := Option.bind_eq_some_iff.1 done
  obtain ⟨d₃, array, done⟩ := Option.bind_eq_some_iff.1 done
  obtain ⟨d₄, copy, backup⟩ := Option.bind_eq_some_iff.1 done
  have length := arraySectors_length entries
  have past : ∀ {k : Nat} {other : Bytes}, 32 ≤ k → (arraySectors entries).getD k other = other :=
    fun le => List.getD_eq_default _ _ (by omega)
  refine ⟨?_, ?_, fun k lt => ?_, fun k lt => ?_⟩
  · rw [sysBlockWrite_sectors backup, if_neg (by omega), sysBlockWrite_sectors copy,
      if_neg (by omega), sysBlockWrite_sectors array, if_neg (by omega),
      sysBlockWrite_sectors primary, if_pos (Nat.le_refl 1)]
    rfl
  · rw [sysBlockWrite_sectors backup, if_pos (Nat.le_refl _), Nat.sub_self]
    rfl
  · rw [sysBlockWrite_sectors backup, if_neg (by omega), sysBlockWrite_sectors copy,
      if_neg (by omega), sysBlockWrite_sectors array, if_pos (by omega), Nat.add_sub_cancel_left,
      arraySectors_getD entries lt]
  · rw [sysBlockWrite_sectors backup, if_neg (by omega), sysBlockWrite_sectors copy,
      if_pos (by omega), Nat.add_sub_cancel_left, arraySectors_getD entries lt]

/-! ## Numbers and GUIDs -/

theorem rd64_congr {p q : Bytes} {o : Nat} (same : ∀ j < 8, p (o + j) = q (o + j)) :
    rd64 p o = rd64 q o := by
  have low : rd32 p o = rd32 q o := rd32_congr fun j lt => same j (by omega)
  have high : rd32 p (o + 4) = rd32 q (o + 4) := rd32_congr fun j lt => by
    rw [Nat.add_assoc]
    exact same (4 + j) (by omega)
  unfold rd64
  rw [low, high]

theorem fsGuidIsZero_congr {p q : Bytes} (same : slice p 0 16 = slice q 0 16) :
    fsGuidIsZero p = fsGuidIsZero q := by
  have all : ∀ p : Bytes, fsGuidIsZero p = (slice p 0 16).all fun b => b = 0 := by
    intro p
    unfold fsGuidIsZero slice
    rw [List.all_map]
    simp [Function.comp_def]
  rw [all, all, same]

/-! ## The header -/

section Header

variable {hdr : GptHeader}

/-- A field of four bytes at its place. -/
theorem sector_rd32 (k : Nat) {o x : Nat} (place : fieldAt hdr.fields k = o)
    (field : hdr.fields[k]? = some (4, le x)) : rd32 hdr.sector o = x % 4294967296 :=
  place ▸ rd32_pack hdr.fields k field

/-- A field of eight bytes at its place. -/
theorem sector_rd64 (k : Nat) {o x : Nat} (place : fieldAt hdr.fields k = o)
    (field : hdr.fields[k]? = some (8, le x)) : rd64 hdr.sector o = x % 2 ^ 64 :=
  place ▸ rd64_pack hdr.fields k field

theorem sector_currentLba : rd64 hdr.sector 24 = hdr.currentLba % 2 ^ 64 :=
  sector_rd64 5 (by simp [fieldAt, GptHeader.fields]) rfl

theorem sector_backupLba : rd64 hdr.sector 32 = hdr.backupLba % 2 ^ 64 :=
  sector_rd64 6 (by simp [fieldAt, GptHeader.fields]) rfl

theorem sector_firstUsable : rd64 hdr.sector 40 = hdr.firstUsableLba % 2 ^ 64 :=
  sector_rd64 7 (by simp [fieldAt, GptHeader.fields]) rfl

theorem sector_lastUsable : rd64 hdr.sector 48 = hdr.lastUsableLba % 2 ^ 64 :=
  sector_rd64 8 (by simp [fieldAt, GptHeader.fields]) rfl

theorem sector_entryLba : rd64 hdr.sector 72 = hdr.partitionEntryLba % 2 ^ 64 :=
  sector_rd64 10 (by simp [fieldAt, GptHeader.fields]) rfl

theorem sector_headerCrc : rd32 hdr.sector 16 = hdr.headerCrc32 % 4294967296 :=
  sector_rd32 3 (by simp [fieldAt, GptHeader.fields]) rfl

theorem sector_entryCount : rd32 hdr.sector 80 = hdr.numberOfPartitionEntries % 4294967296 :=
  sector_rd32 11 (by simp [fieldAt, GptHeader.fields]) rfl

theorem sector_entrySize : rd32 hdr.sector 84 = hdr.sizeOfPartitionEntry % 4294967296 :=
  sector_rd32 12 (by simp [fieldAt, GptHeader.fields]) rfl

theorem sector_arrayCrc : rd32 hdr.sector 88 = hdr.partitionEntryArrayCrc32 % 4294967296 :=
  sector_rd32 13 (by simp [fieldAt, GptHeader.fields]) rfl

/-- The bytes of a header while the field of its checksum is zero. -/
def withoutCrc (sector : Bytes) : Bytes := splice sector 16 4 fun _ => 0

/-- The checksum of a header is that of its bytes. -/
theorem summed_crc (size : hdr.headerSize = 92) :
    rd32 hdr.summed.sector 16 =
      (crc32Update 0 (slice (withoutCrc hdr.summed.sector) 0 92)).toNat := by
  have bytes : slice (withoutCrc hdr.summed.sector) 0 92 =
      slice { hdr with headerCrc32 := 0 }.sector 0 92 := by
    refine slice_congr fun i _ => ?_
    rw [Nat.zero_add]
    unfold withoutCrc
    by_cases inside : 16 ≤ i ∧ i < 20
    · have field : { hdr with headerCrc32 := 0 }.fields[3]? = some (4, le 0) := rfl
      have zero : { hdr with headerCrc32 := 0 }.sector (16 + (i - 16)) = le 0 (i - 16) :=
        pack_field field (by omega)
      rw [show 16 + (i - 16) = i by omega] at zero
      rw [zero]
      unfold splice
      rw [if_pos (by omega), le, Nat.zero_div]
      rfl
    · rw [splice_of_apart (by omega)]
      have field : { hdr with headerCrc32 := 0 }.fields[3]? = some (4, le 0) := rfl
      exact pack_set 4 (le hdr.summed.headerCrc32) field (by
        show i < 16 ∨ 16 + 4 ≤ i
        omega)
  rw [bytes, sector_headerCrc]
  show (crc32Update 0 (slice _ 0 hdr.headerSize)).toNat % 4294967296 = _
  rw [size]
  exact Nat.mod_eq_of_lt (UInt32.toNat_lt _)

end Header

/-! ## The entries -/

/-- The disk as a drive of the kernel. -/
def Disk.drive (d : Disk) (total : Nat) (width : total < 18446744073709551616) : BlockDev where
  present := true
  isAtapi := false
  sectors := total
  read lba := if lba < total then some (d.sectors lba) else none
  inWidth := width

/-- An entry of a partition of the disk. -/
structure GptEntry.Proper (e : GptEntry) (total : Nat) : Prop where
  guid : e.typeGuid.length = 16
  known : fsGuidIsZero (ofList e.typeGuid) = false
  start : 0 < e.startLba
  ordered : e.startLba ≤ e.endLba
  inside : e.endLba < total

/-- What the probe makes of the entries from number `i` on. -/
def attempts : Nat → List GptEntry → List MountAttempt
  | _, [] => []
  | i, e :: rest =>
      ⟨e.startLba, e.endLba - e.startLba + 1, fsGptTypeToMbrCompat (ofList e.typeGuid), i + 1⟩ ::
        attempts (i + 1) rest

section Probe

variable {hdr : GptHeader} {width : total < 18446744073709551616}

theorem partArray_entry (entries : List GptEntry) (i : Nat) {j : Nat} (lt : j < 128) :
    partArray entries (128 * i + j) = match entries[i]? with
      | some e => pack e.fields j
      | none => 0 := by
  show (match entries[(128 * i + j) / 128]? with
    | some e => pack e.fields ((128 * i + j) % 128)
    | none => 0) = _
  rw [show (128 * i + j) / 128 = i by omega, show (128 * i + j) % 128 = j by omega]

/-- The kernel reads the bytes of an entry. -/
theorem fsReadGptEntry_tables (width : total < 18446744073709551616) (large : 2082 ≤ total)
    (read : TablesRead d total hdr entries) (size : hdr.sizeOfPartitionEntry = 128)
    (place : hdr.partitionEntryLba = 2) {i : Nat} (lt : i < 128) :
    ∃ ent, fsReadGptEntry (d.drive total width) hdr.sector i = some ent ∧
      ∀ j < 128, ent j = partArray entries (128 * i + j) := by
  have sector := read.array (i * 128 / 512) (by omega)
  refine ⟨splice (fun _ => 0) 0 128 fun j =>
    d.sectors (2 + i * 128 / 512) (i * 128 % 512 + j), ?_, fun j ltj => ?_⟩
  · unfold fsReadGptEntry wrap64
    dsimp only
    rw [sector_entrySize, sector_entryLba, size, place, if_neg (by decide),
      Nat.mod_eq_of_lt (by omega : i * 128 < 18446744073709551616),
      show 2 % 2 ^ 64 = 2 by decide, show 128 % 4294967296 = 128 by decide,
      Nat.mod_eq_of_lt (by omega : 2 + i * 128 / 512 < 18446744073709551616)]
    have here : (d.drive total width).read (2 + i * 128 / 512) =
        some (d.sectors (2 + i * 128 / 512)) := if_pos (by omega)
    rw [here, Option.bind_some, if_pos (by omega)]
  · have inside := splice_of_mem (p := fun _ => 0) (o := 0) (n := 128) ltj
      (q := fun j => d.sectors (2 + i * 128 / 512) (i * 128 % 512 + j))
    rw [Nat.zero_add] at inside
    rw [inside, sector]
    dsimp only
    rw [show 512 * (i * 128 / 512) + (i * 128 % 512 + j) = 128 * i + j by omega]

/-- **The loop of the kernel extracts the entries of the installer.** -/
theorem probeGpt_entries (large : 2082 ≤ total) (read : TablesRead d total hdr entries)
    (size : hdr.sizeOfPartitionEntry = 128) (place : hdr.partitionEntryLba = 2)
    (proper : ∀ e ∈ entries, e.Proper total) {n i : Nat} (few : i + n ≤ 128)
    (enough : entries.length ≤ i + n) :
    probeGpt (d.drive total width) hdr.sector total n i = attempts i (entries.drop i) := by
  induction n generalizing i with
  | zero => rw [List.drop_eq_nil_of_le (by omega), attempts, probeGpt]
  | succ n ih =>
      obtain ⟨ent, found, bytes⟩ := fsReadGptEntry_tables width large read size place
        (i := i) (by omega)
      unfold probeGpt
      rw [found]
      dsimp only
      rw [ih (i := i + 1) (by omega) (by omega)]
      cases at_ : entries[i]? with
      | none =>
          have short := List.getElem?_eq_none_iff.1 at_
          have zero : fsGuidIsZero ent = true := by
            refine List.all_eq_true.2 fun j mem => ?_
            have lt := List.mem_range.1 mem
            rw [bytes j (by omega), partArray_entry entries i (by omega), at_]
            rfl
          rw [if_pos (.inl zero), List.drop_eq_nil_of_le (by omega),
            List.drop_eq_nil_of_le (by omega)]
          rfl
      | some e =>
          obtain ⟨lt, same⟩ := List.getElem?_eq_some_iff.1 at_
          have fine := proper e (same ▸ List.getElem_mem lt)
          have packed : ∀ j < 128, ent j = pack e.fields j := fun j ltj => by
            rw [bytes j ltj, partArray_entry entries i ltj, at_]
          have small : total < 2 ^ 64 := width
          have first : rd64 ent 32 = e.startLba := by
            have field : rd64 (pack e.fields) 32 = e.startLba % 2 ^ 64 :=
              rd64_pack e.fields 2 rfl
            have bound := fine.inside
            have ordered := fine.ordered
            rw [rd64_congr fun j ltj => packed (32 + j) (by omega), field,
              Nat.mod_eq_of_lt (by omega)]
          have last : rd64 ent 40 = e.endLba := by
            have field : rd64 (pack e.fields) 40 = e.endLba % 2 ^ 64 :=
              rd64_pack e.fields 3 rfl
            have bound := fine.inside
            rw [rd64_congr fun j ltj => packed (40 + j) (by omega), field,
              Nat.mod_eq_of_lt (by omega)]
          have guid : slice ent 0 16 = slice (ofList e.typeGuid) 0 16 :=
            slice_congr fun j ltj => by
              have field : e.fields[0]? = some (16, ofList e.typeGuid) := rfl
              rw [Nat.zero_add, packed j (by omega)]
              have here := pack_field field ltj
              rwa [show fieldAt e.fields 0 + j = j from Nat.zero_add j] at here
          have known : fsGuidIsZero ent = false := by
            rw [fsGuidIsZero_congr guid]
            exact fine.known
          have kind : fsGptTypeToMbrCompat ent = fsGptTypeToMbrCompat (ofList e.typeGuid) := by
            rw [fsGptTypeToMbrCompat_eq, fsGptTypeToMbrCompat_eq, guid]
          have start := fine.start
          have ordered := fine.ordered
          have inside := fine.inside
          have drop : entries.drop i = e :: entries.drop (i + 1) := by
            rw [List.drop_eq_getElem_cons lt, same]
          have one : wrap64 (e.endLba - e.startLba + 1) = e.endLba - e.startLba + 1 :=
            Nat.mod_eq_of_lt (by omega)
          have sum : wrap64 (e.startLba + (e.endLba - e.startLba + 1)) = e.endLba + 1 := by
            unfold wrap64
            omega
          rw [first, last, known, kind, drop, attempts, one, sum, if_neg (by
            rintro (zero | zero | less | outside)
            · cases zero
            · omega
            · omega
            · omega), if_pos (by omega : i < 250)]

/-- The loop over all entries of the header. -/
theorem probeGpt_tables (width : total < 18446744073709551616) (large : 2082 ≤ total)
    (read : TablesRead d total hdr entries) (count : hdr.numberOfPartitionEntries = 128)
    (size : hdr.sizeOfPartitionEntry = 128) (place : hdr.partitionEntryLba = 2)
    (proper : ∀ e ∈ entries, e.Proper total) (few : entries.length ≤ 128) :
    probeGpt (d.drive total width) (d.sectors 1) total (min (rd32 (d.sectors 1) 80) 256) 0 =
      attempts 0 entries := by
  rw [read.primary, sector_entryCount, count]
  exact probeGpt_entries large read size place proper (by decide) (by
    show entries.length ≤ 0 + 128
    omega)

end Probe

end NTux.Install
