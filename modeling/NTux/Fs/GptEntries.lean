import NTux.Fs.Partitions

/-!
# The entries of a GPT

`fs_read_gpt_entry` finds entry `index` in the array of entries, from one sector or from two.
`IsEntry` says which bytes that entry has, in numbers without a width, and is what the function
returns unless the number of a sector of the array passes `2 ^ 64` (`fsReadGptEntry_iff`).

Both loops accept an entry by its end in 64 bits, so one that reaches to sector `2 ^ 64 - 1`
passes for one that ends at 0 (`gpt_entries_iff`).
-/

namespace NTux.Fs

open NTux.Lib NTux.Lib.Bytes

/-- Sector `k` of the array of entries.  There is none from `2 ^ 64` on. -/
def arraySector (dev : BlockDev) (hdr : Bytes) (k : Nat) : Option Bytes :=
  if rd64 hdr 72 + k < 18446744073709551616 then dev.read (rd64 hdr 72 + k) else none

/-- Entry `index` of the array, and zeroes behind it. -/
structure IsEntry (dev : BlockDev) (hdr : Bytes) (index : Nat) (ent : Bytes) : Prop where
  bytes : ∀ j < rd32 hdr 84, ∃ sec,
    arraySector dev hdr ((index * rd32 hdr 84 + j) / 512) = some sec ∧
      ent j = sec ((index * rd32 hdr 84 + j) % 512)
  zeroes : ∀ j, rd32 hdr 84 ≤ j → ent j = 0

/-- The sectors of entry `index` have numbers of 64 bits, or one of those that the cut numbers
name is not read. -/
def NumbersSuffice (dev : BlockDev) (hdr : Bytes) (index : Nat) : Prop :=
  rd64 hdr 72 + (index * rd32 hdr 84 + rd32 hdr 84 - 1) / 512 < 18446744073709551616 ∨
    ∃ k, index * rd32 hdr 84 / 512 ≤ k ∧ k ≤ (index * rd32 hdr 84 + rd32 hdr 84 - 1) / 512 ∧
      dev.read (wrap64 (rd64 hdr 72 + k)) = none

/-- `fs_read_gpt_entry` returns exactly the entries of the array. -/
def EntriesExact (dev : BlockDev) (hdr : Bytes) : Prop :=
  ∀ (index : UInt32) (ent : Bytes),
    fsReadGptEntry dev hdr index.toNat = some ent ↔ IsEntry dev hdr index.toNat ent

/-- What the loops pass on lies between sector 1 and the end of the drive. -/
def PassedInside (dev : BlockDev) (hdr : Bytes) : Prop :=
  (∀ m ∈ probeGpt dev hdr dev.sectors (min (rd32 hdr 80) 256) 0,
    1 ≤ m.lba ∧ m.lba + m.sectors ≤ dev.sectors) ∧
  ∀ p ∈ listGpt dev hdr dev.sectors (min (rd32 hdr 80) 256) 0,
    1 ≤ p.lbaStart ∧ p.lbaStart + p.sectors ≤ dev.sectors

/-- No used entry that the loops come to ends at sector `2 ^ 64 - 1`. -/
def NoEndlessEntry (dev : BlockDev) (hdr : Bytes) : Prop :=
  ∀ i < min (rd32 hdr 80) 256, (∀ before < i, ∃ ent, IsEntry dev hdr before ent) →
    ∀ ent, IsEntry dev hdr i ent → fsGuidIsZero ent = false → rd64 ent 32 ≠ 0 →
      rd64 ent 40 ≠ 18446744073709551615

section Reading

variable {dev : BlockDev} {hdr ent : Bytes} {index : Nat}

theorem splice_start {p q : Bytes} {n j : Nat} (lt : j < n) : splice p 0 n q j = q j := by
  have at_ := splice_of_mem (p := p) (o := 0) (q := q) lt
  rwa [Nat.zero_add] at at_

/-- An entry in one sector. -/
theorem isEntry_within (some_ : 0 < rd32 hdr 84)
    (within : index * rd32 hdr 84 % 512 + rd32 hdr 84 ≤ 512) :
    IsEntry dev hdr index ent ↔ ∃ sec, arraySector dev hdr (index * rd32 hdr 84 / 512) = some sec ∧
      ent = splice (fun _ => 0) 0 (rd32 hdr 84) fun i => sec (index * rd32 hdr 84 % 512 + i) := by
  have place : ∀ j < rd32 hdr 84,
      (index * rd32 hdr 84 + j) / 512 = index * rd32 hdr 84 / 512 ∧
        (index * rd32 hdr 84 + j) % 512 = index * rd32 hdr 84 % 512 + j := by
    intro j lt
    omega
  constructor
  · intro entry
    obtain ⟨sec, sector, -⟩ := entry.bytes 0 some_
    rw [(place 0 some_).1] at sector
    refine ⟨sec, sector, ?_⟩
    funext j
    by_cases lt : j < rd32 hdr 84
    · obtain ⟨other, same, byte⟩ := entry.bytes j lt
      rw [(place j lt).1, sector] at same
      obtain rfl := Option.some.inj same
      rw [splice_start lt, byte, (place j lt).2]
    · rw [splice_of_apart (by omega)]
      exact entry.zeroes j (Nat.le_of_not_lt lt)
  · rintro ⟨sec, sector, rfl⟩
    refine ⟨fun j lt => ⟨sec, ?_, ?_⟩, fun j le => splice_of_apart (by omega)⟩
    · rw [(place j lt).1]
      exact sector
    · rw [(place j lt).2, splice_start lt]

/-- An entry in two sectors. -/
theorem isEntry_across (small : rd32 hdr 84 ≤ 512)
    (across : 512 < index * rd32 hdr 84 % 512 + rd32 hdr 84) :
    IsEntry dev hdr index ent ↔ ∃ sec0 sec1,
      arraySector dev hdr (index * rd32 hdr 84 / 512) = some sec0 ∧
      arraySector dev hdr (index * rd32 hdr 84 / 512 + 1) = some sec1 ∧
      ent = splice (splice (fun _ => 0) 0 (512 - index * rd32 hdr 84 % 512) fun i =>
          sec0 (index * rd32 hdr 84 % 512 + i)) (512 - index * rd32 hdr 84 % 512)
        (rd32 hdr 84 - (512 - index * rd32 hdr 84 % 512)) sec1 := by
  generalize first : 512 - index * rd32 hdr 84 % 512 = n
  have low : ∀ j < n, (index * rd32 hdr 84 + j) / 512 = index * rd32 hdr 84 / 512 ∧
      (index * rd32 hdr 84 + j) % 512 = index * rd32 hdr 84 % 512 + j := by
    intro j lt
    omega
  have high : ∀ j, n ≤ j → j < rd32 hdr 84 →
      (index * rd32 hdr 84 + j) / 512 = index * rd32 hdr 84 / 512 + 1 ∧
        (index * rd32 hdr 84 + j) % 512 = j - n := by
    intro j le lt
    omega
  have some_ : 0 < n := by omega
  have less : n < rd32 hdr 84 := by omega
  constructor
  · intro entry
    obtain ⟨sec0, sector0, -⟩ := entry.bytes 0 (by omega)
    obtain ⟨sec1, sector1, -⟩ := entry.bytes n less
    rw [(low 0 some_).1] at sector0
    rw [(high n (Nat.le_refl _) less).1] at sector1
    refine ⟨sec0, sec1, sector0, sector1, ?_⟩
    funext j
    rcases Nat.lt_or_ge j n with before | behind
    · obtain ⟨other, same, byte⟩ := entry.bytes j (by omega)
      rw [(low j before).1, sector0] at same
      obtain rfl := Option.some.inj same
      rw [splice_of_apart (by omega), splice_start before, byte, (low j before).2]
    · by_cases lt : j < rd32 hdr 84
      · obtain ⟨other, same, byte⟩ := entry.bytes j lt
        rw [(high j behind lt).1, sector1] at same
        obtain rfl := Option.some.inj same
        rw [byte, (high j behind lt).2, splice, if_pos (by omega)]
      · rw [splice_of_apart (by omega), splice_of_apart (by omega)]
        exact entry.zeroes j (Nat.le_of_not_lt lt)
  · rintro ⟨sec0, sec1, sector0, sector1, rfl⟩
    refine ⟨fun j lt => ?_, fun j le => ?_⟩
    · rcases Nat.lt_or_ge j n with before | behind
      · refine ⟨sec0, by rw [(low j before).1, sector0], ?_⟩
        rw [splice_of_apart (by omega), splice_start before, (low j before).2]
      · refine ⟨sec1, by rw [(high j behind lt).1, sector1], ?_⟩
        rw [(high j behind lt).2, splice, if_pos (by omega)]
    · rw [splice_of_apart (by omega), splice_of_apart (by omega)]

/-- The function on an entry in one sector. -/
theorem fsReadGptEntry_within (range : 128 ≤ rd32 hdr 84 ∧ rd32 hdr 84 ≤ 512)
    (short : index < 4294967296) (within : index * rd32 hdr 84 % 512 + rd32 hdr 84 ≤ 512) :
    fsReadGptEntry dev hdr index = some ent ↔
      ∃ sec, dev.read (wrap64 (rd64 hdr 72 + index * rd32 hdr 84 / 512)) = some sec ∧
        ent = splice (fun _ => 0) 0 (rd32 hdr 84) fun i => sec (index * rd32 hdr 84 % 512 + i) := by
  have exact_ : wrap64 (index * rd32 hdr 84) = index * rd32 hdr 84 := by
    have bound : index * rd32 hdr 84 ≤ 4294967296 * 512 :=
      Nat.mul_le_mul (Nat.le_of_lt short) range.2
    exact Nat.mod_eq_of_lt (by omega)
  unfold fsReadGptEntry
  dsimp only
  rw [if_neg (by omega), exact_, Option.bind_eq_some_iff]
  simp only [if_pos within, Option.some.injEq]
  exact exists_congr fun sec => and_congr_right fun _ => eq_comm

/-- The function on an entry in two sectors. -/
theorem fsReadGptEntry_across (range : 128 ≤ rd32 hdr 84 ∧ rd32 hdr 84 ≤ 512)
    (short : index < 4294967296) (across : 512 < index * rd32 hdr 84 % 512 + rd32 hdr 84) :
    fsReadGptEntry dev hdr index = some ent ↔ ∃ sec0 sec1,
      dev.read (wrap64 (rd64 hdr 72 + index * rd32 hdr 84 / 512)) = some sec0 ∧
      dev.read (wrap64 (rd64 hdr 72 + (index * rd32 hdr 84 / 512 + 1))) = some sec1 ∧
      ent = splice (splice (fun _ => 0) 0 (512 - index * rd32 hdr 84 % 512) fun i =>
          sec0 (index * rd32 hdr 84 % 512 + i)) (512 - index * rd32 hdr 84 % 512)
        (rd32 hdr 84 - (512 - index * rd32 hdr 84 % 512)) sec1 := by
  have exact_ : wrap64 (index * rd32 hdr 84) = index * rd32 hdr 84 := by
    have bound : index * rd32 hdr 84 ≤ 4294967296 * 512 :=
      Nat.mul_le_mul (Nat.le_of_lt short) range.2
    exact Nat.mod_eq_of_lt (by omega)
  have next : wrap64 (wrap64 (rd64 hdr 72 + index * rd32 hdr 84 / 512) + 1) =
      wrap64 (rd64 hdr 72 + (index * rd32 hdr 84 / 512 + 1)) := by
    unfold wrap64
    omega
  unfold fsReadGptEntry
  dsimp only
  rw [if_neg (by omega), exact_, next, Option.bind_eq_some_iff]
  simp only [if_neg (Nat.not_le.2 across), Option.map_eq_some_iff]
  constructor
  · rintro ⟨sec0, read0, sec1, read1, rfl⟩
    exact ⟨sec0, sec1, read0, read1, rfl⟩
  · rintro ⟨sec0, sec1, read0, read1, rfl⟩
    exact ⟨sec0, read0, sec1, read1, rfl⟩

theorem arraySector_read {k : Nat} {sec : Bytes} (sector : arraySector dev hdr k = some sec) :
    rd64 hdr 72 + k < 18446744073709551616 ∧ dev.read (wrap64 (rd64 hdr 72 + k)) = some sec := by
  unfold arraySector at sector
  split at sector
  next lt => exact ⟨lt, by rwa [wrap64, Nat.mod_eq_of_lt lt]⟩
  next => cases sector

theorem arraySector_of_read {k : Nat} (lt : rd64 hdr 72 + k < 18446744073709551616) {sec : Bytes}
    (read : dev.read (wrap64 (rd64 hdr 72 + k)) = some sec) : arraySector dev hdr k = some sec := by
  rw [wrap64, Nat.mod_eq_of_lt lt] at read
  rw [arraySector, if_pos lt]
  exact read

/-- The entries of the array are always found. -/
theorem IsEntry.read (range : 128 ≤ rd32 hdr 84 ∧ rd32 hdr 84 ≤ 512) (short : index < 4294967296)
    (entry : IsEntry dev hdr index ent) : fsReadGptEntry dev hdr index = some ent := by
  rcases Nat.lt_or_ge 512 (index * rd32 hdr 84 % 512 + rd32 hdr 84) with across | within
  · obtain ⟨sec0, sec1, sector0, sector1, eq⟩ := (isEntry_across range.2 across).1 entry
    exact (fsReadGptEntry_across range short across).2
      ⟨sec0, sec1, (arraySector_read sector0).2, (arraySector_read sector1).2, eq⟩
  · obtain ⟨sec, sector, eq⟩ := (isEntry_within (by omega) within).1 entry
    exact (fsReadGptEntry_within range short within).2 ⟨sec, (arraySector_read sector).2, eq⟩

/-- **The function returns exactly the entries of the array if the numbers of its sectors have
64 bits, and only then.** -/
theorem fsReadGptEntry_iff (range : 128 ≤ rd32 hdr 84 ∧ rd32 hdr 84 ≤ 512)
    (short : index < 4294967296) :
    (∀ ent, fsReadGptEntry dev hdr index = some ent ↔ IsEntry dev hdr index ent) ↔
      NumbersSuffice dev hdr index := by
  have found : (∀ ent, fsReadGptEntry dev hdr index = some ent ↔ IsEntry dev hdr index ent) ↔
      ∀ ent, fsReadGptEntry dev hdr index = some ent → IsEntry dev hdr index ent :=
    forall_congr' fun ent => ⟨Iff.mp, fun only => ⟨only, IsEntry.read range short⟩⟩
  rw [found, NumbersSuffice]
  rcases Nat.lt_or_ge 512 (index * rd32 hdr 84 % 512 + rd32 hdr 84) with across | within
  · have last : (index * rd32 hdr 84 + rd32 hdr 84 - 1) / 512 = index * rd32 hdr 84 / 512 + 1 := by
      omega
    rw [last]
    simp only [fsReadGptEntry_across range short across, isEntry_across range.2 across]
    constructor
    · intro only
      by_contra wide
      obtain ⟨wide, reads⟩ := not_or.1 wide
      have all : ∀ k, index * rd32 hdr 84 / 512 ≤ k → k ≤ index * rd32 hdr 84 / 512 + 1 →
          ∃ sec, dev.read (wrap64 (rd64 hdr 72 + k)) = some sec := fun k low high =>
        Option.ne_none_iff_exists'.1 fun none => reads ⟨k, low, high, none⟩
      obtain ⟨sec0, read0⟩ := all _ (Nat.le_refl _) (Nat.le_succ _)
      obtain ⟨sec1, read1⟩ := all _ (Nat.le_succ _) (Nat.le_refl _)
      obtain ⟨_, _, _, sector1, _⟩ := only _ ⟨sec0, sec1, read0, read1, rfl⟩
      exact wide (arraySector_read sector1).1
    · rintro (narrow | ⟨k, low, high, none⟩) ent ⟨sec0, sec1, read0, read1, eq⟩
      · exact ⟨sec0, sec1, arraySector_of_read (by omega) read0, arraySector_of_read narrow read1, eq⟩
      · rcases Nat.lt_or_ge (index * rd32 hdr 84 / 512) k with second | first
        · rw [show k = index * rd32 hdr 84 / 512 + 1 by omega, read1] at none
          cases none
        · rw [show k = index * rd32 hdr 84 / 512 by omega, read0] at none
          cases none
  · have last : (index * rd32 hdr 84 + rd32 hdr 84 - 1) / 512 = index * rd32 hdr 84 / 512 := by
      omega
    have some_ : 0 < rd32 hdr 84 := by omega
    rw [last]
    simp only [fsReadGptEntry_within range short within, isEntry_within some_ within]
    constructor
    · intro only
      by_contra wide
      obtain ⟨wide, reads⟩ := not_or.1 wide
      obtain ⟨sec, read⟩ := Option.ne_none_iff_exists'.1 fun none =>
        reads ⟨_, Nat.le_refl _, Nat.le_refl _, none⟩
      obtain ⟨_, sector, _⟩ := only _ ⟨sec, read, rfl⟩
      exact wide (arraySector_read sector).1
    · rintro (narrow | ⟨k, low, high, none⟩) ent ⟨sec, read, eq⟩
      · exact ⟨sec, arraySector_of_read narrow read, eq⟩
      · rw [show k = index * rd32 hdr 84 / 512 by omega, read] at none
        cases none

end Reading

section Passing

variable {dev : BlockDev} {hdr : Bytes}

/-- A search that goes on as long as `A` holds, by its first step. -/
theorem exists_before_succ {A B : Nat → Prop} {n i : Nat} :
    (∃ j, j < n + 1 ∧ (∀ before < j, A (i + before)) ∧ B (i + j)) ↔
      B i ∨ A i ∧ ∃ j, j < n ∧ (∀ before < j, A (i + 1 + before)) ∧ B (i + 1 + j) := by
  constructor
  · rintro ⟨j, lt, before, here⟩
    cases j with
    | zero => exact .inl here
    | succ j =>
        refine .inr ⟨before 0 (Nat.succ_pos j), j, by omega, fun b less => ?_, ?_⟩
        · rw [show i + 1 + b = i + (b + 1) by omega]
          exact before (b + 1) (by omega)
        · rwa [show i + 1 + j = i + (j + 1) by omega]
  · rintro (here | ⟨first, j, lt, before, here⟩)
    · exact ⟨0, Nat.succ_pos n, fun b less => absurd less (Nat.not_lt_zero b), here⟩
    · refine ⟨j + 1, by omega, fun b less => ?_, ?_⟩
      · cases b with
        | zero => exact first
        | succ b =>
            rw [show i + (b + 1) = i + 1 + b by omega]
            exact before b (by omega)
      · rwa [show i + (j + 1) = i + 1 + j by omega]

/-- The partitions described come from the entries up to the first that is not read. -/
theorem mem_gptExtents {e : Extent} {n i : Nat} : e ∈ gptExtents dev hdr n i ↔
    ∃ j, j < n ∧ (∀ before < j, ∃ ent, fsReadGptEntry dev hdr (i + before) = some ent) ∧
      ∃ ent, fsReadGptEntry dev hdr (i + j) = some ent ∧ fsGuidIsZero ent = false ∧
        rd64 ent 32 ≠ 0 ∧ rd64 ent 32 ≤ rd64 ent 40 ∧
        e = ⟨rd64 ent 32, rd64 ent 40 - rd64 ent 32 + 1, fsGptTypeToMbrCompat ent⟩ := by
  induction n generalizing i with
  | zero => simp [gptExtents]
  | succ n ih =>
      rw [exists_before_succ (A := fun k => ∃ ent, fsReadGptEntry dev hdr k = some ent)
        (B := fun k => ∃ ent, fsReadGptEntry dev hdr k = some ent ∧ fsGuidIsZero ent = false ∧
          rd64 ent 32 ≠ 0 ∧ rd64 ent 32 ≤ rd64 ent 40 ∧
          e = ⟨rd64 ent 32, rd64 ent 40 - rd64 ent 32 + 1, fsGptTypeToMbrCompat ent⟩), ← ih,
        gptExtents]
      cases found : fsReadGptEntry dev hdr i with
      | none => simp
      | some ent =>
          dsimp only
          split
          next passed =>
            refine ⟨fun mem => .inr ⟨⟨ent, rfl⟩, mem⟩, ?_⟩
            rintro (⟨ent', same, type, first, ordered, -⟩ | ⟨-, mem⟩)
            · obtain rfl := Option.some.inj same
              exact absurd passed (by simp [type, first, ordered])
            · exact mem
          next used =>
            simp only [not_or, Bool.not_eq_true, not_lt] at used
            rw [List.mem_cons]
            constructor
            · rintro (here | mem)
              · exact .inl ⟨ent, rfl, used.1, used.2.1, used.2.2, here⟩
              · exact .inr ⟨⟨ent, rfl⟩, mem⟩
            · rintro (⟨ent', same, -, -, -, here⟩ | ⟨-, mem⟩)
              · obtain rfl := Option.some.inj same
                exact .inl here
              · exact .inr mem

/-- The loops stay inside the drive if no end wraps to 0. -/
theorem passedInside_iff (dev : BlockDev) (hdr : Bytes) : PassedInside dev hdr ↔
    ∀ e ∈ gptExtents dev hdr (min (rd32 hdr 80) 256) 0,
      e.start + e.length ≠ 18446744073709551616 := by
  have agree : (∀ e ∈ (gptExtents dev hdr (min (rd32 hdr 80) 256) 0).filter fun e =>
      wrap64 (e.start + e.length) ≤ dev.sectors, e.Fits dev) ↔
        ∀ e ∈ gptExtents dev hdr (min (rd32 hdr 80) 256) 0,
          e.start + e.length ≠ 18446744073709551616 :=
    gpt_agree_iff fun e mem => (gptExtents_bound mem).2
  rw [← agree]
  have starts : ∀ e ∈ (gptExtents dev hdr (min (rd32 hdr 80) 256) 0).filter fun e =>
      wrap64 (e.start + e.length) ≤ dev.sectors, 1 ≤ e.start := fun e mem =>
    (gptExtents_bound (List.mem_filter.1 mem).1).1
  unfold PassedInside
  constructor
  · rintro ⟨probed, -⟩ e mem
    rw [← probeGpt_extents] at mem
    obtain ⟨m, memM, rfl⟩ := List.mem_map.1 mem
    exact (probed m memM).2
  · intro inside
    refine ⟨fun m mem => ?_, fun p mem => ?_⟩
    · have kept : m.extent ∈ (gptExtents dev hdr (min (rd32 hdr 80) 256) 0).filter fun e =>
          wrap64 (e.start + e.length) ≤ dev.sectors := by
        rw [← probeGpt_extents]
        exact List.mem_map_of_mem mem
      exact ⟨starts _ kept, inside _ kept⟩
    · have kept : p.extent ∈ (gptExtents dev hdr (min (rd32 hdr 80) 256) 0).filter fun e =>
          wrap64 (e.start + e.length) ≤ dev.sectors := by
        rw [← listGpt_extents]
        exact List.mem_map_of_mem mem
      exact ⟨starts _ kept, inside _ kept⟩

/-- Where the entries are exact, the ends that wrap are those of endless entries. -/
theorem noEndlessEntry_iff (exact_ : EntriesExact dev hdr) : NoEndlessEntry dev hdr ↔
    ∀ e ∈ gptExtents dev hdr (min (rd32 hdr 80) 256) 0,
      e.start + e.length ≠ 18446744073709551616 := by
  have entry : ∀ i < 256, ∀ ent, fsReadGptEntry dev hdr i = some ent ↔ IsEntry dev hdr i ent := by
    intro i lt ent
    have same := exact_ (UInt32.ofNat i) ent
    rwa [UInt32.toNat_ofNat', Nat.mod_eq_of_lt (by omega)] at same
  unfold NoEndlessEntry
  constructor
  · intro none e mem wraps
    obtain ⟨j, lt, before, ent, here, type, first, ordered, rfl⟩ := mem_gptExtents.1 mem
    rw [Nat.zero_add] at here
    refine none j lt (fun b less => ?_) ent ((entry j (by omega) ent).1 here) type first ?_
    · obtain ⟨ent', there⟩ := before b less
      rw [Nat.zero_add] at there
      exact ⟨ent', (entry b (by omega) ent').1 there⟩
    · dsimp only at wraps
      omega
  · intro none i lt before ent here type first last
    have low := rd64_lt ent 32
    refine none ⟨rd64 ent 32, rd64 ent 40 - rd64 ent 32 + 1, fsGptTypeToMbrCompat ent⟩
      (mem_gptExtents.2 ⟨i, lt, fun b less => ?_, ent, ?_, type, first, by omega, rfl⟩)
      (by dsimp only; omega)
    · obtain ⟨ent', there⟩ := before b less
      rw [Nat.zero_add]
      exact ⟨ent', (entry b (by omega) ent').2 there⟩
    · rw [Nat.zero_add]
      exact (entry i (by omega) ent).2 here

end Passing

/-- **The entries read are the entries of the array, and what is passed on lies inside the drive,
exactly if no number of a sector is cut and no entry ends at sector `2 ^ 64 - 1`.** -/
theorem gpt_entries_iff (dev : BlockDev) (hdr : Bytes)
    (range : 128 ≤ rd32 hdr 84 ∧ rd32 hdr 84 ≤ 512) :
    (EntriesExact dev hdr ∧ PassedInside dev hdr) ↔
      (∀ index : UInt32, NumbersSuffice dev hdr index.toNat) ∧ NoEndlessEntry dev hdr := by
  have exact_ : EntriesExact dev hdr ↔ ∀ index : UInt32, NumbersSuffice dev hdr index.toNat :=
    forall_congr' fun index => fsReadGptEntry_iff range index.toNat_lt
  constructor
  · rintro ⟨entries, inside⟩
    exact ⟨exact_.1 entries, (noEndlessEntry_iff entries).2 ((passedInside_iff dev hdr).1 inside)⟩
  · rintro ⟨suffice, ends⟩
    have entries := exact_.2 suffice
    exact ⟨entries, (passedInside_iff dev hdr).2 ((noEndlessEntry_iff entries).1 ends)⟩

/-- A drive of 100 sectors with one GPT entry, in sector 2, from sector 1 to the given one. -/
def oneEntryDrive (last : List (Nat × UInt8)) : BlockDev where
  present := true
  isAtapi := false
  sectors := 100
  read lba := if lba = 2 then some (sectorOf ((0, 1) :: (32, 1) :: last)) else none
  inWidth := by decide

/-- Its header. -/
def oneEntryHeader : Bytes := sectorOf [(12, 92), (72, 2), (80, 1), (84, 128)]

/-- An entry that ends at sector 9 is passed on as it is. -/
theorem gpt_entries_nine : EntriesExact (oneEntryDrive [(40, 9)]) oneEntryHeader ∧
    PassedInside (oneEntryDrive [(40, 9)]) oneEntryHeader := by
  refine (gpt_entries_iff _ oneEntryHeader (by decide)).2 ⟨fun index => .inl ?_, ?_⟩
  · have size : rd32 oneEntryHeader 84 = 128 := by decide
    have place : rd64 oneEntryHeader 72 = 2 := by decide
    have short := index.toNat_lt
    rw [size, place]
    omega
  · intro i lt before ent here type first
    obtain rfl : i = 0 := by
      have one : min (rd32 oneEntryHeader 80) 256 = 1 := by decide
      omega
    have last : (fsReadGptEntry (oneEntryDrive [(40, 9)]) oneEntryHeader 0).map
        (fun ent => rd64 ent 40) = some 9 := by decide
    rw [here.read (by decide) (by decide), Option.map_some] at last
    rw [Option.some.inj last]
    decide

/-- An entry that ends at sector `2 ^ 64 - 1` is passed on. -/
theorem endless_entry_passed : ¬ ∀ (dev : BlockDev) (hdr : Bytes),
    128 ≤ rd32 hdr 84 ∧ rd32 hdr 84 ≤ 512 → EntriesExact dev hdr ∧ PassedInside dev hdr := by
  intro always
  have inside := (always (oneEntryDrive ((List.range 8).map fun i => (40 + i, 0xFF)))
    oneEntryHeader (by decide)).2
  have probed : probeGpt (oneEntryDrive ((List.range 8).map fun i => (40 + i, 0xFF)))
      oneEntryHeader 100 (min (rd32 oneEntryHeader 80) 256) 0 =
        [⟨1, 18446744073709551615, 0xEF, 1⟩] := by decide
  have ends := (inside.1 ⟨1, 18446744073709551615, 0xEF, 1⟩ (by
    show _ ∈ probeGpt _ _ 100 _ _
    rw [probed]
    exact List.mem_singleton_self _)).2
  exact absurd ends (by decide)

end NTux.Fs
