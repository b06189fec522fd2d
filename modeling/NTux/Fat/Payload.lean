import NTux.Fat.Corrupted

/-!
# Writing the bytes of a file

`fat_write_file_payload` and `fat_write_file_payload_reader` of `fs/fat.c`: the clusters of the
file are allocated and linked one after another, a failed allocation is rolled back by
`fat_free_chain`, and then the bytes are written.  A transfer that fails also ends either
function with an error; the partition it leaves is not followed up (`Payload.broken`).

The table is seen as the function `tableOf` from clusters to entries.
-/

namespace NTux.Fat.Disk

open NTux.Fs NTux.Lib NTux.Lib.Bytes

/-! ## The source -/

/-- The loop of `fat_free_chain`; `none` where a transfer fails or the fuel is out. -/
def fatFreeLoop (fs : FatFs) : Nat → FatVolume → Nat → Option FatVolume
  | 0, _, _ => none
  | fuel + 1, v, c =>
      if c < 2 then some v
      else
        (fatReadFatEntry fs v c).bind fun next =>
          (fatWriteFatEntry fs v c 0).bind fun v =>
            if fatIsEoc fs next then some v
            else if next < 2 ∨ fatMaxValidCluster fs < next then some v
            else fatFreeLoop fs fuel v next

/-- `fat_free_chain`.  Every round clears an entry, and ends at an entry that is clear. -/
def fatFreeChain (fs : FatFs) (v : FatVolume) (first : Nat) : Option FatVolume :=
  fatFreeLoop fs (fatMaxValidCluster fs + 2) v first

/-- How the allocation of the clusters ends: with an allocation that fails, or with all of
them. -/
inductive Linking
  | failed (allocated : List Nat) (st : FatState)
  | linked (allocated : List Nat) (st : FatState)

/-- The loop of the allocation, with the clusters allocated so far: the first is `first` and
the last `prev`.  `none` where a link cannot be written. -/
def linkClusters (fs : FatFs) : Nat → FatState → List Nat → Option Linking
  | 0, st, allocated => some (.linked allocated st)
  | n + 1, st, allocated =>
      match fatAllocCluster fs st false with
      | none => some (.failed allocated st)
      | some (c, st) =>
          let prev := allocated.getLastD 0
          if 2 ≤ prev then
            (fatWriteFatEntry fs st.vol prev c).bind fun v =>
              linkClusters fs n ⟨v, st.nextFree⟩ (allocated ++ [c])
          else linkClusters fs n st (allocated ++ [c])

/-- How the bytes are written: to the end, not at all since the reader fails, or not since a
transfer fails. -/
inductive Written
  | all (v : FatVolume)
  | unread (v : FatVolume)
  | broken

/-- The loop that writes the bytes.  The sectors come in pieces, each filled by one call of the
reader and padded with zeroes. -/
def writeChunks (reader : Nat → Nat → Option (List UInt8)) (v : FatVolume) :
    List (List Nat) → Nat → Nat → Written
  | [], _, _ => .all v
  | sectors :: rest, off, remaining =>
      let want := min remaining (sectors.length * ataSectorSize)
      match if 0 < want then reader off want else some [] with
      | none => .unread v
      | some bytes =>
          match writeSectors v sectors bytes with
          | none => .broken
          | some v => writeChunks reader v rest (off + want) (remaining - want)

/-- What a function that writes the bytes of a file comes to: its first cluster, an error, or an
error since a transfer has failed. -/
inductive Payload
  | wrote (first : Nat) (st : FatState)
  | failed (st : FatState)
  | broken

/-- The chain is freed, and the function fails. -/
def rollBack (fs : FatFs) (st : FatState) (first : Nat) : Payload :=
  match if 2 ≤ first then fatFreeChain fs st.vol first else some st.vol with
  | none => .broken
  | some v => .failed ⟨v, st.nextFree⟩

/-- `needed`: the sum is one of 64 bits, and the quotient is stored in 32. -/
def clustersNeeded (fs : FatFs) (len : Nat) : Nat :=
  u32 ((len + perCluster fs - 1) % 2 ^ 64 / perCluster fs)

/-- What both functions do behind their first checks; `array` says whether the array of the
clusters is got from `kmalloc`, and `chunks` how the sectors of the clusters are written. -/
def fatWriteChain (fs : FatFs) (st : FatState) (array : Bool) (len : Nat)
    (reader : Nat → Nat → Option (List UInt8)) (chunks : List Nat → List (List Nat)) : Payload :=
  if !array then .failed st
  else
    match linkClusters fs (clustersNeeded fs len) st [] with
    | none => .broken
    | some (.failed allocated st) => rollBack fs st (allocated.headD 0)
    | some (.linked allocated st) =>
        let prev := allocated.getLastD 0
        match if 2 ≤ prev then fatWriteFatEntry fs st.vol prev (fatEocValue fs)
          else some st.vol with
        | none => .broken
        | some v =>
            match writeChunks reader v (chunks allocated) 0 len with
            | .all v => .wrote (allocated.headD 0) ⟨v, st.nextFree⟩
            | .unread v => rollBack fs ⟨v, st.nextFree⟩ (allocated.headD 0)
            | .broken => .broken

/-- A cluster at a time. -/
def clusterChunks (fs : FatFs) (allocated : List Nat) : List (List Nat) :=
  allocated.map (clusterSectors fs)

/-- A sector at a time, for want of memory for a cluster. -/
def sectorChunks (fs : FatFs) (allocated : List Nat) : List (List Nat) :=
  (allocated.flatMap (clusterSectors fs)).map fun sector => [sector]

/-- `fat_write_file_payload`; `buffered` says whether a buffer of a cluster is got. -/
def fatWriteFilePayload (fs : FatFs) (st : FatState) (array buffered : Bool)
    (data : List UInt8) : Payload :=
  if data.length = 0 then .wrote 0 st
  else fatWriteChain fs st array data.length (fun off want => some ((data.drop off).take want))
    (if buffered then clusterChunks fs else sectorChunks fs)

/-- `fat_write_file_payload_reader`. -/
def fatWriteFilePayloadReader (fs : FatFs) (st : FatState) (array buffered : Bool) (len : Nat)
    (reader : Option (Nat → Nat → Option (List UInt8))) : Payload :=
  if len = 0 then .wrote 0 st
  else
    match reader with
    | none => .failed st
    | some reader => fatWriteChain fs st array len reader
        (if buffered then clusterChunks fs else sectorChunks fs)

/-! ## The table as a function -/

/-- The entries as they are read. -/
def tableOf (fs : FatFs) (v : FatVolume) (c : Nat) : Nat := (fatReadFatEntry fs v c).getD 0

/-- Every entry is stored, and the drive transfers every sector. -/
structure Steady (fs : FatFs) (v : FatVolume) : Prop where
  stores : ∀ c < fatFatEntryCount fs, StoresEntry fs c
  responds : ∀ s, v.responds s = true

section Table

variable {fs : FatFs} {v : FatVolume} {c : Nat}

theorem Steady.read (steady : Steady fs v) (c : Nat) :
    fatReadFatEntry fs v c = some (tableOf fs v c) := by
  obtain ⟨value, read⟩ := fatReadFatEntry_total steady.responds fs c
  rw [tableOf, read, Option.getD_some]

/-- A write changes the table at its cluster only. -/
theorem Steady.write (steady : Steady fs v) (inTable : c < fatFatEntryCount fs) (value : Nat) :
    ∃ v', fatWriteFatEntry fs v c value = some v' ∧ Steady fs v' ∧
      ∀ d < fatFatEntryCount fs,
        tableOf fs v' d = if d = c then fs.type.masked value else tableOf fs v d := by
  obtain ⟨v', done, all⟩ := fatWriteFatEntry_total fs steady.responds c value
  have stored := steady.stores c inTable v v' value done
  refine ⟨v', done, ⟨steady.stores, all⟩, fun d dIn => ?_⟩
  split
  next same =>
    rw [same, tableOf, stored.readsBack, Option.getD_some]
  next other =>
    rw [tableOf, stored.others d other dIn, tableOf]

/-- What is read fits in an entry. -/
theorem masked_of_read {value : Nat} (read : fatReadFatEntry fs v c = some value) :
    fs.type.masked value = value := by
  unfold fatReadFatEntry at read
  rcases fs.type.cases with type | type | type
  · simp only [type, Option.bind_eq_some_iff, Option.map_eq_some_iff] at read
    obtain ⟨sec, -, b1, -, rfl⟩ := read
    have low := (sec (u32 (c + c / 2) % fs.bytesPerSector)).toNat_lt
    have high := b1.toNat_lt
    rw [type]
    unfold FatType.masked half
    dsimp only
    split <;> omega
  · simp only [type, Option.map_eq_some_iff] at read
    obtain ⟨sec, -, rfl⟩ := read
    rw [type]
    exact Nat.mod_eq_of_lt rd16_lt
  · simp only [type, Option.map_eq_some_iff] at read
    obtain ⟨sec, -, rfl⟩ := read
    rw [type]
    exact Nat.mod_mod ..

theorem maxValidCluster_lt (some_ : 2 ≤ fatMaxValidCluster fs) :
    fatMaxValidCluster fs < fatFatEntryCount fs := by
  unfold fatMaxValidCluster at some_ ⊢
  split at some_
  · omega
  next entries =>
    rw [if_neg entries]
    omega

end Table

end NTux.Fat.Disk
