import NTux.Fat.MountGeometry
import NTux.Fat.Rollback
import NTux.Fat.Writes

/-!
# Writes to the table

Where the entry of a cluster is stored, and where `fat_free_chain` stores.  Every successor is
looked at before the loop goes on, and its entry lies in the table; the first cluster is taken
as it is, and the entry of one behind the last cluster is where the sum of 32 bits happens to
lead (`freeChain_tables_iff`).  Whatever the table holds, the loop ends: an entry that has been
cleared is not followed again (`freeChain_proper`).
-/

namespace NTux.Fat.Disk

open NTux.Fs NTux.Lib NTux.Lib.Bytes NTux.Lib.Logged

/-! ## The sectors -/

/-- A sector of a copy of the table. -/
def InTables (fs : FatFs) (sector : Nat) : Prop :=
  fs.firstFatSector ≤ sector ∧ sector < fs.firstFatSector + fs.fatCount * fs.sectorsPerFat

/-- The drive transfers the sectors of an entry in a copy. -/
def Transfers (fs : FatFs) (v : FatVolume) (cluster fi : Nat) : Prop :=
  ∀ sector ∈ entrySectors fs fi cluster, v.responds sector = true

/-- In every copy that the code comes to, the sectors of the entry are sectors of the table. -/
def EntryInTables (fs : FatFs) (v : FatVolume) (cluster : Nat) : Prop :=
  ∀ fi < fs.fatCount, (∀ fj ≤ fi, Transfers fs v cluster fj) →
    ∀ sector ∈ entrySectors fs fi cluster, InTables fs sector

/-- The sectors that are not logged stay as they are. -/
def LogsStores {α : Type} (x : Writing α) : Prop :=
  ∀ st sector, FatEvent.stored sector ∉ (x st).log →
    (x st).state.vol.sectors sector = st.vol.sectors sector

/-- What every function here is like: it ends, and logs what it stores. -/
structure Proper {α : Type} (x : Writing α) : Prop where
  ends : Avoids .endless x
  logs : LogsStores x

/-- Only sectors of the table are stored. -/
abbrev TablesOnly {α : Type} (fs : FatFs) (x : Writing α) : Prop :=
  Within (fun | .stored sector => InTables fs sector | .allocated _ => True) x

/-! ## Logs and failures -/

section Rules

variable {α β : Type} {x : Writing α}

theorem LogsStores.andThen {y : Except Fault α → Writing β} (first : LogsStores x)
    (second : ∀ r, LogsStores (y r)) : LogsStores (andThen x y) := by
  intro st sector out
  rw [log_andThen, List.mem_append, not_or] at out
  exact (second _ _ sector out.2).trans (first st sector out.1)

theorem logsStores_fail (e : Fault) : LogsStores (fail e : Writing α) := fun _ _ _ => rfl

theorem LogsStores.bind {f : α → Writing β} (first : LogsStores x)
    (second : ∀ a, LogsStores (f a)) : LogsStores (x >>= f) :=
  first.andThen fun r => by
    cases r with
    | ok a => exact second a
    | error e => exact logsStores_fail e

theorem Proper.andThen {y : Except Fault α → Writing β} (first : Proper x)
    (second : ∀ r, r ≠ .error .endless → Proper (y r)) : Proper (andThen x y) := by
  refine ⟨Avoids.andThen first.ends fun r ne => (second r ne).ends, fun st sector out => ?_⟩
  rw [log_andThen, List.mem_append, not_or] at out
  exact ((second _ (first.ends st)).logs _ sector out.2).trans (first.logs st sector out.1)

theorem Proper.pure (a : α) : Proper (pure a : Writing α) := ⟨avoids_pure a, fun _ _ _ => rfl⟩

theorem Proper.failed : Proper (fail .failed : Writing α) :=
  ⟨fun _ same => (nomatch same), fun _ _ _ => rfl⟩

theorem Proper.bind {f : α → Writing β} (first : Proper x) (second : ∀ a, Proper (f a)) :
    Proper (x >>= f) :=
  first.andThen fun r ne => by
    cases r with
    | ok a => exact second a
    | error e =>
        cases e with
        | failed => exact Proper.failed
        | endless => exact absurd rfl ne

theorem Proper.query {f : FatState → Except Fault α} (ends : ∀ st, f st ≠ .error .endless) :
    Proper (query f) := ⟨ends, fun _ _ _ => rfl⟩

theorem Proper.ask (f : FatState → α) : Proper (Logged.query fun st => .ok (f st)) :=
  Proper.query fun _ => nofun

theorem orFailed_ne (o : Option α) : orFailed o ≠ .error .endless := by
  cases o <;> simp [orFailed]

theorem Proper.ite {c : Prop} [Decidable c] {y : Writing α} (first : c → Proper x)
    (second : ¬ c → Proper y) : Proper (if c then x else y) := by
  split
  next holds => exact first holds
  next fails => exact second fails

theorem Proper.ignored (proper : Proper x) : Proper (ignored x) :=
  proper.andThen fun r ne => by
    rcases r with (_ | _) | _
    · exact Proper.pure _
    · exact absurd rfl ne
    · exact Proper.pure _

theorem Proper.undoing {undo : Writing Unit} (proper : Proper x) (back : Proper undo) :
    Proper (undoing x undo) :=
  proper.andThen fun r ne => by
    rcases r with (_ | _) | a
    · exact back.ignored.bind fun _ => Proper.failed
    · exact absurd rfl ne
    · exact Proper.pure a

variable {P : FatEvent → Prop}

theorem within_ignored (within : Within P x) : Within P (ignored x) :=
  within.andThen fun r => by
    rcases r with (_ | _) | _
    · exact within_pure _
    · exact within_fail _
    · exact within_pure _

theorem within_undoing {undo : Writing Unit} (within : Within P x) (back : Within P undo) :
    Within P (undoing x undo) :=
  within.andThen fun r => by
    rcases r with (_ | _) | a
    · exact (within_ignored back).bind fun _ => within_fail _
    · exact within_fail _
    · exact within_pure a

end Rules

/-! ## The entries of the table -/

section Table

variable {fs : FatFs} {v v' v₀ : FatVolume} {c value fi sector : Nat}

/-- The entry of a cluster that the table counts lies in the table, in every copy. -/
theorem entrySectors_inTables (sound : fs.Sound)
    (below : fs.firstFatSector + fs.fatCount * fs.sectorsPerFat < 4294967296)
    (inTable : c < fatFatEntryCount fs) (lt : fi < fs.fatCount)
    (mem : sector ∈ entrySectors fs fi c) : InTables fs sector := by
  obtain ⟨exact_, -, wraps⟩ := sector_eq sound inTable fi
  have bound := (offset_bound sound inTable).1
  have steps : (fi + 1) * fs.sectorsPerFat ≤ fs.fatCount * fs.sectorsPerFat :=
    Nat.mul_le_mul_right _ lt
  rw [Nat.add_mul, Nat.one_mul] at steps
  unfold entrySectors at mem
  dsimp only at mem
  rw [exact_, wraps] at mem
  rw [sound.sectorSize] at mem
  unfold InTables
  have width : fs.type = .fat12 → fs.type.width = 2 := fun type => type ▸ rfl
  have some_ : 0 < fs.type.width := by cases fs.type <;> decide
  generalize fi * fs.sectorsPerFat = a at mem steps
  generalize fs.fatCount * fs.sectorsPerFat = b at below steps ⊢
  generalize fs.type.offset c = off at mem bound
  have whole : u32 (fs.firstFatSector + a + off / ataSectorSize) =
      fs.firstFatSector + a + off / ataSectorSize := by
    unfold u32
    unfold ataSectorSize at *
    omega
  rw [whole] at mem
  unfold ataSectorSize at *
  split at mem
  next straddles =>
    have two := width straddles.1
    have next : u32 (fs.firstFatSector + a + off / 512 + 1) =
        fs.firstFatSector + a + off / 512 + 1 := by
      unfold u32
      omega
    rw [next] at mem
    simp only [List.mem_cons, List.not_mem_nil, or_false] at mem
    omega
  next =>
    obtain rfl := List.mem_singleton.1 mem
    omega

theorem fatWriteSector_isSome (v : FatVolume) (s : Nat) (buf : Bytes) :
    (fatWriteSector v s buf).isSome = v.responds s := by
  unfold fatWriteSector
  split
  next yes => rw [yes]; rfl
  next no => rw [Bool.eq_false_iff.2 no]; rfl

theorem fatReadSector_of {s : Nat} (responds : v.responds s = true) :
    fatReadSector v s = some (v.sectors s) := if_pos responds

theorem fatReadSector_none {s : Nat} (silent : ¬ v.responds s = true) :
    fatReadSector v s = none := if_neg silent

/-- A copy of an entry is written exactly if the drive transfers its sectors, and only they are
stored. -/
theorem fatWriteCopy_isSome (fs : FatFs) (v : FatVolume) (fi c value : Nat) :
    (fatWriteCopy fs v fi c value).isSome = true ↔ Transfers fs v c fi := by
  have one : ∀ s (f : Bytes → Bytes),
      ((fatReadSector v s).bind fun sec => fatWriteSector v s (f sec)).isSome = true ↔
        ∀ sector ∈ [s], v.responds sector = true := by
    intro s f
    rw [List.forall_mem_singleton]
    by_cases responds : v.responds s = true
    · rw [fatReadSector_of responds, Option.bind_some, fatWriteSector_isSome]
    · rw [fatReadSector_none responds]
      exact iff_of_false (by simp) responds
  unfold fatWriteCopy Transfers entrySectors
  rcases fs.type.cases with type | type | type
  · simp only [type, FatType.offset, true_and]
    unfold fatWriteFat12Single
    dsimp only
    generalize u32 (u32 (fs.firstFatSector + u32 (fi * fs.sectorsPerFat)) +
      u32 (c + c / 2) / fs.bytesPerSector) = s
    split
    · simp only [List.forall_mem_cons, List.not_mem_nil, false_implies, implies_true, and_true]
      by_cases first : v.responds s = true
      · by_cases second : v.responds (u32 (s + 1)) = true
        · rw [fatReadSector_of first, Option.bind_some, fatReadSector_of second,
            Option.bind_some]
          refine iff_of_true ?_ ⟨first, second⟩
          unfold fatWriteSector
          rw [if_pos first, Option.bind_some]
          exact (congrArg Option.isSome (if_pos second)).trans rfl
        · rw [fatReadSector_of first, Option.bind_some, fatReadSector_none second]
          exact iff_of_false (by simp) fun both => second both.2
      · rw [fatReadSector_none first]
        exact iff_of_false (by simp) fun both => first both.1
    · exact one s _
  · simp only [type, FatType.offset, reduceCtorEq, false_and, if_false]
    exact one _ _
  · simp only [type, FatType.offset, reduceCtorEq, false_and, if_false]
    exact one _ _

theorem fatWriteSector_others {s : Nat} {buf : Bytes} (done : fatWriteSector v s buf = some v')
    (ne : sector ≠ s) : v'.sectors sector = v.sectors sector := by
  rw [(fatWriteSector_flat done).2.2.1, Function.update_of_ne ne]

theorem fatWriteCopy_others (done : fatWriteCopy fs v fi c value = some v')
    (out : sector ∉ entrySectors fs fi c) : v'.sectors sector = v.sectors sector := by
  unfold fatWriteCopy at done
  unfold entrySectors at out
  rcases fs.type.cases with type | type | type
  · simp only [type, FatType.offset, true_and] at done out
    unfold fatWriteFat12Single at done
    dsimp only at done
    obtain ⟨s0, -, done⟩ := Option.bind_eq_some_iff.1 done
    split at done
    next straddles =>
      rw [if_pos straddles] at out
      obtain ⟨s1, -, done⟩ := Option.bind_eq_some_iff.1 done
      obtain ⟨mid, first, second⟩ := Option.bind_eq_some_iff.1 done
      simp only [List.mem_cons, List.not_mem_nil, or_false, not_or] at out
      exact (fatWriteSector_others second out.2).trans (fatWriteSector_others first out.1)
    next whole =>
      rw [if_neg whole] at out
      exact fatWriteSector_others done fun same => out (List.mem_singleton.2 same)
  · simp only [type, FatType.offset, reduceCtorEq, false_and, if_false] at done out
    obtain ⟨sec, -, done⟩ := Option.bind_eq_some_iff.1 done
    exact fatWriteSector_others done fun same => out (List.mem_singleton.2 same)
  · simp only [type, FatType.offset, reduceCtorEq, false_and, if_false] at done out
    obtain ⟨sec, -, done⟩ := Option.bind_eq_some_iff.1 done
    exact fatWriteSector_others done fun same => out (List.mem_singleton.2 same)

/-- An entry is read exactly if the drive transfers its sectors in the first copy. -/
theorem fatReadFatEntry_isSome (sound : fs.Sound) (v : FatVolume) (c : Nat) :
    (fatReadFatEntry fs v c).isSome = true ↔ Transfers fs v c 0 := by
  have low := sound.firstFat
  have base : u32 (fs.firstFatSector + u32 (0 * fs.sectorsPerFat)) = fs.firstFatSector := by
    rw [Nat.zero_mul]
    unfold u32
    omega
  have one : ∀ s (f : Bytes → Nat), ((fatReadSector v s).map f).isSome = true ↔
      ∀ sector ∈ [s], v.responds sector = true := by
    intro s f
    rw [List.forall_mem_singleton, Option.isSome_map]
    unfold fatReadSector
    split
    next yes => exact iff_of_true rfl yes
    next no => exact iff_of_false (by simp) no
  unfold fatReadFatEntry Transfers entrySectors
  rw [base]
  rcases fs.type.cases with type | type | type
  · simp only [type, FatType.offset, true_and]
    generalize u32 (fs.firstFatSector + u32 (c + c / 2) / fs.bytesPerSector) = s
    by_cases first : v.responds s = true
    · rw [fatReadSector_of first, Option.bind_some]
      split
      · simp only [List.forall_mem_cons, List.not_mem_nil, false_implies, implies_true, and_true,
          Option.isSome_map, first, true_and]
        have second := one (u32 (s + 1)) fun _ => 0
        rwa [List.forall_mem_singleton, Option.isSome_map] at second
      · rw [List.forall_mem_singleton]
        exact iff_of_true rfl first
    · rw [fatReadSector_none first]
      refine iff_of_false (by simp) fun all => first (all s ?_)
      split
      · exact List.mem_cons_self
      · exact List.mem_cons_self
  · simp only [type, FatType.offset, reduceCtorEq, false_and, if_false]
    exact one _ _
  · simp only [type, FatType.offset, reduceCtorEq, false_and, if_false]
    exact one _ _

end Table

/-! ## Writing an entry -/

section Entry

variable {fs : FatFs} {st : FatState} {c value fi k n sector : Nat}

theorem writeCopy_of_transfers (value : Nat) (transfers : Transfers fs st.vol c fi) :
    ∃ v, fatWriteCopy fs st.vol fi c value = some v ∧ v.responds = st.vol.responds ∧
      writeCopy fs c value fi st =
        ⟨.ok (), ⟨v, st.nextFree⟩, (entrySectors fs fi c).map .stored⟩ := by
  obtain ⟨v, done⟩ := Option.isSome_iff_exists.1
    ((fatWriteCopy_isSome fs st.vol fi c value).2 transfers)
  refine ⟨v, done, (fatWriteCopy_low done).1, ?_⟩
  unfold writeCopy
  rw [done]

theorem writeCopy_of_not (value : Nat) (silent : ¬ Transfers fs st.vol c fi) :
    writeCopy fs c value fi st = ⟨.error .failed, st, []⟩ := by
  have none : fatWriteCopy fs st.vol fi c value = none := by
    rw [← Option.not_isSome_iff_eq_none, fatWriteCopy_isSome]
    exact silent
  unfold writeCopy
  rw [none]

theorem writeCopy_proper (fs : FatFs) (c value fi : Nat) : Proper (writeCopy fs c value fi) := by
  constructor
  · intro st
    by_cases transfers : Transfers fs st.vol c fi
    · obtain ⟨v, -, -, run⟩ := writeCopy_of_transfers value transfers
      rw [run]
      exact nofun
    · rw [writeCopy_of_not value transfers]
      exact nofun
  · intro st sector out
    by_cases transfers : Transfers fs st.vol c fi
    · obtain ⟨v, done, -, run⟩ := writeCopy_of_transfers value transfers
      rw [run] at out ⊢
      exact fatWriteCopy_others done fun mem => out (List.mem_map_of_mem mem)
    · rw [writeCopy_of_not value transfers]

theorem writeCopies_proper (fs : FatFs) (c value : Nat) (fis : List Nat) :
    Proper (writeCopies fs c value fis) := by
  induction fis with
  | nil => exact Proper.pure ()
  | cons fi rest ih => exact (writeCopy_proper fs c value fi).bind fun _ => ih

theorem writeFatEntry_proper (fs : FatFs) (c value : Nat) : Proper (writeFatEntry fs c value) :=
  writeCopies_proper fs c value _

/-- Which sectors are stored: those of each copy up to the first that is not transferred. -/
theorem mem_log_writeCopies :
    FatEvent.stored sector ∈ (writeCopies fs c value (List.range' k n) st).log ↔
      ∃ fi, (k ≤ fi ∧ fi < k + n) ∧
        (∀ fj, k ≤ fj → fj ≤ fi → Transfers fs st.vol c fj) ∧ sector ∈ entrySectors fs fi c := by
  induction n generalizing k st with
  | zero =>
      refine iff_of_false List.not_mem_nil ?_
      rintro ⟨fi, range, -⟩
      omega
  | succ n ih =>
      rw [List.range'_succ]
      unfold writeCopies
      by_cases transfers : Transfers fs st.vol c k
      · obtain ⟨v, -, responds, run⟩ := writeCopy_of_transfers value transfers
        have same : ∀ fj, Transfers fs v c fj ↔ Transfers fs st.vol c fj := fun fj => by
          unfold Transfers
          rw [responds]
        rw [log_bind_ok (a := ()) (by rw [run]), List.mem_append, run, ih]
        simp only [same, List.mem_map, FatEvent.stored.injEq, exists_eq_right]
        constructor
        · rintro (here | ⟨fi, range, before, mem⟩)
          · refine ⟨k, ⟨Nat.le_refl _, by omega⟩, fun fj low high => ?_, here⟩
            obtain rfl := Nat.le_antisymm high low
            exact transfers
          · refine ⟨fi, by omega, fun fj low high => ?_, mem⟩
            rcases Nat.eq_or_lt_of_le low with rfl | lt
            · exact transfers
            · exact before fj lt high
        · rintro ⟨fi, range, before, mem⟩
          rcases Nat.eq_or_lt_of_le range.1 with rfl | lt
          · exact .inl mem
          · exact .inr ⟨fi, by omega, fun fj low high => before fj (by omega) high, mem⟩
      · have run := writeCopy_of_not value transfers
        rw [log_bind_error (e := .failed) (by rw [run]), run]
        refine iff_of_false List.not_mem_nil ?_
        rintro ⟨fi, range, before, -⟩
        exact transfers (before k (Nat.le_refl _) range.1)

theorem mem_log_writeFatEntry :
    FatEvent.stored sector ∈ (writeFatEntry fs c value st).log ↔
      ∃ fi < fs.fatCount, (∀ fj ≤ fi, Transfers fs st.vol c fj) ∧
        sector ∈ entrySectors fs fi c := by
  unfold writeFatEntry
  rw [List.range_eq_range', mem_log_writeCopies]
  constructor
  · rintro ⟨fi, range, before, mem⟩
    exact ⟨fi, by omega, fun fj le => before fj (Nat.zero_le _) le, mem⟩
  · rintro ⟨fi, lt, before, mem⟩
    exact ⟨fi, ⟨Nat.zero_le _, by omega⟩, fun fj _ le => before fj le, mem⟩

/-- Where it succeeds, it has done what the write of the whole entry does. -/
theorem writeCopies_ok {fis : List Nat} (ok : (writeCopies fs c value fis st).result = .ok ()) :
    fis.foldlM (fun v fi => fatWriteCopy fs v fi c value) st.vol =
      some (writeCopies fs c value fis st).state.vol := by
  induction fis generalizing st with
  | nil => rfl
  | cons fi rest ih =>
      unfold writeCopies at ok ⊢
      by_cases transfers : Transfers fs st.vol c fi
      · obtain ⟨v, done, -, run⟩ := writeCopy_of_transfers value transfers
        have first : (writeCopy fs c value fi st).result = .ok () := by rw [run]
        rw [result_bind_ok first] at ok
        rw [List.foldlM_cons, done, state_bind_ok first]
        rw [run] at ok ⊢
        exact ih ok
      · rw [result_bind_error (e := .failed) (by rw [writeCopy_of_not value transfers])] at ok
        cases ok

theorem writeFatEntry_ok (ok : (writeFatEntry fs c value st).result = .ok ()) :
    fatWriteFatEntry fs st.vol c value = some (writeFatEntry fs c value st).state.vol :=
  writeCopies_ok ok

end Entry

/-! ## Freeing a chain -/

section Free

variable {fs : FatFs} {st : FatState} {v₀ : FatVolume} {c fuel sector : Nat}

/-- A geometry on which every entry in the table is stored where it belongs. -/
structure Regular (fs : FatFs) : Prop where
  sound : fs.Sound
  below : fs.firstFatSector + fs.fatCount * fs.sectorsPerFat < 4294967296
  stores : ∀ c < fatFatEntryCount fs, StoresEntry fs c

theorem regular_of_consistent (mounted : fatFsMount v₀ = .ok fs) (consistent : Consistent fs) :
    Regular fs := by
  have sound := fatFsMount_sound mounted
  obtain ⟨first, -⟩ := fatFsMount_fields mounted
  have lt := consistent.dataStart_lt mounted
  have below : fs.firstFatSector + fs.fatCount * fs.sectorsPerFat < 4294967296 := by
    unfold dataStart at lt
    omega
  refine ⟨sound, below, fun c inTable => storesEntry_of_below sound inTable ?_⟩
  have inside := (copy_inside sound inTable (Nat.sub_one_lt_of_lt sound.copies)).2.2
  unfold Below
  exact Nat.le_trans inside (Nat.mul_le_mul_right _ (Nat.le_of_lt below))

theorem writeFatEntry_tables (regular : Regular fs) (inTable : c < fatFatEntryCount fs)
    (value : Nat) : TablesOnly fs (writeFatEntry fs c value) := by
  rintro st (sector | d) mem
  · obtain ⟨fi, lt, -, here⟩ := mem_log_writeFatEntry.1 mem
    exact entrySectors_inTables regular.sound regular.below inTable lt here
  · trivial

theorem query_tables {α : Type} (f : FatState → Except Fault α) : TablesOnly fs (query f) :=
  within_query f

/-- From a cluster in the table on only the table is written. -/
theorem freeLoop_tables (regular : Regular fs) (high : c ≤ fatMaxValidCluster fs) :
    TablesOnly fs (freeLoop fs fuel c) := by
  induction fuel generalizing c with
  | zero => exact within_fail _
  | succ fuel ih =>
      unfold freeLoop
      split
      · exact within_pure _
      next low =>
        have inTable := Nat.lt_of_le_of_lt high (maxValidCluster_lt (by omega))
        refine (query_tables _).bind fun next => ?_
        refine (writeFatEntry_tables regular inTable 0).bind fun _ => ?_
        split
        · exact within_pure _
        · split
          · exact within_pure _
          next inside => exact ih (by omega)

theorem freeLoop_logs (fs : FatFs) (fuel c : Nat) : LogsStores (freeLoop fs fuel c) := by
  induction fuel generalizing c with
  | zero => exact logsStores_fail _
  | succ fuel ih =>
      unfold freeLoop
      split
      · exact (Proper.pure ()).logs
      · refine LogsStores.bind (fun _ _ _ => rfl) fun next => ?_
        refine (writeFatEntry_proper fs c 0).logs.bind fun _ => ?_
        split
        · exact (Proper.pure ()).logs
        · split
          · exact (Proper.pure ()).logs
          · exact ih next

/-- One round: it fails, it is the last one, or it has cleared the entry it goes on from. -/
theorem freeLoop_round (low : 2 ≤ c) :
    (∀ fuel, (freeLoop fs (fuel + 1) c st).result = .error .failed) ∨
      (∀ fuel, (freeLoop fs (fuel + 1) c st).result = .ok ()) ∨
      ∃ next st₁, fatReadFatEntry fs st.vol c = some next ∧
        fatWriteFatEntry fs st.vol c 0 = some st₁.vol ∧
        (2 ≤ next ∧ next ≤ fatMaxValidCluster fs) ∧
        ∀ fuel, (freeLoop fs (fuel + 1) c st).result = (freeLoop fs fuel next st₁).result := by
  have unfolded : ∀ fuel, freeLoop fs (fuel + 1) c = (query fun st =>
      orFailed (fatReadFatEntry fs st.vol c)) >>= fun next => writeFatEntry fs c 0 >>= fun _ =>
        if fatIsEoc fs next then pure ()
        else if next < 2 ∨ fatMaxValidCluster fs < next then pure ()
        else freeLoop fs fuel next := fun fuel => by
    rw [freeLoop, if_neg (Nat.not_lt.2 low)]
  cases read : fatReadFatEntry fs st.vol c with
  | none =>
      refine .inl fun fuel => ?_
      rw [unfolded, query_bind_error (s := st) (congrArg orFailed read)]
  | some next =>
      have unfolded : ∀ fuel, freeLoop fs (fuel + 1) c st = (writeFatEntry fs c 0 >>= fun _ =>
          if fatIsEoc fs next then pure ()
          else if next < 2 ∨ fatMaxValidCluster fs < next then pure ()
          else freeLoop fs fuel next) st := fun fuel => by
        rw [unfolded, query_bind_ok (s := st) (congrArg orFailed read)]
      cases wrote : (writeFatEntry fs c 0 st).result with
      | error e =>
          refine .inl fun fuel => ?_
          cases e with
          | failed => rw [unfolded, result_bind_error wrote]
          | endless => exact absurd wrote ((writeFatEntry_proper fs c 0).ends st)
      | ok _ =>
          have done := writeFatEntry_ok wrote
          by_cases last : fatIsEoc fs next = true ∨ next < 2 ∨ fatMaxValidCluster fs < next
          · refine .inr (.inl fun fuel => ?_)
            rw [unfolded, result_bind_ok wrote]
            split
            · rfl
            next more => rw [if_pos (last.resolve_left more)]; rfl
          · rw [not_or] at last
            refine .inr (.inr ⟨next, _, rfl, done, by omega, fun fuel => ?_⟩)
            rw [unfolded, result_bind_ok wrote, if_neg last.1, if_neg last.2]

/-- Every round clears an entry in use. -/
theorem freeLoop_ends_inside (regular : Regular fs) (low : 2 ≤ c)
    (high : c ≤ fatMaxValidCluster fs) (enough : (inUse fs st.vol).card < fuel) :
    (freeLoop fs fuel c st).result ≠ .error .endless := by
  induction fuel generalizing c st with
  | zero => omega
  | succ fuel ih =>
      rcases freeLoop_round low with failed | ended | ⟨next, st₁, read, done, range, run⟩
      · rw [failed]
        exact nofun
      · rw [ended]
        exact nofun
      · have inTable := Nat.lt_of_le_of_lt high (maxValidCluster_lt (Nat.le_trans low high))
        have stored := regular.stores c inTable _ _ _ done
        have table : ∀ d < fatFatEntryCount fs,
            tableOf fs st₁.vol d = if d = c then 0 else tableOf fs st.vol d := by
          intro d dIn
          split
          next same => rw [same, tableOf, stored.readsBack, Option.getD_some, masked_zero]
          next other => rw [tableOf, stored.others d other dIn, tableOf]
        have used : tableOf fs st.vol c ≠ 0 := by
          rw [tableOf, read, Option.getD_some]
          omega
        have fewer := inUse_lt low high used table
        rw [run]
        exact ih range.1 range.2 (by omega)

theorem inUse_card_le (fs : FatFs) (v : FatVolume) :
    (inUse fs v).card ≤ fatMaxValidCluster fs := by
  have le := Finset.card_filter_le (Finset.Icc 2 (fatMaxValidCluster fs))
    fun c => tableOf fs v c ≠ 0
  rw [Nat.card_Icc] at le
  exact Nat.le_trans le (by omega)

/-- **Freeing ends**, whatever the table holds and wherever the chain starts. -/
theorem freeChain_proper (regular : Regular fs) (c : Nat) : Proper (freeChain fs c) := by
  refine ⟨fun st => ?_, freeLoop_logs fs _ c⟩
  unfold freeChain
  by_cases low : 2 ≤ c
  · rcases freeLoop_round low with failed | ended | ⟨next, st₁, -, -, range, run⟩
    · rw [failed]
      exact nofun
    · rw [ended]
      exact nofun
    · rw [run]
      have few := inUse_card_le fs st₁.vol
      exact freeLoop_ends_inside regular range.1 range.2 (by omega)
  · rw [freeLoop, if_pos (by omega)]
    exact nofun

/-- What freeing a chain stores is in the table exactly if the entry of its first cluster is,
as far as the drive transfers it. -/
theorem freeChain_tables_iff (regular : Regular fs) (low : 2 ≤ c) :
    (∀ sector, FatEvent.stored sector ∈ (freeChain fs c st).log → InTables fs sector) ↔
      EntryInTables fs st.vol c := by
  have run : freeChain fs c = (query fun st => orFailed (fatReadFatEntry fs st.vol c)) >>=
      fun next => writeFatEntry fs c 0 >>= fun _ =>
        if fatIsEoc fs next then pure ()
        else if next < 2 ∨ fatMaxValidCluster fs < next then pure ()
        else freeLoop fs (fatMaxValidCluster fs + 1) next := by
    unfold freeChain
    rw [freeLoop, if_neg (Nat.not_lt.2 low)]
  cases read : fatReadFatEntry fs st.vol c with
  | none =>
      -- nothing is stored, and the entry is not transferred
      have silent : ¬ Transfers fs st.vol c 0 := by
        rw [← fatReadFatEntry_isSome regular.sound, read]
        exact Bool.false_ne_true
      refine iff_of_true (fun sector mem => ?_)
        fun fi _ before => absurd (before 0 (Nat.zero_le _)) silent
      rw [run, query_bind_error (s := st) (congrArg orFailed read)] at mem
      exact absurd mem List.not_mem_nil
  | some next =>
      have log : (freeChain fs c st).log = ((writeFatEntry fs c 0 >>= fun _ =>
          if fatIsEoc fs next then pure ()
          else if next < 2 ∨ fatMaxValidCluster fs < next then pure ()
          else freeLoop fs (fatMaxValidCluster fs + 1) next) st).log := by
        rw [run, query_bind_ok (s := st) (congrArg orFailed read)]
      have later : TablesOnly fs (if fatIsEoc fs next then pure ()
          else if next < 2 ∨ fatMaxValidCluster fs < next then pure ()
          else freeLoop fs (fatMaxValidCluster fs + 1) next) := by
        split
        · exact within_pure _
        · split
          · exact within_pure _
          next inside => exact freeLoop_tables regular (by omega)
      rw [log]
      constructor
      · intro all fi lt before sector here
        exact all sector (mem_log_bind _ (mem_log_writeFatEntry.2 ⟨fi, lt, before, here⟩))
      · intro inTables sector mem
        rcases List.mem_append.1 mem with mem | mem
        · obtain ⟨fi, lt, before, here⟩ := mem_log_writeFatEntry.1 mem
          exact inTables fi lt before sector here
        · revert mem
          cases (writeFatEntry fs c 0 st).result with
          | ok _ => exact later _ _
          | error e => exact fun mem => absurd mem List.not_mem_nil

end Free

end NTux.Fat.Disk
