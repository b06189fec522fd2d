import NTux.Fat.Directory
import NTux.Lib.Runs

/-!
# Sectors and the walk over their slots

Every sector of a directory has sixteen slots (`Shaped`), so that writing into one is
writing into the row of all slots.  Writing another entry with the same attributes over an
entry changes this one entry of the walk, and its name only if the walk has no long name
for it (`scan_set_entry`).
-/

namespace NTux.Fat

open NTux.Fs NTux.Lib

variable {dir : Dir}

/-- Every sector has its sixteen slots. -/
def Shaped (dir : Dir) : Prop := ∀ sector ∈ dir, sector.length = slotsPerSector

theorem emptySector_length : emptySector.length = slotsPerSector := List.length_replicate

theorem Shaped.append {dir' : Dir} (shaped : Shaped dir) (shaped' : Shaped dir') :
    Shaped (dir ++ dir') := by
  intro sector mem
  rcases List.mem_append.1 mem with h | h
  · exact shaped sector h
  · exact shaped' sector h

theorem shaped_replicate (n : Nat) : Shaped (List.replicate n emptySector) := by
  intro sector mem
  rw [(List.mem_replicate.1 mem).2]
  exact emptySector_length

theorem length_writeSlots {off : Nat} {slots : List Slot} {sector : Sector}
    (fits : off + slots.length ≤ sector.length) :
    (writeSlots off slots sector).length = sector.length := by
  unfold writeSlots
  simp only [List.length_append, List.length_take, List.length_drop]
  omega

theorem Shaped.modify {f : Sector → Sector} (shaped : Shaped dir) (i : Nat)
    (kept : ∀ sector, sector.length = slotsPerSector → (f sector).length = slotsPerSector) :
    Shaped (dir.modify i f) := by
  intro sector mem
  obtain ⟨j, lt, rfl⟩ := List.mem_iff_getElem.1 mem
  rw [List.getElem_modify]
  have old : (dir.get ⟨j, by simpa using lt⟩).length = slotsPerSector :=
    shaped _ (List.getElem_mem _)
  split
  · exact kept _ old
  · exact old

theorem Shaped.length_flatten (shaped : Shaped dir) :
    dir.flatten.length = dir.length * slotsPerSector := by
  induction dir with
  | nil => simp
  | cons sector rest ih =>
      have first := shaped sector List.mem_cons_self
      have others := ih fun s mem => shaped s (List.mem_cons_of_mem _ mem)
      simp only [List.flatten_cons, List.length_append, List.length_cons, first, others,
        Nat.succ_mul]
      omega

/-- Writing into a sector is writing into the row of all slots. -/
theorem flatten_modify_writeSlots (shaped : Shaped dir) {i off : Nat} {slots : List Slot}
    (inside : i < dir.length) (fits : off + slots.length ≤ slotsPerSector) :
    (dir.modify i (writeSlots off slots)).flatten =
      writeSlots (i * slotsPerSector + off) slots dir.flatten := by
  induction dir generalizing i with
  | nil => exact absurd inside (Nat.not_lt_zero i)
  | cons sector rest ih =>
      have first := shaped sector List.mem_cons_self
      cases i with
      | zero =>
          show (writeSlots off slots sector) ++ rest.flatten = _
          unfold writeSlots
          rw [List.flatten_cons, Nat.zero_mul, Nat.zero_add,
            List.take_append_of_le_length (by omega), List.drop_append_of_le_length (by omega),
            List.append_assoc]
      | succ i =>
          have others := ih (fun s mem => shaped s (List.mem_cons_of_mem _ mem))
            (Nat.lt_of_succ_lt_succ inside)
          show sector ++ (rest.modify i (writeSlots off slots)).flatten = _
          rw [others]
          have place : (i + 1) * slotsPerSector + off =
              sector.length + (i * slotsPerSector + off) := by
            rw [first, Nat.succ_mul]
            omega
          unfold writeSlots
          rw [List.flatten_cons, place, List.take_length_add_append, Nat.add_assoc sector.length,
            List.drop_length_add_append]
          simp only [List.append_assoc]

/-- Writing one slot. -/
theorem flatten_fatWriteEntryAt (shaped : Shaped dir) {index : Nat} (slot : Slot)
    (inside : index < dir.flatten.length) :
    (fatWriteEntryAt dir index slot).flatten = dir.flatten.set index slot := by
  have sixteen : 0 < slotsPerSector := by decide
  rw [shaped.length_flatten] at inside
  unfold fatWriteEntryAt
  rw [flatten_modify_writeSlots shaped ((Nat.div_lt_iff_lt_mul sixteen).2 inside)
    (Nat.mod_lt index sixteen), Nat.div_add_mod', List.set_eq_take_append_cons_drop, if_pos]
  · simp [writeSlots]
  · rw [shaped.length_flatten]
    exact inside

theorem fatWriteEntryAt_shaped (shaped : Shaped dir) (index : Nat) (slot : Slot) :
    Shaped (fatWriteEntryAt dir index slot) := by
  refine shaped.modify _ fun sector length => ?_
  have lt : index % slotsPerSector < slotsPerSector := Nat.mod_lt index (by decide)
  rw [length_writeSlots (by rw [length]; exact lt), length]

/-! ## The walk -/

/-- The entries of the walk are entries of the slots, at their places. -/
theorem mem_scan {a : LfnAccum} {i : Nat} {slots : List Slot} {f : Found}
    (mem : f ∈ scan a i slots) : ∃ k, f.index = i + k ∧ slots[k]? = some (.entry f.entry) := by
  induction slots generalizing a i with
  | nil => exact absurd mem (by simp [scan])
  | cons slot rest ih =>
      have later : ∀ a, f ∈ scan a (i + 1) rest →
          ∃ k, f.index = i + k ∧ (slot :: rest)[k]? = some (.entry f.entry) := by
        intro a mem
        obtain ⟨k, place, found⟩ := ih mem
        exact ⟨k + 1, by omega, by simpa using found⟩
      cases slot with
      | unused => exact absurd mem (by simp [scan])
      | deleted => exact later _ (by simpa [scan] using mem)
      | lfn e => exact later _ (by simpa [scan] using mem)
      | entry e =>
          unfold scan at mem
          split at mem
          · exact later _ mem
          · rcases List.mem_cons.1 mem with rfl | mem
            · exact ⟨0, rfl, rfl⟩
            · exact later _ mem

/-- The walk comes by the entries in the order of their places. -/
theorem scan_pairwise (a : LfnAccum) (i : Nat) (slots : List Slot) :
    (scan a i slots).Pairwise fun f g => f.index < g.index := by
  induction slots generalizing a i with
  | nil => exact List.Pairwise.nil
  | cons slot rest ih =>
      cases slot with
      | unused => exact List.Pairwise.nil
      | deleted => exact ih _ _
      | lfn e => exact ih _ _
      | entry e =>
          unfold scan
          split
          · exact ih _ _
          · refine List.pairwise_cons.2 ⟨fun g mem => ?_, ih _ _⟩
            obtain ⟨k, place, -⟩ := mem_scan mem
            show i < g.index
            omega

/-- What a walk makes of the entry at `index` when `e` is written over it. -/
def Found.overwrite (index : Nat) (e : FatDirEntry) (f : Found) : Found :=
  if f.index = index then
    { f with name := if f.long then f.name else fatSfnToName e.name, entry := e }
  else f

/-- An entry written over one with the same attributes. -/
theorem scan_set_entry {a : LfnAccum} {i k : Nat} {slots : List Slot} {e e' : FatDirEntry}
    (old : slots[k]? = some (.entry e)) (attr : e'.attr = e.attr) :
    scan a i (slots.set k (.entry e')) = (scan a i slots).map (Found.overwrite (i + k) e') := by
  induction slots generalizing a i k with
  | nil => simp at old
  | cons slot rest ih =>
      cases k with
      | zero =>
          obtain rfl : slot = .entry e := by simpa using old
          have kept : ∀ f ∈ scan lfnReset (i + 1) rest, f.overwrite (i + 0) e' = f := by
            intro f mem
            obtain ⟨k, place, -⟩ := mem_scan mem
            exact if_neg (by omega)
          simp only [List.set_cons_zero, scan, attr]
          split
          · rw [List.map_congr_left kept, List.map_id']
          · rw [List.map_cons, List.map_congr_left kept, List.map_id']
            congr 1
            unfold Found.overwrite fatEntryToName
            split <;> simp
      | succ k =>
          have next : ∀ a, scan a (i + 1) (rest.set k (.entry e')) =
              (scan a (i + 1) rest).map (Found.overwrite (i + (k + 1)) e') := by
            intro a
            rw [ih (by simpa using old), show i + 1 + k = i + (k + 1) by omega]
          cases slot with
          | unused => simp [scan]
          | deleted => simpa [scan] using next _
          | lfn e => simpa [scan] using next _
          | entry e =>
              simp only [List.set_cons_succ, scan]
              split
              · exact next _
              · rw [next, List.map_cons]
                congr 1
                exact (if_neg (show i ≠ i + (k + 1) by omega)).symm

/-- A name is found among the entries of the directory. -/
theorem mem_entries_of_find {name : CString} {f : Found}
    (found : fatDirFindEntry dir name = some f) : f ∈ entries dir :=
  List.mem_of_find?_eq_some found

/-- The slot of an entry that is found. -/
theorem slot_of_mem {f : Found} (mem : f ∈ entries dir) :
    dir.flatten[f.index]? = some (.entry f.entry) := by
  obtain ⟨k, place, slot⟩ := mem_scan mem
  rw [Nat.zero_add] at place
  rwa [place]

/-- An entry of the directory is overwritten by one with the same attributes. -/
theorem entries_overwrite (shaped : Shaped dir) {f : Found} (mem : f ∈ entries dir)
    {e : FatDirEntry} (attr : e.attr = f.entry.attr) :
    entries (fatWriteEntryAt dir f.index (.entry e)) =
      (entries dir).map (Found.overwrite f.index e) := by
  have slot := slot_of_mem mem
  unfold entries
  rw [flatten_fatWriteEntryAt shaped _ (List.getElem?_eq_some_iff.1 slot).1,
    scan_set_entry slot attr, Nat.zero_add]

/-! ## Free slots -/

/-- A run that is found lies inside the sector, and its slots are free. -/
theorem freeRun_spec {count off run place : Nat} {sector : List Slot}
    (found : freeRun count off run sector = some place) (some_ : 0 < count) (le : run ≤ off)
    (few : run < count) :
    off ≤ place + run ∧ place + count ≤ off + sector.length ∧
      ∀ j, off ≤ j → place ≤ j → j < place + count →
        ∃ s, sector[j - off]? = some s ∧ s.free = true := by
  induction sector generalizing off run with
  | nil => exact absurd found (by simp [freeRun])
  | cons s rest ih =>
      unfold freeRun at found
      split at found
      next free =>
        split at found
        next enough =>
          obtain rfl := Option.some.inj found
          refine ⟨by omega, by simp only [List.length_cons]; omega, fun j le_ from_ lt => ?_⟩
          obtain rfl : j = off := by omega
          exact ⟨s, by simp, free⟩
        next more =>
          obtain ⟨start, stop, slots⟩ := ih found (by omega) (by omega)
          refine ⟨by omega, by simp only [List.length_cons]; omega, fun j le_ from_ lt => ?_⟩
          rcases Nat.eq_or_lt_of_le le_ with rfl | behind
          · exact ⟨s, by simp, free⟩
          · obtain ⟨t, at_, free'⟩ := slots j behind from_ lt
            refine ⟨t, ?_, free'⟩
            rw [show j - off = (j - (off + 1)) + 1 by omega, List.getElem?_cons_succ]
            exact at_
      next taken =>
        obtain ⟨start, stop, slots⟩ := ih found (by omega) some_
        refine ⟨by omega, by simp only [List.length_cons]; omega, fun j le_ from_ lt => ?_⟩
        rcases Nat.eq_or_lt_of_le le_ with rfl | behind
        · omega
        · obtain ⟨t, at_, free'⟩ := slots j behind from_ lt
          refine ⟨t, ?_, free'⟩
          rw [show j - off = (j - (off + 1)) + 1 by omega, List.getElem?_cons_succ]
          exact at_

theorem freeSector_spec {count i j off : Nat} {sectors : Dir}
    (found : freeSector count i sectors = some (j, off)) :
    i ≤ j ∧ ∃ sector, sectors[j - i]? = some sector ∧ freeRun count 0 0 sector = some off := by
  induction sectors generalizing i with
  | nil => exact absurd found (by simp [freeSector])
  | cons sector rest ih =>
      unfold freeSector at found
      split at found
      next place run =>
        obtain ⟨rfl, rfl⟩ := Prod.mk.inj (Option.some.inj found)
        exact ⟨Nat.le_refl _, sector, by simp, run⟩
      next =>
        obtain ⟨le, t, at_, run⟩ := ih found
        refine ⟨by omega, t, ?_, run⟩
        rw [show j - i = (j - (i + 1)) + 1 by omega, List.getElem?_cons_succ]
        exact at_

/-- The place `fat_dir_find_free_slots` gives: within one sector of the directory, which
may have grown by sectors of zeroes. -/
structure FreePlace (dir : Dir) (count : Nat) (grown : Dir) (i off : Nat) : Prop where
  shaped : Shaped grown
  grows : ∃ more, grown = dir ++ List.replicate more emptySector
  inside : i < grown.length
  fits : off + count ≤ slotsPerSector
  free : ∃ sector, grown[i]? = some sector ∧
    ∀ j, off ≤ j → j < off + count → ∃ s, sector[j]? = some s ∧ s.free = true

theorem fatDirFindFreeSlots_spec (shaped : Shaped dir) {count i off : Nat} {growth : Option Nat}
    {grown : Dir} (found : fatDirFindFreeSlots dir count growth = some (grown, i, off)) :
    FreePlace dir count grown i off := by
  unfold fatDirFindFreeSlots at found
  split at found
  next => exact absurd found (by simp)
  next few =>
    split at found
    next place search =>
      obtain ⟨rfl, rfl⟩ := Prod.mk.inj (Option.some.inj found)
      obtain ⟨-, sector, at_, run⟩ := freeSector_spec search
      rw [Nat.sub_zero] at at_
      obtain ⟨-, stop, slots⟩ := freeRun_spec run (by omega) (Nat.le_refl 0) (by omega)
      have length := shaped sector (List.mem_of_getElem? at_)
      refine ⟨shaped, ⟨0, by simp⟩, (List.getElem?_eq_some_iff.1 at_).1, by omega, sector, at_, ?_⟩
      intro j le lt
      obtain ⟨s, here, free⟩ := slots j (Nat.zero_le j) le lt
      exact ⟨s, by simpa using here, free⟩
    next =>
      obtain ⟨n, -, eq⟩ := Option.map_eq_some_iff.1 found
      obtain ⟨rfl, rest⟩ := Prod.mk.inj eq
      obtain ⟨rfl, rfl⟩ := Prod.mk.inj rest
      refine ⟨shaped.append (shaped_replicate _), ⟨n + 1, rfl⟩, by simp, by omega, emptySector,
        by simp, fun j _ lt => ?_⟩
      refine ⟨.unused, ?_, rfl⟩
      unfold emptySector
      rw [List.getElem?_replicate, if_pos (by omega)]

/-! ## Reached directories -/

theorem Fresh.shaped (fresh : Fresh dir) : Shaped dir := by
  rcases fresh with ⟨n, rfl⟩ | ⟨self, parent, n, rfl⟩
  · exact shaped_replicate n
  · intro sector mem
    rcases List.mem_cons.1 mem with rfl | mem
    · rfl
    · exact shaped_replicate n sector mem

theorem length_createSlots (sfn leaf : List UInt8) (e : FatDirEntry) :
    ((lfnEntries sfn leaf).map Slot.lfn ++ [Slot.entry e]).length =
      fatLfnEntryCountForName leaf + 1 := by
  simp [lfnEntries]

theorem fatCreateEntry_shaped (shaped : Shaped dir) (leaf : CString) (attr : UInt8)
    (payload : Option Payload) (growth : Option Nat) :
    Shaped (fatCreateEntry dir leaf attr payload growth).1 := by
  unfold fatCreateEntry
  split
  · exact shaped
  · split
    · exact shaped
    · dsimp only
      split
      · exact shaped
      next grown place search =>
        obtain ⟨i, off⟩ := place
        have spec := fatDirFindFreeSlots_spec shaped search
        split
        · exact spec.shaped
        · split
          · exact spec.shaped
          · refine spec.shaped.modify i fun sector length => ?_
            rw [length_writeSlots, length]
            rw [length_createSlots, length]
            exact spec.fits

/-- A directory is reached from a fresh one by calls. -/
def Reached (dir : Dir) : Prop := ∃ start, Fresh start ∧ Reaches dirStep start dir

end NTux.Fat
