import NTux.Fat.Slots

/-!
# Creating and removing an empty file

`fat_create_entry` uses one slot for every thirteen characters of the name and one for the
entry; `fat_op_remove` marks the one slot of the entry as deleted.  The slots of the long name
are used for good: no pair of the two gives back what it took (`createRemove_balance`), and the
slots of the directory bound how often the pair succeeds (`Pairs.balance`).
-/

namespace NTux.Fat

open NTux.Fs NTux.Lib

/-- The numbers of the free slots, counted from `i`. -/
def freeFrom : Nat → List Slot → List Nat
  | _, [] => []
  | i, s :: rest => if s.free then i :: freeFrom (i + 1) rest else freeFrom (i + 1) rest

/-- The slots that `fat_dir_find_free_slots` can use. -/
def freeSlots (dir : Dir) : List Nat := freeFrom 0 dir.flatten

/-- What the entry of an empty file gets. -/
def emptyPayload : Payload := ⟨0, 0⟩

/-- `n` times a file of the name is created empty and removed, with success.  The directory may
grow, and `removable` is what else decides of the removal. -/
inductive Pairs (leaf : CString) : Nat → Dir → Dir → Prop
  | none (dir : Dir) : Pairs leaf 0 dir dir
  | pair {n : Nat} {dir made gone last : Dir} {growth : Option Nat} {removable : Bool}
      (create : fatCreateEntry dir leaf 0 (some emptyPayload) growth = (made, true))
      (remove : fatRemove made leaf removable = (gone, true)) (later : Pairs leaf n gone last) :
      Pairs leaf (n + 1) dir last

variable {dir made gone : Dir} {leaf : CString} {growth : Option Nat} {removable : Bool}

/-! ## Counting free slots -/

theorem length_freeFrom (i : Nat) (slots : List Slot) :
    (freeFrom i slots).length = slots.countP Slot.free := by
  induction slots generalizing i with
  | nil => rfl
  | cons s rest ih =>
      unfold freeFrom
      split
      next free => rw [List.length_cons, ih, List.countP_cons_of_pos free]
      next used => rw [ih, List.countP_cons_of_neg used]

/-- A slot of a sector is a slot of the directory. -/
theorem flatten_getElem? (shaped : Shaped dir) {i j : Nat} (lt : j < slotsPerSector) :
    dir.flatten[i * slotsPerSector + j]? = dir[i]?.bind fun sector => sector[j]? := by
  induction dir generalizing i with
  | nil => simp
  | cons sector rest ih =>
      have first := shaped sector List.mem_cons_self
      cases i with
      | zero =>
          rw [List.flatten_cons, Nat.zero_mul, Nat.zero_add, List.getElem?_append_left (by omega)]
          rfl
      | succ i =>
          rw [List.flatten_cons, Nat.succ_mul, List.getElem?_append_right (by omega), first,
            show i * slotsPerSector + slotsPerSector + j - slotsPerSector =
              i * slotsPerSector + j by omega, ih fun s mem => shaped s (List.mem_cons_of_mem _ mem)]
          rfl

/-- Slots written over free ones. -/
theorem countP_writeSlots (off : Nat) (slots row : List Slot)
    (fits : off + slots.length ≤ row.length)
    (free : ∀ j, off ≤ j → j < off + slots.length → ∃ s, row[j]? = some s ∧ s.free = true) :
    (writeSlots off slots row).countP Slot.free + slots.length =
      row.countP Slot.free + slots.countP Slot.free := by
  have parts : row = row.take off ++ ((row.drop off).take slots.length ++
      row.drop (off + slots.length)) := by
    rw [← List.drop_drop, List.take_append_drop, List.take_append_drop]
  have middle : ((row.drop off).take slots.length).countP Slot.free = slots.length := by
    have length : ((row.drop off).take slots.length).length = slots.length := by
      rw [List.length_take, List.length_drop]
      omega
    rw [List.countP_eq_length.2 fun s mem => ?_, length]
    obtain ⟨j, lt, here⟩ := List.mem_iff_getElem.1 mem
    obtain ⟨s', at_, isFree⟩ := free (off + j) (Nat.le_add_right _ _) (by omega)
    have same : row[off + j]? = some s := by
      rw [← here, List.getElem_take, List.getElem_drop, List.getElem?_eq_getElem]
    rw [same] at at_
    obtain rfl := Option.some.inj at_
    exact isFree
  have total : row.countP Slot.free = (row.take off).countP Slot.free +
      (slots.length + (row.drop (off + slots.length)).countP Slot.free) := by
    conv_lhs => rw [parts]
    rw [List.countP_append, List.countP_append, middle]
  unfold writeSlots
  rw [List.countP_append, List.countP_append, total]
  omega

/-- A used slot is freed. -/
theorem countP_set_deleted {row : List Slot} {k : Nat} {e : FatDirEntry}
    (used : row[k]? = some (.entry e)) :
    (row.set k .deleted).countP Slot.free = row.countP Slot.free + 1 := by
  induction row generalizing k with
  | nil => cases used
  | cons s rest ih =>
      cases k with
      | zero =>
          obtain rfl := Option.some.inj used
          rw [List.set_cons_zero, List.countP_cons_of_pos rfl,
            List.countP_cons_of_neg Bool.false_ne_true]
      | succ k =>
          have later := ih used
          rw [List.set_cons_succ, List.countP_cons, List.countP_cons, later]
          omega

theorem countP_emptySectors (n : Nat) :
    (List.replicate n emptySector).flatten.countP Slot.free = slotsPerSector * n := by
  induction n with
  | zero => rfl
  | succ n ih =>
      have one : emptySector.countP Slot.free = slotsPerSector := by decide
      rw [List.replicate_succ, List.flatten_cons, List.countP_append, ih, one, Nat.mul_succ,
        Nat.add_comm]

/-! ## One pair -/

/-- A name has parts. -/
theorem lfnCount_pos {sfn : List UInt8} (made : fatMakeSfn leaf = some sfn) :
    1 ≤ fatLfnEntryCountForName leaf := by
  have some_ : leaf ≠ [] := by
    rintro rfl
    cases made
  have length := List.length_pos_iff.2 some_
  unfold fatLfnEntryCountForName lfnChars
  omega

/-- What a successful create has taken. -/
theorem create_balance (shaped : Shaped dir)
    (create : fatCreateEntry dir leaf 0 (some emptyPayload) growth = (made, true)) :
    Shaped made ∧ (1 ≤ fatLfnEntryCountForName leaf ∧ fatLfnEntryCountForName leaf ≤ 8) ∧
      ∃ more, made.length = dir.length + more ∧
        made.flatten.countP Slot.free + (fatLfnEntryCountForName leaf + 1) =
          dir.flatten.countP Slot.free + slotsPerSector * more := by
  have madeShaped := fatCreateEntry_shaped shaped leaf 0 (some emptyPayload) growth
  rw [create] at madeShaped
  unfold fatCreateEntry at create
  split at create
  · cases create
  · cases sfn : fatMakeSfn leaf with
    | none => simp [sfn] at create
    | some name =>
        simp only [sfn] at create
        cases search : fatDirFindFreeSlots dir (fatLfnEntryCountForName leaf + 1) growth with
        | none => simp [search] at create
        | some result =>
            obtain ⟨grown, i, off⟩ := result
            simp only [search] at create
            have place := fatDirFindFreeSlots_spec shaped search
            split at create
            · simp at create
            next few =>
              obtain ⟨rfl, -⟩ := Prod.mk.inj create
              refine ⟨madeShaped, ⟨lfnCount_pos sfn, Nat.le_of_not_lt few⟩, ?_⟩
              obtain ⟨more, grows⟩ := place.grows
              obtain ⟨sector, at_, free⟩ := place.free
              have length := length_createSlots name leaf ⟨name, 0, 0, 0⟩
              have rowFree : ∀ j, i * slotsPerSector + off ≤ j →
                  j < i * slotsPerSector + off + (fatLfnEntryCountForName leaf + 1) →
                    ∃ s, grown.flatten[j]? = some s ∧ s.free = true := by
                intro j from_ below
                have fits := place.fits
                obtain ⟨s, here, isFree⟩ := free (j - i * slotsPerSector) (by omega) (by omega)
                refine ⟨s, ?_, isFree⟩
                rw [show j = i * slotsPerSector + (j - i * slotsPerSector) by omega,
                  flatten_getElem? place.shaped (by omega), at_]
                exact here
              have inside : i * slotsPerSector + off + (fatLfnEntryCountForName leaf + 1) ≤
                  grown.flatten.length := by
                rw [place.shaped.length_flatten]
                have whole : (i + 1) * slotsPerSector ≤ grown.length * slotsPerSector :=
                  Nat.mul_le_mul_right _ place.inside
                have fits := place.fits
                rw [Nat.succ_mul] at whole
                omega
              have none : ((lfnEntries name leaf).map Slot.lfn ++
                  [Slot.entry ⟨name, 0, emptyPayload.cluster, emptyPayload.size⟩]).countP
                    Slot.free = 0 := by
                rw [List.countP_eq_zero]
                intro s mem
                rcases List.mem_append.1 mem with part | entry
                · obtain ⟨e, -, rfl⟩ := List.mem_map.1 part
                  exact Bool.false_ne_true
                · obtain rfl := List.mem_singleton.1 entry
                  exact Bool.false_ne_true
              have count := countP_writeSlots (i * slotsPerSector + off)
                ((lfnEntries name leaf).map Slot.lfn ++
                  [Slot.entry ⟨name, 0, emptyPayload.cluster, emptyPayload.size⟩])
                grown.flatten (by rw [length_createSlots]; exact inside)
                (by rw [length_createSlots]; exact rowFree)
              rw [none, length_createSlots] at count
              refine ⟨more, ?_, ?_⟩
              · unfold fatWriteEntriesAt
                rw [List.length_modify, grows, List.length_append, List.length_replicate]
              · unfold fatWriteEntriesAt
                rw [flatten_modify_writeSlots place.shaped place.inside
                  (by rw [length_createSlots]; exact place.fits), count, grows,
                  List.flatten_append, List.countP_append, countP_emptySectors, Nat.add_zero]

/-- What a successful removal gives back. -/
theorem remove_balance (shaped : Shaped made)
    (remove : fatRemove made leaf removable = (gone, true)) :
    Shaped gone ∧ gone.length = made.length ∧
      gone.flatten.countP Slot.free = made.flatten.countP Slot.free + 1 := by
  unfold fatRemove at remove
  split at remove
  · cases remove
  next f found =>
    split at remove
    · obtain ⟨rfl, -⟩ := Prod.mk.inj remove
      have slot := slot_of_mem (mem_entries_of_find found)
      refine ⟨fatWriteEntryAt_shaped shaped _ _, List.length_modify .., ?_⟩
      rw [flatten_fatWriteEntryAt shaped _ (List.getElem?_eq_some_iff.1 slot).1,
        countP_set_deleted slot]
    · cases remove

/-- **A pair keeps the slots of the long name.** -/
theorem createRemove_balance (shaped : Shaped dir)
    (create : fatCreateEntry dir leaf 0 (some emptyPayload) growth = (made, true))
    (remove : fatRemove made leaf removable = (gone, true)) :
    Shaped gone ∧ (1 ≤ fatLfnEntryCountForName leaf ∧ fatLfnEntryCountForName leaf ≤ 8) ∧
      ∃ more, gone.length = dir.length + more ∧
        (freeSlots gone).length + fatLfnEntryCountForName leaf =
          (freeSlots dir).length + slotsPerSector * more := by
  obtain ⟨madeShaped, parts, more, length, taken⟩ := create_balance shaped create
  obtain ⟨goneShaped, same, given⟩ := remove_balance madeShaped remove
  refine ⟨goneShaped, parts, more, same.trans length, ?_⟩
  unfold freeSlots
  rw [length_freeFrom, length_freeFrom]
  omega

/-! ## Many pairs -/

theorem Pairs.balance {n : Nat} {last : Dir} (shaped : Shaped dir) (pairs : Pairs leaf n dir last) :
    ∃ more, last.length = dir.length + more ∧
      (freeSlots last).length + n * fatLfnEntryCountForName leaf =
        (freeSlots dir).length + slotsPerSector * more := by
  induction pairs with
  | none dir => exact ⟨0, rfl, by rw [Nat.zero_mul, Nat.mul_zero]⟩
  | pair create remove later ih =>
      obtain ⟨goneShaped, -, more, length, balance⟩ := createRemove_balance shaped create remove
      obtain ⟨more', length', balance'⟩ := ih goneShaped
      refine ⟨more + more', by omega, ?_⟩
      rw [Nat.succ_mul, Nat.mul_add]
      omega

/-- A directory has no more free slots than slots. -/
theorem length_freeSlots_le (shaped : Shaped dir) :
    (freeSlots dir).length ≤ dir.length * slotsPerSector := by
  unfold freeSlots
  rw [length_freeFrom, ← shaped.length_flatten]
  exact List.countP_le_length

/-- **No pair of a create and a removal restores the free slots**, each one keeps the slots of
the long name, and in a directory of so many sectors only so many pairs succeed. -/
theorem create_remove_leaks (shaped : Shaped dir) (leaf : CString) :
    (∀ growth removable made gone,
      fatCreateEntry dir leaf 0 (some emptyPayload) growth = (made, true) →
        fatRemove made leaf removable = (gone, true) → freeSlots gone ≠ freeSlots dir) ∧
    ∀ n last, Pairs leaf n dir last →
      (∃ more, last.length = dir.length + more ∧
        (freeSlots last).length + n * fatLfnEntryCountForName leaf =
          (freeSlots dir).length + slotsPerSector * more) ∧
      ∀ sectors, last.length ≤ sectors → n ≤ sectors * slotsPerSector := by
  refine ⟨fun growth removable made gone create remove same => ?_, fun n last pairs => ?_⟩
  · obtain ⟨-, parts, more, -, balance⟩ := createRemove_balance shaped create remove
    rw [same] at balance
    unfold slotsPerSector at balance
    omega
  · obtain ⟨more, length, balance⟩ := pairs.balance shaped
    refine ⟨⟨more, length, balance⟩, fun sectors few => ?_⟩
    have start := length_freeSlots_le shaped
    have positive : n ≤ n * fatLfnEntryCountForName leaf := by
      cases pairs with
      | none => exact Nat.zero_le _
      | pair create remove later =>
          exact Nat.le_mul_of_pos_right _ (createRemove_balance shaped create remove).2.1.1
    unfold slotsPerSector at *
    omega

/-! ## The file `a` in a fresh root directory -/

/-- The directory with the file. -/
def withFile : Dir := (fatCreateEntry (freshRoot 1) [97] 0 (some emptyPayload) none).1

/-- The directory without it. -/
def withoutFile : Dir := (fatRemove withFile [97] true).1

theorem file_created : fatCreateEntry (freshRoot 1) [97] 0 (some emptyPayload) none =
    (withFile, true) := by
  rw [withFile, Prod.ext_iff]
  exact ⟨rfl, by decide⟩

theorem file_removed : fatRemove withFile [97] true = (withoutFile, true) := by
  rw [withoutFile, Prod.ext_iff]
  exact ⟨rfl, by decide⟩

/-- It leaves one slot less. -/
theorem fresh_root_leaks : freeSlots withoutFile ≠ freeSlots (freshRoot 1) ∧
    ∃ more, withoutFile.length = (freshRoot 1).length + more ∧
      (freeSlots withoutFile).length + 1 * fatLfnEntryCountForName [97] =
        (freeSlots (freshRoot 1)).length + slotsPerSector * more := by
  have leaks := create_remove_leaks (shaped_replicate 1) [97]
  exact ⟨leaks.1 none true withFile withoutFile file_created file_removed,
    (leaks.2 1 withoutFile (.pair file_created file_removed (.none _))).1⟩

/-- A create and a removal do not balance. -/
theorem create_remove_unbalanced : ¬ ∀ (dir : Dir) (leaf : CString), Shaped dir →
    ∀ growth removable made gone,
      fatCreateEntry dir leaf 0 (some emptyPayload) growth = (made, true) →
        fatRemove made leaf removable = (gone, true) → freeSlots gone = freeSlots dir := by
  intro balanced
  have same := balanced (freshRoot 1) [97] (shaped_replicate 1) none true withFile withoutFile
    file_created file_removed
  exact absurd same (by decide)

end NTux.Fat
