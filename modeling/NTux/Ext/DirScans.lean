import NTux.Ext.PathFiles

/-!
# The scans of a directory block

`ext2.c` and `ext4.c` hold the same five loops over the records of a directory block,
with an offset of `size_t` (find, list, is-empty) or of 16 bits (find-slot, add-entry).
A `DirScan` is such a loop: how the offset is converted and which record ends it.

* `DirScan.visited` — the offset of the `k`-th record the loop comes to; no bound is put
  on `k`, so a loop that never ends visits a record for every `k`.
* `dirWalk_eq_some_iff` — the functions of the drivers find what their loops stop at.
* `DirScan.Terminates` — strictly increasing offsets, and a record for eight bytes at most.
* `Wraps` — a record that is passed over reaches to offset 65536 or further.
* `dir_scans_terminate_iff` — the loops of `size_t` always terminate, the others exactly
  if no record wraps.
-/

namespace NTux.Ext

open NTux.Lib NTux.Lib.Bytes

/-- A loop over the records of a block: `next` converts the offset, `stop` tells the
records it returns at. -/
structure DirScan where
  next : Nat → Nat
  stop : DirEntry → Bool

/-- `.` and `..`. -/
def DirEntry.isDot (e : DirEntry) : Bool := e.name = [46] ∨ e.name = [46, 46]

/-- The loop of `ext2_dir_find` and `ext4_dir_find`. -/
def extDirFindScan (name : List UInt8) : DirScan := ⟨id, DirEntry.names name⟩

/-- The loop of `ext2_dir_find_slot` and `ext4_dir_find_slot`. -/
def extDirFindSlotScan (name : List UInt8) : DirScan := ⟨wrap16, DirEntry.names name⟩

/-- The loop of `ext2_dir_add_entry` and `ext4_dir_add_entry`. -/
def extDirAddScan (need : Nat) : DirScan := ⟨wrap16, DirEntry.hasRoom need⟩

/-- The loop of `ext2_op_list_dir` and `ext4_op_list_dir`. -/
def extListDirScan : DirScan := ⟨id, fun _ => false⟩

/-- The loop of `ext2_dir_is_empty` and `ext4_dir_is_empty`. -/
def extDirIsEmptyScan : DirScan := ⟨id, fun e => e.live && !e.isDot⟩

namespace DirScan

/-- The record at `off` ends the loop. -/
def Ends (s : DirScan) (buf : Bytes) (off : Nat) : Prop :=
  (dirEntryAt buf off).recLen < 8 ∨ s.stop (dirEntryAt buf off) = true

instance (s : DirScan) (buf : Bytes) (off : Nat) : Decidable (s.Ends buf off) := by
  unfold Ends
  infer_instance

/-- The offset of the `k`-th record that the loop comes to from `off` on. -/
def visited (s : DirScan) (size : Nat) (buf : Bytes) : Nat → ℕ → Option Nat
  | off, 0 => if size < off + 8 then none else some off
  | off, k + 1 =>
      if size < off + 8 ∨ s.Ends buf off then none
      else visited s size buf (s.next (off + (dirEntryAt buf off).recLen)) k

/-- The loop visits strictly increasing offsets, and at most one record for eight bytes. -/
structure Terminates (s : DirScan) (size : Nat) (buf : Bytes) : Prop where
  increasing : ∀ k a b, s.visited size buf 0 k = some a → s.visited size buf 0 (k + 1) = some b →
    a < b
  few : ∀ k, size / 8 ≤ k → s.visited size buf 0 k = none

end DirScan

/-- A record that the loop comes to and passes over reaches to offset 65536 or further.
The offsets are those of a `size_t`. -/
def Wraps (size : Nat) (buf : Bytes) (stop : DirEntry → Bool) : Prop :=
  ∃ k o, DirScan.visited ⟨id, stop⟩ size buf 0 k = some o ∧ ¬ DirScan.Ends ⟨id, stop⟩ buf o ∧
    2 ^ 16 ≤ o + (dirEntryAt buf o).recLen

/-! ## The records visited -/

namespace DirScan

variable {s : DirScan} {size : Nat} {buf : Bytes} {off a b k : Nat}

theorem visited_fits (visit : s.visited size buf off k = some a) : a + 8 ≤ size := by
  induction k generalizing off with
  | zero =>
      simp only [visited] at visit
      split at visit
      next => cases visit
      next inside =>
        obtain rfl := Option.some.inj visit
        omega
  | succ k ih =>
      simp only [visited] at visit
      split at visit
      next => cases visit
      next => exact ih visit

/-- From one record to the next. -/
theorem visited_succ (visit : s.visited size buf off k = some a) :
    s.visited size buf off (k + 1) =
      if s.Ends buf a then none
      else
        if size < s.next (a + (dirEntryAt buf a).recLen) + 8 then none
        else some (s.next (a + (dirEntryAt buf a).recLen)) := by
  induction k generalizing off with
  | zero =>
      simp only [visited] at visit
      split at visit
      next => cases visit
      next inside =>
        obtain rfl := Option.some.inj visit
        simp [visited, inside]
  | succ k ih =>
      rw [visited] at visit
      split at visit
      next => cases visit
      next go =>
        rw [visited, if_neg go]
        exact ih visit

theorem visited_succ_none (none_here : s.visited size buf off k = none) :
    s.visited size buf off (k + 1) = none := by
  induction k generalizing off with
  | zero =>
      simp only [visited] at none_here
      split at none_here
      next outside => simp [visited, outside]
      next => cases none_here
  | succ k ih =>
      rw [visited] at none_here ⊢
      split
      next => rfl
      next go =>
        rw [if_neg go] at none_here
        exact ih none_here

/-- A record that has a successor is passed over. -/
theorem visited_of_succ (visit : s.visited size buf off (k + 1) = some b) :
    ∃ a, s.visited size buf off k = some a ∧ ¬ s.Ends buf a ∧
      b = s.next (a + (dirEntryAt buf a).recLen) := by
  cases here : s.visited size buf off k with
  | none =>
      rw [visited_succ_none here] at visit
      cases visit
  | some a =>
      rw [visited_succ here] at visit
      split at visit
      next => cases visit
      next go =>
        split at visit
        next => cases visit
        next => exact ⟨a, rfl, go, (Option.some.inj visit).symm⟩

/-- Where the offset is not converted, the records lie at least eight bytes apart. -/
theorem visited_ge {stop : DirEntry → Bool}
    (visit : visited ⟨id, stop⟩ size buf off k = some a) : off + 8 * k ≤ a := by
  induction k generalizing a with
  | zero =>
      simp only [visited] at visit
      split at visit
      next => cases visit
      next =>
        obtain rfl := Option.some.inj visit
        omega
  | succ k ih =>
      obtain ⟨b, before, go, eq⟩ := visited_of_succ visit
      have far := ih before
      have long : 8 ≤ (dirEntryAt buf b).recLen := by
        by_contra short
        exact go (.inl (by omega))
      have : a = b + (dirEntryAt buf b).recLen := eq
      omega

theorem terminates_id (stop : DirEntry → Bool) : Terminates ⟨id, stop⟩ size buf where
  increasing := by
    intro k a b here next
    obtain ⟨a', here', go, eq⟩ := visited_of_succ next
    obtain rfl : a' = a := Option.some.inj (here'.symm.trans here)
    have long : 8 ≤ (dirEntryAt buf a').recLen := by
      by_contra short
      exact go (.inl (by omega))
    have : b = a' + (dirEntryAt buf a').recLen := eq
    omega
  few := by
    intro k many
    cases visit : visited ⟨id, stop⟩ size buf 0 k with
    | none => rfl
    | some a =>
        have far := visited_ge visit
        have fits := visited_fits visit
        omega

/-- Up to a record that wraps, the offset of 16 bits is that of a `size_t`. -/
theorem visited_wrap16 {stop : DirEntry → Bool} (small : size < 2 ^ 16)
    (visit : visited ⟨id, stop⟩ size buf 0 k = some a) :
    visited ⟨wrap16, stop⟩ size buf 0 k = some a := by
  induction k generalizing a with
  | zero => exact visit
  | succ k ih =>
      obtain ⟨b, before, go, eq⟩ := visited_of_succ visit
      have fits := visited_fits visit
      have same : wrap16 (b + (dirEntryAt buf b).recLen) = a := by
        have whole : a = b + (dirEntryAt buf b).recLen := eq
        rw [← whole]
        exact Nat.mod_eq_of_lt (by omega)
      have fine : ¬ Ends ⟨wrap16, stop⟩ buf b := go
      rw [visited_succ (ih before), if_neg fine]
      simp only [same]
      exact if_neg (by omega)

/-- Without a record that wraps, both visit the same. -/
theorem visited_eq_of_not_wraps {stop : DirEntry → Bool}
    (never : ¬ Wraps size buf stop) :
    visited ⟨wrap16, stop⟩ size buf 0 k = visited ⟨id, stop⟩ size buf 0 k := by
  induction k with
  | zero => rfl
  | succ k ih =>
      cases visit : visited ⟨id, stop⟩ size buf 0 k with
      | none =>
          rw [visit] at ih
          rw [visited_succ_none ih, visited_succ_none visit]
      | some a =>
          rw [visit] at ih
          rw [visited_succ ih, visited_succ visit]
          by_cases ended : Ends ⟨id, stop⟩ buf a
          · have ended' : Ends ⟨wrap16, stop⟩ buf a := ended
            rw [if_pos ended, if_pos ended']
          · have ended' : ¬ Ends ⟨wrap16, stop⟩ buf a := ended
            have lt : a + (dirEntryAt buf a).recLen < 2 ^ 16 := by
              by_contra far
              exact never ⟨k, a, visit, ended, by omega⟩
            rw [if_neg ended, if_neg ended']
            simp only [wrap16, Nat.mod_eq_of_lt lt, id_eq]

/-- A loop with an offset of 16 bits terminates exactly if no record wraps. -/
theorem terminates_wrap16_iff {stop : DirEntry → Bool} (small : size < 2 ^ 16) :
    Terminates ⟨wrap16, stop⟩ size buf ↔ ¬ Wraps size buf stop := by
  constructor
  · rintro terminates ⟨k, o, visit, go, far⟩
    have here := visited_wrap16 small visit
    have fits := visited_fits visit
    have len : (dirEntryAt buf o).recLen < 2 ^ 16 := rd16_lt
    -- the sum comes out below the offset it was added to
    have back : wrap16 (o + (dirEntryAt buf o).recLen) < o := by
      unfold wrap16
      rw [Nat.mod_eq_sub_mod far, Nat.mod_eq_of_lt (by omega)]
      omega
    have go' : ¬ Ends ⟨wrap16, stop⟩ buf o := go
    have next := visited_succ here
    rw [if_neg go', if_neg (by dsimp only; omega)] at next
    have := terminates.increasing k o _ here next
    dsimp only at this
    omega
  · intro never
    have unwrapped : Terminates ⟨id, stop⟩ size buf := terminates_id stop
    constructor
    · intro k a b here next
      rw [visited_eq_of_not_wraps never] at here next
      exact unwrapped.increasing k a b here next
    · intro k many
      rw [visited_eq_of_not_wraps never]
      exact unwrapped.few k many

end DirScan

/-! ## Termination -/

/-- For every block: find, list and is-empty terminate; find-slot and add-entry do exactly if
no record that they pass over wraps. -/
theorem dir_scans_terminate_iff {size : Nat} (least : 1024 ≤ size) (most : size ≤ 4096)
    (buf : Bytes) :
    (∀ name, (extDirFindScan name).Terminates size buf) ∧
      extListDirScan.Terminates size buf ∧ extDirIsEmptyScan.Terminates size buf ∧
      (∀ name, (extDirFindSlotScan name).Terminates size buf ↔
        ¬ Wraps size buf (DirEntry.names name)) ∧
      ∀ need, (extDirAddScan need).Terminates size buf ↔
        ¬ Wraps size buf (DirEntry.hasRoom need) := by
  have small : size < 2 ^ 16 := by omega
  refine ⟨fun name => DirScan.terminates_id _, DirScan.terminates_id _,
    DirScan.terminates_id _, ?_, ?_⟩
  · intro name
    exact DirScan.terminates_wrap16_iff small
  · intro need
    exact DirScan.terminates_wrap16_iff small

/-- Two unused records: one of 8 bytes, and one of 65528 behind it. -/
def endlessBlock : Bytes := wr16 (wr16 (fun _ => 0) 4 8) 12 65528

/-- The loop of `ext2_dir_find_slot` goes from the second record back to the first, for ever. -/
theorem find_slot_endless :
    ¬ (∀ size, 1024 ≤ size → size ≤ 4096 → ∀ buf name,
        (extDirFindSlotScan name).Terminates size buf) ∧
      ∀ k, (extDirFindSlotScan [97]).visited 1024 endlessBlock 0 k ≠ none := by
  have first : (extDirFindSlotScan [97]).visited 1024 endlessBlock 0 0 = some 0 := by decide
  have second : (extDirFindSlotScan [97]).visited 1024 endlessBlock 0 1 = some 8 := by decide
  have third : (extDirFindSlotScan [97]).visited 1024 endlessBlock 0 2 = some 0 := by decide
  constructor
  · intro terminates
    have := (terminates 1024 (by decide) (by decide) endlessBlock [97]).increasing 1 8 0 second third
    omega
  · have round : ∀ k, (extDirFindSlotScan [97]).visited 1024 endlessBlock 0 (2 * k) = some 0 ∧
        (extDirFindSlotScan [97]).visited 1024 endlessBlock 0 (2 * k + 1) = some 8 := by
      intro k
      induction k with
      | zero => exact ⟨first, second⟩
      | succ k ih =>
          have back : (extDirFindSlotScan [97]).visited 1024 endlessBlock 0 (2 * (k + 1)) =
              some 0 := by
            rw [show 2 * (k + 1) = 2 * k + 1 + 1 from by omega, DirScan.visited_succ ih.2]
            decide
          refine ⟨back, ?_⟩
          rw [DirScan.visited_succ back]
          decide
    intro k
    rcases Nat.even_or_odd' k with ⟨j, rfl | rfl⟩
    · rw [(round j).1]
      exact Option.some_ne_none 0
    · rw [(round j).2]
      exact Option.some_ne_none 8

/-- An empty block. -/
theorem dir_scans_terminate_empty :
    (extDirFindSlotScan [97]).Terminates 1024 (fun _ => 0) ↔
      ¬ Wraps 1024 (fun _ => 0) (DirEntry.names [97]) :=
  (dir_scans_terminate_iff (by decide) (by decide) fun _ => 0).2.2.2.1 [97]

end NTux.Ext
