import NTux.Ext.DirEntries
import NTux.Ext.FileRoundTrip
import NTux.Lib.Runs

/-!
# Adding and removing entries of a directory

`dir_right_along_run`: as long as the names that are added are not there, every call of
`ext2_dir_add_entry` and `ext2_dir_remove_entry` does what it says and nothing else, and
the directory stays tiled.  The functions do not look whether a name is there, their
callers do; a directory that has a name twice still has it after it has been removed
(`removed_name_found`).
-/

namespace NTux.Ext

open NTux.Lib NTux.Lib.Bytes NTux.Lib.Keyed

variable {fs : ExtFs} {d d' : Volume} {ino : Nat}

/-- A call that changes the directory. -/
inductive DirCall
  | add (child : Nat) (fileType : UInt8) (name : List UInt8)
  | remove (name : List UInt8)

/-- What the call leaves behind, after the inode of the directory has been read. -/
def dirResult (fs : ExtFs) (ino : Nat) (d : Volume) (call : DirCall) : Except Volume Volume := do
  let dir ← orFail d (extReadInode fs d ino)
  match call with
  | .add child fileType name => do
      let (d, _) ← extDirAddEntry fs d ino dir child fileType name
      .ok d
  | .remove name => do
      let (d, _, _) ← orFail d (extDirRemoveEntry fs d dir name)
      .ok d

/-- The volume after the call. -/
def dirStep (fs : ExtFs) (ino : Nat) (d : Volume) (call : DirCall) : Volume :=
  volumeAfter (dirResult fs ino d call)

/-- The inode and the type found under a name. -/
def dirLookup (fs : ExtFs) (ino : Nat) (d : Volume) (name : List UInt8) : Option (Nat × UInt8) :=
  (extReadInode fs d ino).bind fun dir => extDirFind fs d dir name

/-- The records with their offsets. -/
def placed : Nat → List DirEntry → List (Nat × DirEntry)
  | _, [] => []
  | off, e :: es => (off, e) :: placed (off + e.recLen) es

/-- The directory can be read, its blocks are different and tiled by their records, and no
two of these overlap. -/
structure DirSound (fs : ExtFs) (d : Volume) (dir : Bytes) : Prop where
  tiled : DirTiled fs d dir
  apart : ∀ b ∈ dirBlocks dir,
    (placed 0 (recordsFrom fs.blockSize (d b) fs.blockSize 0)).Pairwise fun x y =>
      x.1 + x.2.recLen ≤ y.1

/-- No name is there twice. -/
def DistinctNames (fs : ExtFs) (d : Volume) (dir : Bytes) : Prop := (keys (dirLinks fs d dir)).Nodup

/-- The call adds or removes the one name, or fails and changes nothing. -/
def DirCallRight (fs : ExtFs) (ino : Nat) (d : Volume) : DirCall → Prop
  | .add child fileType name =>
      match dirResult fs ino d (.add child fileType name) with
      | .ok d' => dirLookup fs ino d' name = some (child, fileType) ∧
          ∀ other, other ≠ name → dirLookup fs ino d' other = dirLookup fs ino d other
      | .error d' => d' = d
  | .remove name =>
      match dirResult fs ino d (.remove name) with
      | .ok d' => dirLookup fs ino d' name = none ∧
          ∀ other, other ≠ name → dirLookup fs ino d' other = dirLookup fs ino d other
      | .error d' => d' = d ∧ dirLookup fs ino d name = none

/-- The inode number of an entry that is added is one. -/
def ChildValid : DirCall → Prop
  | .add child _ _ => child ≠ 0 ∧ child < 2 ^ 32
  | .remove _ => True

/-- A name that is added is not there. -/
def NameNew (fs : ExtFs) (ino : Nat) (d : Volume) : DirCall → Prop
  | .add _ _ name => dirLookup fs ino d name = none
  | .remove _ => True

/-! ## One call -/

theorem placed_ge {size off : Nat} {buf : Bytes} {es : List DirEntry}
    (tiled : Tiled size buf off es) : ∀ x ∈ placed off es, off ≤ x.1 := by
  induction es generalizing off with
  | nil => simp [placed]
  | cons e es ih =>
      unfold placed
      refine List.forall_mem_cons.2 ⟨Nat.le_refl _, fun x mem => ?_⟩
      have le := ih tiled.2.2.2 x mem
      omega

/-- Records that tile a block do not overlap. -/
theorem Tiled.apart {size off : Nat} {buf : Bytes} {es : List DirEntry}
    (tiled : Tiled size buf off es) :
    (placed off es).Pairwise fun x y => x.1 + x.2.recLen ≤ y.1 := by
  induction es generalizing off with
  | nil => exact List.Pairwise.nil
  | cons e es ih =>
      unfold placed
      exact List.pairwise_cons.2 ⟨placed_ge tiled.2.2.2, ih tiled.2.2.2⟩

theorem DirTiled.sound {dir : Bytes} (tiled : DirTiled fs d dir) : DirSound fs d dir := by
  refine ⟨tiled, fun b mem => ?_⟩
  obtain ⟨es, block⟩ := tiled.tiled b mem
  rw [recordsFrom_eq block block.few]
  exact block.apart

theorem dirLookup_eq {dir : Bytes} (onDisk : extReadInode fs d ino = some dir)
    (tiled : DirTiled fs d dir) (name : List UInt8) :
    dirLookup fs ino d name = (dirLinks fs d dir).lookup name := by
  unfold dirLookup
  rw [onDisk, Option.bind_some, extDirFind_eq tiled.tiled]

/-- What holds before and after every call. -/
structure DirInv (fs : ExtFs) (ino : Nat) (d : Volume) : Prop where
  consistent : Consistent fs d
  sound : ∃ dir, extReadInode fs d ino = some dir ∧ DirSound fs d dir ∧ DistinctNames fs d dir

/-- **One call is right, and keeps the directory sound.** -/
theorem dirCall_right (has : fs.HasInode ino) (inv : DirInv fs ino d) (call : DirCall)
    (valid : ChildValid call) (new : NameNew fs ino d call) :
    DirCallRight fs ino d call ∧ DirInv fs ino (dirStep fs ino d call) := by
  obtain ⟨ok, dir, onDisk, sound, distinct⟩ := inv
  have tiled := sound.tiled
  cases call with
  | add child fileType name =>
      rcases extDirAddEntry_ok name fileType ok has onDisk tiled valid.1
        valid.2 with fails | ⟨d', dir', dir₃, adds, changed, inserted, -⟩
      · have result : dirResult fs ino d (.add child fileType name) = .error d := by
          simp only [dirResult, onDisk, orFail, bind, Except.bind, fails]
        simp only [DirCallRight, dirStep, result, volumeAfter]
        exact ⟨trivial, ok, dir, onDisk, sound, distinct⟩
      · have result : dirResult fs ino d (.add child fileType name) = .ok d' := by
          simp only [dirResult, onDisk, orFail, bind, Except.bind, adds]
        have notMem : name ∉ keys (dirLinks fs d dir) := by
          rw [← lookup_eq_none_iff, ← dirLookup_eq onDisk tiled]
          exact new
        simp only [DirCallRight, dirStep, result, volumeAfter]
        refine ⟨⟨?_, fun other ne => ?_⟩, changed.consistent, dir₃, changed.onDisk,
          changed.tiled.sound, inserted.nodup_iff.2 ⟨notMem, distinct⟩⟩
        · rw [dirLookup_eq changed.onDisk changed.tiled, inserted.lookup_self notMem]
        · rw [dirLookup_eq changed.onDisk changed.tiled, dirLookup_eq onDisk tiled,
            inserted.lookup_of_ne ne]
  | remove name =>
      rcases extDirRemoveEntry_ok name ok has onDisk tiled with
        ⟨fails, notMem⟩ | ⟨d', child, fileType, removes, changed, inserted⟩
      · have result : dirResult fs ino d (.remove name) = .error d := by
          simp only [dirResult, onDisk, orFail, bind, Except.bind, fails]
        simp only [DirCallRight, dirStep, result, volumeAfter]
        refine ⟨⟨trivial, ?_⟩, ok, dir, onDisk, sound, distinct⟩
        rw [dirLookup_eq onDisk tiled, lookup_eq_none_iff]
        exact notMem
      · have result : dirResult fs ino d (.remove name) = .ok d' := by
          simp only [dirResult, onDisk, orFail, bind, Except.bind, removes]
        obtain ⟨notMem, distinct'⟩ := inserted.nodup_iff.1 distinct
        simp only [DirCallRight, dirStep, result, volumeAfter]
        refine ⟨⟨?_, fun other ne => ?_⟩, changed.consistent, dir, changed.onDisk,
          changed.tiled.sound, distinct'⟩
        · rw [dirLookup_eq changed.onDisk changed.tiled, lookup_eq_none_iff]
          exact notMem
        · rw [dirLookup_eq changed.onDisk changed.tiled, dirLookup_eq onDisk tiled,
            inserted.lookup_of_ne ne]

/-! ## Runs -/

/-- **Every call in a run is right, and the directory stays tiled**, as long as no name is
added that is there. -/
theorem dir_right_along_run (fs : ExtFs) (ino : Nat) (d : Volume) (calls : List DirCall)
    (has : fs.HasInode ino) (inv : DirInv fs ino d) (valid : ∀ call ∈ calls, ChildValid call)
    (new : AllSteps (dirStep fs ino) (NameNew fs ino) d calls) :
    AllSteps (dirStep fs ino) (DirCallRight fs ino) d calls ∧
      DirInv fs ino (run (dirStep fs ino) d calls) := by
  induction calls generalizing d with
  | nil => exact ⟨trivial, inv⟩
  | cons call calls ih =>
      rw [List.forall_mem_cons] at valid
      obtain ⟨right, next⟩ := dirCall_right has inv call valid.1 new.1
      obtain ⟨rights, last⟩ := ih _ next valid.2 new.2
      exact ⟨⟨right, rights⟩, last⟩

/-- The inode 11 is a directory with two entries in block 7. -/
def twoEntries (first second : UInt8) : Volume :=
  extWriteBlock smallVolume 7
    (putEntry (wr16 (putEntry (wr16 (fun _ => 0) 4 12) 0 11 1 [first]) 16 1012) 12 12 1 [second])

theorem twoEntries_onDisk (first second : UInt8) :
    extReadInode (smallFs 204) (twoEntries first second) 11 = some smallInode := by
  have ok := small_consistent (.inl rfl)
  have has : (smallFs 204).HasInode 11 := by unfold ExtFs.HasInode; decide
  have off : 7 ∉ mapBlocks (smallFs 204) smallVolume := by decide
  obtain ⟨consistent, -⟩ := write_frame ok off

  show extReadInode _ (extWriteBlock _ _ _) _ = _
  rw [extReadInode_eq consistent has]
  rfl

theorem twoEntries_consistent (first second : UInt8) :
    Consistent (smallFs 204) (twoEntries first second) :=
  (write_frame (small_consistent (.inl rfl)) (by decide)).1

theorem twoEntries_sound {first second : UInt8}
    (names : (first = 97 ∧ second = 97) ∨ (first = 97 ∧ second = 98)) :
    DirSound (smallFs 204) (twoEntries first second) smallInode := by
  have blocks : dirBlocks smallInode = [7] := by decide
  have tiled : TiledBlock (smallFs 204) (twoEntries first second 7) := by
    refine ⟨[dirEntryAt (twoEntries first second 7) 0, dirEntryAt (twoEntries first second 7) 12], ?_⟩
    rcases names with ⟨rfl, rfl⟩ | ⟨rfl, rfl⟩ <;>
      exact ⟨rfl, by decide, by decide, rfl, by decide, by decide,
        by unfold Tiled; decide⟩
  refine DirTiled.sound ⟨?_, ?_, ?_⟩
  · rw [blocks]
    intro b mem
    obtain rfl := List.mem_singleton.1 mem
    unfold DataBlock ExtFs.HasBlock
    rcases names with ⟨rfl, rfl⟩ | ⟨rfl, rfl⟩ <;> decide
  · rw [blocks]
    exact List.nodup_singleton 7
  · rw [blocks]
    intro b mem
    obtain rfl := List.mem_singleton.1 mem
    exact tiled

/-- An entry is added to a directory with two others, and one of these is removed. -/
theorem dir_right_two_entries :
    AllSteps (dirStep (smallFs 204) 11) (DirCallRight (smallFs 204) 11) (twoEntries 97 98)
        [.add 13 2 [99], .remove [97]] ∧
      DirInv (smallFs 204) 11
        (run (dirStep (smallFs 204) 11) (twoEntries 97 98) [.add 13 2 [99], .remove [97]]) :=
  dir_right_along_run (smallFs 204) 11 (twoEntries 97 98) [.add 13 2 [99], .remove [97]]
    (by unfold ExtFs.HasInode; decide)
    ⟨twoEntries_consistent 97 98, smallInode, twoEntries_onDisk 97 98,
      twoEntries_sound (.inr ⟨rfl, rfl⟩), by unfold DistinctNames; decide⟩
    (by simp [ChildValid])
    ⟨by show dirLookup _ _ _ _ = _; decide, trivial, trivial⟩

/-- The name `a` is there twice, is removed, and is found again. -/
theorem removed_name_found :
    ¬ ∀ (fs : ExtFs) (ino : Nat) (d : Volume) (calls : List DirCall), fs.HasInode ino →
      Consistent fs d → (∃ dir, extReadInode fs d ino = some dir ∧ DirSound fs d dir) →
      (∀ call ∈ calls, ChildValid call) →
      AllSteps (dirStep fs ino) (DirCallRight fs ino) d calls := by
  intro always
  have right := (always (smallFs 204) 11 (twoEntries 97 97) [.remove [97]]
    (by unfold ExtFs.HasInode; decide) (twoEntries_consistent 97 97)
    ⟨smallInode, twoEntries_onDisk 97 97, twoEntries_sound (.inl ⟨rfl, rfl⟩)⟩
    (by simp [ChildValid])).1
  unfold DirCallRight at right
  dsimp only at right
  have result : dirResult (smallFs 204) 11 (twoEntries 97 97) (.remove [97]) =
      .ok (dirStep (smallFs 204) 11 (twoEntries 97 97) (.remove [97])) :=
    eq_ok_volumeAfter (by decide)
  rw [result] at right
  exact absurd right.1 (by decide)

end NTux.Ext
